import MovieVm.Text.Escaped

/-!
# Faults of a movie file
-/

namespace MovieVm.Movie

inductive Fault where
  | invalidSignature (signature : String)
  | unsupportedCompression (scheme : String)
  | inflate
  /-- A structure needs more data at a place of the inflated file. -/
  | truncated (offset : Nat)
  | incomplete (loaded expected : Nat)
  | malformedTag (tag : String) (offset : Nat) (reason : String)
  | closed
deriving DecidableEq

def Fault.message : Fault → String
  | invalidSignature signature => s!"invalid signature {Text.escaped signature}"
  | unsupportedCompression scheme => s!"unsupported compression: {scheme}"
  | inflate => "decompression failed: deflate decompression error"
  | truncated offset => s!"unexpected end of data at offset {offset}"
  | incomplete loaded expected => s!"file ended after {loaded} of {expected} bytes"
  | malformedTag tag offset reason => s!"malformed {tag} tag at offset {offset}: {reason}"
  | closed => "load already finished"

end MovieVm.Movie
