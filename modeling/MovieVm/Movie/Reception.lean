import MovieVm.Deflate.Inflate
import MovieVm.Movie.Basic

/-!
# Receiving a file

The bytes of a file may arrive in pieces of any size. Eight bytes of preamble come first; what follows is
inflated if the preamble says so. The header is read once all of it is there, and so is each tag.
-/

namespace MovieVm.Movie

open Deflate (Inflate)

/-! ## Splitting off tags -/

namespace File

/-- The first tag of the bytes and what follows it, if all of the tag is there. A length of 63 in the
short header stands for a length of four bytes of its own. -/
def RawTag.split? : List UInt8 → Option (RawTag × List UInt8)
  | a :: b :: rest =>
    let word := a.toNat + 256 * b.toNat
    let tag : Tag := ⟨UInt16.ofNat (word / 64)⟩
    if word % 64 < 63 then body tag 2 (word % 64) rest
    else
      match rest with
      | c :: d :: e :: f :: rest => body tag 6 (ofLittleEndian [c, d, e, f]) rest
      | _ => none
  | _ => none
where
  body (tag : Tag) (headerSize length : Nat) (rest : List UInt8) : Option (RawTag × List UInt8) :=
    let taken := rest.take length
    if taken.length < length then none else some (⟨tag, headerSize, taken⟩, rest.drop length)

theorem RawTag.length_of_body {tag : Tag} {headerSize length : Nat} {bytes rest : List UInt8}
    {raw : RawTag} (h : split?.body tag headerSize length bytes = some (raw, rest)) :
    rest.length ≤ bytes.length := by
  unfold split?.body at h
  simp only at h
  split at h
  · simp at h
  · simp only [Option.some.injEq, Prod.mk.injEq] at h
    rw [← h.2, List.length_drop]
    omega

/-- A tag takes at least two bytes. -/
theorem RawTag.length_of_split? {bytes rest : List UInt8} {raw : RawTag}
    (h : split? bytes = some (raw, rest)) : rest.length + 2 ≤ bytes.length := by
  match bytes, h with
  | a :: b :: rest', h =>
    simp only [split?] at h
    split at h
    · have := length_of_body h
      simp only [List.length_cons]
      omega
    · split at h
      · have := length_of_body h
        simp only [List.length_cons]
        omega
      · simp at h

/-- The tags read in one go: how many, the symbols to announce, and the size of all of them. -/
structure Scan where
  tags : Nat := 0
  bytes : Nat := 0
  eager : List Symbol := []

/-- Adds every complete tag up to the end of the file. The answer has the file, what is left, and the
scan or the fault that stopped it. -/
def scan (f : File) (rest : List UInt8) : File × List UInt8 × Except Fault Scan :=
  if f.isComplete then (f, rest, .ok {})
  else
    match h : RawTag.split? rest with
    | none => (f, rest, .ok {})
    | some (raw, next) =>
      match f.add raw with
      | (f, .error fault) => (f, rest, .error fault)
      | (f, .ok symbol) =>
        have := RawTag.length_of_split? h
        let (f, rest, outcome) := scan f next
        (f, rest, outcome.map fun s =>
          ⟨s.tags + 1, s.bytes + raw.size, symbol.toList ++ s.eager⟩)
termination_by rest.length

end File

/-! ## The preamble and the header -/

structure Preamble where
  compressed : Bool
  version : UInt8
  fileLength : Nat

def Preamble.size : Nat := 8

/-- The preamble that eight bytes hold: a signature of three, the version, and the size of the file. -/
def Preamble.ofBytes (bytes : List UInt8) : Except Fault Preamble :=
  let version := bytes[3]?.getD 0
  let fileLength := ofLittleEndian ((bytes.drop 4).take 4)
  let signature := Text.ofUtf8Lossy (bytes.take 3)
  if signature = "FWS" then .ok ⟨false, version, fileLength⟩
  else if signature = "CWS" then .ok ⟨true, version, fileLength⟩
  else if signature = "ZWS" then .error (.unsupportedCompression "LZMA")
  else .error (.invalidSignature signature)

/-- Reads the header from the start of the body: bounds, frame rate, number of frames. Nothing while
bytes are missing, else the new file and the bytes behind the header. -/
def Preamble.readHeader (p : Preamble) (body : List UInt8) :
    Except Fault (Option (File × List UInt8)) := do
  match body with
  | [] => return none
  | first :: _ =>
    let size := Rect.encodedSize first
    if body.length < size + 4 then return none
    let bounds ← Rect.decode (body.take size) Preamble.size
    let header : Header := {
      compressed := p.compressed
      version := p.version
      fileLength := p.fileLength
      bounds
      frameRate := Reader.fixedPoint (ofLittleEndian ((body.drop size).take 2))
      frameCount := ofLittleEndian ((body.drop (size + 2)).take 2) }
    return some ({ header, bytesLoaded := Preamble.size + size + 4 }, body.drop (size + 4))

/-! ## Reception -/

/-- How the bytes behind the preamble come. -/
inductive Intake where
  | plain
  | deflated (stream : Inflate)

/-- What the bytes add to the body. -/
def Intake.push (i : Intake) (bytes : List UInt8) : Except Fault (List UInt8 × Intake) :=
  match i with
  | .plain => .ok (bytes, .plain)
  | .deflated stream =>
    match stream.push bytes with
    | some (body, stream) => .ok (body, .deflated stream)
    | none => .error .inflate

/-- How far a file has come: part of its preamble, the body from the header on, or the file and the
bytes behind the tags that were read. -/
inductive Reception where
  | preamble (bytes : List UInt8)
  | header (p : Preamble) (intake : Intake) (body : List UInt8)
  | tags (intake : Intake) (file : File) (rest : List UInt8)

namespace Reception

def start : Reception := .preamble []

def file? : Reception → Option File
  | tags _ file _ => some file
  | _ => none

/-- The size of the file before compression as far as it has arrived. -/
def received : Reception → Nat
  | preamble bytes => bytes.length
  | header _ _ body => Preamble.size + body.length
  | tags _ file rest => file.bytesLoaded + rest.length

/-- The declared size, zero while the preamble is not there. -/
def expected : Reception → Nat
  | preamble _ => 0
  | header p _ _ => p.fileLength
  | tags _ file _ => file.header.fileLength

/-- How many bytes wait to be read. -/
def pending : Reception → Nat
  | preamble _ => 0
  | header _ _ body => body.length
  | tags _ _ rest => rest.length

def incomplete (r : Reception) : Fault :=
  .incomplete r.received r.expected

/-- Takes the next piece of the file. -/
def push (r : Reception) (bytes : List UInt8) : Except Fault Reception := do
  match r with
  | preamble begun =>
    let all := begun ++ bytes
    if all.length < Preamble.size then return preamble all
    let p ← Preamble.ofBytes all
    let intake := if p.compressed then Intake.deflated {} else .plain
    let (body, intake) ← intake.push (all.drop Preamble.size)
    return header p intake body
  | header p intake body =>
    let (added, intake) ← intake.push bytes
    return header p intake (body ++ added)
  | tags intake file rest =>
    let (added, intake) ← intake.push bytes
    return tags intake file (rest ++ added)

end Reception

end MovieVm.Movie
