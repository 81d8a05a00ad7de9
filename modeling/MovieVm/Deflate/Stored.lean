import MovieVm.Deflate.Inflate
import MovieVm.Source

/-!
# Streams of stored blocks

The simplest stream that inflates to given bytes: it stores them as they are.
-/

namespace MovieVm.Deflate

def maxBlock : Nat := 65535

/-- Blocks that store the bytes; the last one is marked. -/
def storedBlocks (bytes : List UInt8) : List UInt8 :=
  let block := bytes.take maxBlock
  let size := littleEndian 2 block.length ++ littleEndian 2 (maxBlock - block.length)
  if bytes.length ≤ maxBlock then 1 :: size ++ block
  else 0 :: size ++ block ++ storedBlocks (bytes.drop maxBlock)
termination_by bytes.length
decreasing_by simp only [List.length_drop, maxBlock] at *; omega

def store (bytes : List UInt8) : List UInt8 :=
  [0x78, 0x01] ++ storedBlocks bytes ++ (littleEndian 4 (Inflate.checksum bytes.toArray)).reverse

end MovieVm.Deflate
