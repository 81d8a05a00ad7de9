/-!
# Bits

Bits of a byte and of numbers, with the most significant or the least significant bit first.
-/

namespace MovieVm.Bits

/-- The lowest `width` bits of a number, the most significant first. -/
def mostFirst : (width : Nat) → Nat → List Bool
  | 0, _ => []
  | width + 1, n => n.testBit width :: mostFirst width n

def ofMostFirst (bits : List Bool) : Nat :=
  bits.foldl (fun n b => 2 * n + b.toNat) 0

/-- The lowest `width` bits of a number, the least significant first. -/
def leastFirst : (width : Nat) → Nat → List Bool
  | 0, _ => []
  | width + 1, n => n.testBit 0 :: leastFirst width (n / 2)

def ofLeastFirst : List Bool → Nat
  | [] => 0
  | b :: rest => b.toNat + 2 * ofLeastFirst rest

/-- The number that bits write in two's complement, the sign first. -/
def signed : List Bool → Int
  | [] => 0
  | sign :: rest => ofMostFirst rest - (if sign then 1 <<< rest.length else 0 : Nat)

/-- All bits of some bytes, each byte from its most significant bit on. -/
def ofBytes (bytes : List UInt8) : List Bool :=
  bytes.flatMap fun b => mostFirst 8 b.toNat

/-- Packs bits into bytes from the most significant bit on; the last byte ends in zeros. -/
def toBytes : List Bool → List UInt8
  | [] => []
  | a :: rest =>
    let first := a :: rest.take 7
    let padded := first ++ List.replicate (8 - first.length) false
    UInt8.ofNat (ofMostFirst padded) :: toBytes (rest.drop 7)
termination_by bits => bits.length
decreasing_by simp only [List.length_cons, List.length_drop]; omega

end MovieVm.Bits
