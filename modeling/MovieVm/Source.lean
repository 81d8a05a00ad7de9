/-!
# Sources of bytes

A source is what is left to be read of some bytes, and where that begins. Numbers of a fixed width have
their lowest byte first.
-/

namespace MovieVm

/-- The lowest `width` bytes of a number, the lowest first. -/
def littleEndian : (width : Nat) → Nat → List UInt8
  | 0, _ => []
  | width + 1, n => UInt8.ofNat n :: littleEndian width (n / 256)

/-- The number that bytes write, the lowest first. -/
def ofLittleEndian : List UInt8 → Nat
  | [] => 0
  | b :: rest => b.toNat + 256 * ofLittleEndian rest

/-- The bytes still to be read, and the place of the first of them. -/
structure Source where
  position : Nat
  rest : List UInt8

namespace Source

def ofBytes (bytes : List UInt8) : Source :=
  ⟨0, bytes⟩

def remaining (s : Source) : Nat :=
  s.rest.length

/-- The source behind its next `n` bytes, or at its end when there are fewer. -/
def skip (s : Source) (n : Nat) : Source :=
  ⟨s.position + (s.rest.take n).length, s.rest.drop n⟩

end Source

end MovieVm
