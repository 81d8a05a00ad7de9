import MovieVm.Bits
import MovieVm.Movie.Fault

/-!
# Rectangles

The bounds of a stage, in twentieths of a pixel. A rectangle is packed into bits: five give the width of
a coordinate, and four coordinates in two's complement follow.
-/

namespace MovieVm.Movie

structure Rect where
  xMin : Int
  xMax : Int
  yMin : Int
  yMax : Int
deriving DecidableEq

namespace Rect

def coordinates (r : Rect) : List Int :=
  [r.xMin, r.xMax, r.yMin, r.yMax]

/-- The number of binary digits of a number. -/
def digits (n : Nat) : Nat :=
  if n = 0 then 0 else n.log2 + 1

/-- The bits that a number needs in two's complement. -/
def signedWidth (n : Int) : Nat :=
  1 + digits (if 0 ≤ n then n.toNat else (-n - 1).toNat)

/-- The width that holds every coordinate; more than 31 bits cannot be written. -/
def width (r : Rect) : Nat :=
  min 31 ((r.coordinates.map signedWidth).foldl max 1)

/-- The lowest bits of a number in two's complement, the most significant first. -/
def field (width : Nat) (n : Int) : List Bool :=
  Bits.mostFirst width (n % (1 <<< width : Nat)).toNat

def toBits (r : Rect) : List Bool :=
  Bits.mostFirst 5 r.width ++ r.coordinates.flatMap (field r.width)

def encode (r : Rect) : List UInt8 :=
  Bits.toBytes r.toBits

/-- The size in bytes of a rectangle that begins with a byte. -/
def encodedSize (first : UInt8) : Nat :=
  (5 + 4 * (first.toNat / 8) + 7) / 8

/-- The first `n` bits and the others, if there are that many. -/
def split? (n : Nat) (bits : List Bool) : Option (List Bool × List Bool) :=
  if bits.length < n then none else some (bits.take n, bits.drop n)

def ofBits? (bits : List Bool) : Option Rect := do
  let (width, bits) ← split? 5 bits
  let width := Bits.ofMostFirst width
  let (xMin, bits) ← split? width bits
  let (xMax, bits) ← split? width bits
  let (yMin, bits) ← split? width bits
  let (yMax, _) ← split? width bits
  return ⟨Bits.signed xMin, Bits.signed xMax, Bits.signed yMin, Bits.signed yMax⟩

/-- Reads a rectangle that stands at the place `base` of a file. -/
def decode (bytes : List UInt8) (base : Nat) : Except Fault Rect :=
  match ofBits? (Bits.ofBytes bytes) with
  | some r => .ok r
  | none => .error (.truncated (base + bytes.length))

end Rect

end MovieVm.Movie
