/-!
# Doubles

A double is an IEEE 754 binary64 datum, kept as its 64 bits. Every datum has a decidable equality, the
NaN payloads included, and comparison and arithmetic are exact computations on natural numbers: a finite
double is a whole number of *units*, the smallest positive double being one unit.
-/

namespace MovieVm

structure Double where
  bits : UInt64
deriving DecidableEq, Hashable, Inhabited

namespace Double

/-! ## Sign and magnitude -/

def isNegative (x : Double) : Bool :=
  0x8000000000000000 ≤ x.bits

/-- The bits below the sign, which order the non-negative doubles. -/
def magnitude (x : Double) : Nat :=
  (x.bits % 0x8000000000000000).toNat

def infinityMagnitude : Nat := 0x7ff0000000000000

def ofMagnitude (negative : Bool) (magnitude : Nat) : Double :=
  ⟨UInt64.ofNat (if negative then magnitude + 0x8000000000000000 else magnitude)⟩

def isNaN (x : Double) : Bool :=
  infinityMagnitude < x.magnitude

def isInfinite (x : Double) : Bool :=
  x.magnitude = infinityMagnitude

def isFinite (x : Double) : Bool :=
  x.magnitude < infinityMagnitude

def isZero (x : Double) : Bool :=
  x.magnitude = 0

def zero : Double := ⟨0⟩
def one : Double := ⟨0x3ff0000000000000⟩
def negativeZero : Double := ⟨0x8000000000000000⟩
def infinity : Double := ⟨0x7ff0000000000000⟩
def negativeInfinity : Double := ⟨0xfff0000000000000⟩
def nan : Double := ⟨0x7ff8000000000000⟩

def neg (x : Double) : Double :=
  ⟨x.bits ^^^ 0x8000000000000000⟩

def abs (x : Double) : Double :=
  ⟨x.bits % 0x8000000000000000⟩

/-! ## Comparison -/

/-- Orders the doubles that are not NaN; both zeros have key 0. -/
def key (x : Double) : Int :=
  if x.isNegative then -(x.magnitude : Int) else x.magnitude

/-- Numeric order, undefined when either side is NaN. -/
def compare? (x y : Double) : Option Ordering :=
  if x.isNaN || y.isNaN then none else some (compare x.key y.key)

/-- Numeric equality: the zeros are equal and NaN equals nothing. -/
def equals (x y : Double) : Bool :=
  x.compare? y = some .eq

/-- The larger of the two; a NaN gives way to the other side. -/
def max (x y : Double) : Double :=
  if x.isNaN then y
  else if y.isNaN then x
  else if x.key < y.key then y else x

/-- Orders all doubles: a negative zero before the positive one, and each NaN beyond the infinity of its
sign. -/
def totalKey (x : Double) : Int :=
  if x.isNegative then -(x.magnitude : Int) - 1 else x.magnitude

/-! ## Units -/

/-- The exponent of two that scales the significand, counted in units. -/
def scale (x : Double) : Nat :=
  x.magnitude / 0x10000000000000 - 1

/-- The significand of a finite double, with its hidden bit. -/
def significand (x : Double) : Nat :=
  if x.magnitude < 0x10000000000000 then x.magnitude
  else x.magnitude % 0x10000000000000 + 0x10000000000000

/-- The absolute value of a finite double, in units of 2⁻¹⁰⁷⁴. -/
def absUnits (x : Double) : Nat :=
  x.significand <<< x.scale

def units (x : Double) : Int :=
  if x.isNegative then -(x.absUnits : Int) else x.absUnits

/-- The number of units in 1. -/
def unitsPerOne : Nat := 1 <<< 1074

end Double

end MovieVm
