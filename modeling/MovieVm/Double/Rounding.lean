import MovieVm.Double.Basic

/-!
# Rounding to a double

A quotient of units is rounded to the nearest double, ties to an even significand. The magnitude of the
result is `shift * 2 ^ 52 + quotient`: a quotient that reaches 2⁵³ carries into the exponent by itself.
-/

namespace MovieVm.Double

/-- Nearest whole number to `num / den`, ties to even. -/
def roundHalfEven (num den : Nat) : Nat :=
  let quotient := num / den
  let rest := 2 * (num % den)
  if den < rest || (rest = den && quotient % 2 = 1) then quotient + 1 else quotient

/-- How far a whole number of units is scaled down so that 53 significant bits are left. -/
def shiftFor (wholeUnits : Nat) : Nat :=
  wholeUnits.log2 - 52

/-- The double nearest to `num / den` units. -/
def ofUnits (negative : Bool) (num den : Nat) : Double :=
  let shift := shiftFor (num / den)
  let magnitude := shift * 0x10000000000000 + roundHalfEven num (den <<< shift)
  ofMagnitude negative (min magnitude infinityMagnitude)

/-- The double nearest to a whole number. -/
def ofInt (n : Int) : Double :=
  ofUnits (n < 0) (n.natAbs <<< 1074) 1

def ofNat (n : Nat) : Double :=
  ofInt n

/-- The double nearest to `digits * 10 ^ exponent`; beyond the exponents of doubles it is infinite or zero. -/
def ofDecimal (negative : Bool) (digits : Nat) (exponent : Int) : Double :=
  if digits = 0 then ofMagnitude negative 0
  else if 400 < exponent + digits.log2 / 4 then ofMagnitude negative infinityMagnitude
  else if exponent + digits.log2 / 3 < -400 then ofMagnitude negative 0
  else if 0 ≤ exponent then ofUnits negative ((digits * Nat.pow 10 exponent.toNat) <<< 1074) 1
  else ofUnits negative (digits <<< 1074) (Nat.pow 10 (-exponent).toNat)

/-- The whole number a double stands for, none when it has a fraction or is not finite. -/
def toInt? (x : Double) : Option Int :=
  if x.isFinite && x.absUnits % unitsPerOne = 0 then
    let whole := x.absUnits / unitsPerOne
    some (if x.isNegative then -(whole : Int) else whole)
  else none

end MovieVm.Double
