import MovieVm.Double.Rounding

/-!
# Arithmetic of doubles

Each operation is the exact result, rounded once. What is left are the special operands: NaN, the
infinities and the sign of a zero.
-/

namespace MovieVm.Double

/-- An exact sum of zero is positive, unless both summands are negative zeros. -/
def add (x y : Double) : Double :=
  if x.isNaN || y.isNaN then nan
  else if x.isInfinite then
    if y.isInfinite && x.isNegative != y.isNegative then nan else x
  else if y.isInfinite then y
  else
    let sum := x.units + y.units
    if sum = 0 then ofMagnitude (x.isNegative && y.isNegative) 0
    else ofUnits (sum < 0) sum.natAbs 1

def sub (x y : Double) : Double :=
  if y.isNaN then nan else x.add y.neg

def mul (x y : Double) : Double :=
  let negative := x.isNegative != y.isNegative
  if x.isNaN || y.isNaN then nan
  else if x.isInfinite || y.isInfinite then
    if x.isZero || y.isZero then nan else ofMagnitude negative infinityMagnitude
  else ofUnits negative (x.absUnits * y.absUnits) unitsPerOne

def div (x y : Double) : Double :=
  let negative := x.isNegative != y.isNegative
  if x.isNaN || y.isNaN then nan
  else if x.isInfinite then
    if y.isInfinite then nan else ofMagnitude negative infinityMagnitude
  else if y.isInfinite then ofMagnitude negative 0
  else if y.isZero then
    if x.isZero then nan else ofMagnitude negative infinityMagnitude
  else ofUnits negative (x.absUnits <<< 1074) y.absUnits

/-- The remainder of the division toward zero; it has the sign of the dividend. -/
def rem (x y : Double) : Double :=
  if x.isNaN || y.isNaN || x.isInfinite || y.isZero then nan
  else if y.isInfinite then x
  else ofUnits x.isNegative (x.absUnits % y.absUnits) 1

/-- The least whole number not below a finite double. -/
def ceil (x : Double) : Int :=
  -((-x.units) / (unitsPerOne : Int))

end MovieVm.Double
