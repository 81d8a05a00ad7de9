import MovieVm.Double.Rounding

/-!
# Shortest digits

The shortest decimal that rounds back to a given double: of the grids of one to seventeen significant
digits the first that has a point in the double's rounding interval, and of its points the nearest.
-/

namespace MovieVm.Decimal

/-- What to do with a double that lies halfway between its two candidates. -/
inductive Tie where
  | toEven
  | up
deriving DecidableEq

/-- `digits * 10 ^ exponent`. -/
structure Digits where
  digits : Nat
  exponent : Int
deriving DecidableEq

namespace Digits

/-- Moves trailing zeros into the exponent. -/
def stripZeros : Nat → Digits → Digits
  | 0, d => d
  | fuel + 1, d =>
    if d.digits % 10 = 0 then stripZeros fuel ⟨d.digits / 10, d.exponent + 1⟩ else d

end Digits

/-- The reals that round to a positive double, all in quarter units over a common denominator. -/
structure Interval where
  low : Nat
  value : Nat
  high : Nat
  closed : Bool

/-- Below a power of two the spacing of doubles is halved. -/
def Interval.ofDouble (x : Double) : Interval :=
  let m := x.significand
  let halfBelow := if m = 0x10000000000000 && x.scale ≠ 0 then 1 else 2
  { low := (4 * m - halfBelow) <<< x.scale
    value := (4 * m) <<< x.scale
    high := (4 * m + 2) <<< x.scale
    closed := m % 2 = 0 }

/-- Whether `num / den` lies in the interval. -/
def Interval.has (i : Interval) (num den : Nat) : Bool :=
  if i.closed then i.low * den ≤ num && num ≤ i.high * den
  else i.low * den < num && num < i.high * den

/-- The number of quarter units in `10 ^ exponent`, as a fraction. -/
def quartersOfPower (exponent : Int) : Nat × Nat :=
  if 0 ≤ exponent then (Nat.pow 10 exponent.toNat <<< 1076, 1)
  else (1 <<< 1076, Nat.pow 10 (-exponent).toNat)

/-- The point of the grid `10 ^ exponent` that stands for the value, if one reads back. -/
def onGrid? (i : Interval) (exponent : Int) (tie : Tie) : Option Digits :=
  let (num, den) := quartersOfPower exponent
  let below := i.value * den / num
  let rest := 2 * (i.value * den % num)
  let hasBelow := below ≠ 0 && i.has (below * num) den
  let hasAbove := i.has ((below + 1) * num) den
  let preferAbove := num < rest || (rest = num && (tie = .up || below % 2 = 1))
  if hasBelow && hasAbove then some ⟨if preferAbove then below + 1 else below, exponent⟩
  else if hasBelow then some ⟨below, exponent⟩
  else if hasAbove then some ⟨below + 1, exponent⟩
  else none

/-- The exponent of ten of the leading digit, found from an estimate that is at most one too large. -/
def leadingExponent (i : Interval) : Int :=
  let estimate : Int := ((i.value.log2 : Int) - 1076) * 30103 / 100000 + 1
  let atMost (e : Int) : Bool :=
    let (num, den) := quartersOfPower e
    num ≤ i.value * den
  if atMost estimate then estimate
  else if atMost (estimate - 1) then estimate - 1
  else estimate - 2

/-- Tries the grids from `exponent` down, `fuel` of them. -/
def firstGrid (i : Interval) (tie : Tie) : Nat → Int → Digits
  | 0, exponent => ⟨0, exponent⟩
  | fuel + 1, exponent =>
    match onGrid? i exponent tie with
    | some d => d
    | none => firstGrid i tie fuel (exponent - 1)

/-- The shortest digits of a finite double that is not zero; its sign is ignored. -/
def shortest (x : Double) (tie : Tie) : Digits :=
  let i := Interval.ofDouble x
  (firstGrid i tie 18 (leadingExponent i)).stripZeros 20

end MovieVm.Decimal
