import MovieVm.Double.Rounding

/-!
# Decimals with fixed places

The exact value of a double, rounded to a number of places; a tie goes to the even digit.
-/

namespace MovieVm.Decimal

/-- At least `width` digits of a number. -/
def paddedDigits (width n : Nat) : List Char :=
  let digits := (toString n).toList
  List.replicate (width - digits.length) '0' ++ digits

def fixed (places : Nat) (x : Double) : String :=
  if x.isNaN then "NaN"
  else
    let sign := if x.isNegative then "-" else ""
    if x.isInfinite then sign ++ "inf"
    else
      let grid := Nat.pow 10 places
      let scaled := Double.roundHalfEven (x.absUnits * grid) Double.unitsPerOne
      sign ++ toString (scaled / grid) ++ "." ++ String.ofList (paddedDigits places (scaled % grid))

end MovieVm.Decimal
