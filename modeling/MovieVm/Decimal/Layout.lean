import MovieVm.Decimal.Shortest

/-!
# Layout of a decimal

Which doubles are written positionally, whether a whole number keeps its `.0`, and the texts of the
special data. A layout is a record, so that each output format states its own decisions once.
-/

namespace MovieVm.Decimal

/-- The point stands `p` places after the first digit. Positional notation is used for
`least < p ≤ most`, where an absent bound admits everything. A positive exponent may have its sign. -/
structure Layout where
  least : Option Int
  most : Option Int
  keepsPoint : Bool
  tie : Tie
  nanText : String
  infinityText : String
  signsExponent : Bool := false

def zeros (n : Nat) : String :=
  String.ofList (List.replicate n '0')

namespace Layout

def isPositional (l : Layout) (point : Int) : Bool :=
  (match l.least with | none => true | some least => least < point) &&
  (match l.most with | none => true | some most => point ≤ most)

def scientific (l : Layout) (digits : List Char) (point : Int) : String :=
  let mantissa := match digits with
    | first :: second :: rest => String.ofList (first :: '.' :: second :: rest)
    | short => String.ofList short
  let sign := if l.signsExponent && 0 < point then "+" else ""
  mantissa ++ "e" ++ sign ++ toString (point - 1)

def positional (l : Layout) (digits : List Char) (point : Int) : String :=
  let size := digits.length
  if point ≤ 0 then
    "0." ++ zeros (-point).toNat ++ String.ofList digits
  else if size ≤ point.toNat then
    String.ofList digits ++ zeros (point.toNat - size) ++ (if l.keepsPoint then ".0" else "")
  else
    String.ofList (digits.take point.toNat) ++ "." ++ String.ofList (digits.drop point.toNat)

/-- The text of a double that is finite and not zero, without its sign. -/
def magnitudeText (l : Layout) (x : Double) : String :=
  let shortest := shortest x l.tie
  let digits := (toString shortest.digits).toList
  let point := shortest.exponent + digits.length
  if l.isPositional point then l.positional digits point else l.scientific digits point

def text (l : Layout) (x : Double) : String :=
  if x.isNaN then l.nanText
  else
    let sign := if x.isNegative then "-" else ""
    if x.isInfinite then sign ++ l.infinityText
    else if x.isZero then sign ++ (if l.keepsPoint then "0.0" else "0")
    else sign ++ l.magnitudeText x

/-- Always positional, and a whole number has no point. -/
def plain : Layout where
  least := none
  most := none
  keepsPoint := false
  tie := .up
  nanText := "NaN"
  infinityText := "inf"

/-- Positional from 10⁻⁴ up to 10¹⁶, and a whole number keeps its `.0`. -/
def literal : Layout where
  least := some (-4)
  most := some 16
  keepsPoint := true
  tie := .up
  nanText := "NaN"
  infinityText := "inf"

end Layout

end MovieVm.Decimal
