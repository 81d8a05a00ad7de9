import MovieVm.Double.Rounding

/-!
# Reading numbers

Whole numbers are ASCII digits with an optional sign. Doubles are digits with an optional point and an
optional exponent, or the words for infinity and NaN in any case; the value is rounded once.
-/

namespace MovieVm.Decimal

def digitValue (c : Char) : Nat :=
  c.toNat - '0'.toNat

/-- The number that a run of digits writes, continuing from `acc`. -/
def digitsValue (acc : Nat) (digits : List Char) : Nat :=
  digits.foldl (fun n c => 10 * n + digitValue c) acc

/-- Digits and nothing else, at least one. -/
def readDigits? (s : List Char) : Option Nat :=
  if s.isEmpty || !s.all Char.isDigit then none else some (digitsValue 0 s)

/-- A whole number with an optional plus, below the bound. -/
def readNat? (bound : Nat) (s : List Char) : Option Nat :=
  (readDigits? (match s with | '+' :: rest => rest | _ => s)).filter (· < bound)

/-- A whole number with an optional sign, in the range of 32 bits. -/
def readInt32? (s : List Char) : Option Int32 :=
  let signed : Option Int := match s with
    | '+' :: rest => (readDigits? rest).map Int.ofNat
    | '-' :: rest => (readDigits? rest).map fun n => -(n : Int)
    | _ => (readDigits? s).map Int.ofNat
  match signed with
  | some n => if -2147483648 ≤ n && n ≤ 2147483647 then some (Int32.ofInt n) else none
  | none => none

/-- The exponent after its mark; without a mark it is zero. -/
def readExponent? : List Char → Option Int
  | [] => some 0
  | mark :: rest =>
    if mark = 'e' || mark = 'E' then
      match rest with
      | '+' :: digits => (readDigits? digits).map Int.ofNat
      | '-' :: digits => (readDigits? digits).map fun n => -(n : Int)
      | digits => (readDigits? digits).map Int.ofNat
    else none

/-- The fraction after a point; without a point there are no digits. -/
def splitFraction : List Char → List Char × List Char
  | '.' :: rest => (rest.takeWhile Char.isDigit, rest.dropWhile Char.isDigit)
  | rest => ([], rest)

/-- An unsigned double in digits. -/
def readMagnitude? (negative : Bool) (s : List Char) : Option Double := do
  let whole := s.takeWhile Char.isDigit
  let (fraction, rest) := splitFraction (s.dropWhile Char.isDigit)
  if whole.isEmpty && fraction.isEmpty then none
  let exponent ← readExponent? rest
  return Double.ofDecimal negative (digitsValue 0 (whole ++ fraction)) (exponent - fraction.length)

/-- The words that stand for a magnitude. -/
def wordMagnitude? (s : List Char) : Option Double :=
  let word := String.ofList (s.map Char.toLower)
  if word = "inf" || word = "infinity" then some Double.infinity
  else if word = "nan" then some Double.nan
  else none

def readDouble? (s : List Char) : Option Double :=
  let (negative, body) := match s with
    | '+' :: rest => (false, rest)
    | '-' :: rest => (true, rest)
    | _ => (false, s)
  match readMagnitude? negative body with
  | some x => some x
  | none => (wordMagnitude? body).map fun x => if negative then x.neg else x

end MovieVm.Decimal
