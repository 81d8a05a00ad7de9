import MovieVm.Decimal.Layout
import MovieVm.Decimal.Reading
import MovieVm.Double.Arithmetic
import MovieVm.Text.Blank

/-!
# Values

The values of the machine, their texts and their conversion to a number.
-/

namespace MovieVm

/-- A method of a module that a security domain has loaded. -/
structure FunctionRef where
  module : Nat
  method : Nat
deriving DecidableEq

inductive Value where
  | undefined
  | null
  | boolean (b : Bool)
  | int (n : Int32)
  | double (x : Double)
  | string (s : String)
  | function (f : FunctionRef)
  | native (name : String)
deriving DecidableEq, Inhabited

namespace Value

/-! ## Text -/

/-- Doubles are positional from 10⁻⁵ up to 10¹⁶, and a whole one keeps its `.0`. -/
def doubleLayout : Decimal.Layout where
  least := some (-5)
  most := some 16
  keepsPoint := true
  tie := .toEven
  nanText := "NaN"
  infinityText := "Infinity"

/-- Whole doubles below 10¹⁵ are written as whole numbers, negative zero as `0`. -/
def doubleText (x : Double) : String :=
  match x.toInt? with
  | some n => if n.natAbs < 1000000000000000 then toString n else doubleLayout.text x
  | none => doubleLayout.text x

def text : Value → String
  | undefined => "undefined"
  | null => "null"
  | boolean b => if b then "true" else "false"
  | int n => toString n.toInt
  | double x => doubleText x
  | string s => s
  | function f => s!"[function Function#{f.module}.{f.method}]"
  | native name => "function " ++ name ++ "() \x7b [native code] \x7d"

def typeName : Value → String
  | undefined => "undefined"
  | null => "object"
  | boolean _ => "boolean"
  | int _ | double _ => "number"
  | string _ => "string"
  | function _ | native _ => "function"

/-! ## Conversions -/

def isTruthy : Value → Bool
  | undefined | null => false
  | boolean b => b
  | int n => n != 0
  | double x => !x.isNaN && !x.isZero
  | string s => s != ""
  | function _ | native _ => true

/-- The number a text stands for: blank text is zero, text that is no number is NaN. -/
def textNumber (s : String) : Double :=
  let trimmed := Text.trim s.toList
  if trimmed.isEmpty then Double.zero
  else (Decimal.readDouble? trimmed).getD Double.nan

def toNumber : Value → Double
  | undefined => Double.nan
  | null => Double.zero
  | boolean b => if b then Double.one else Double.zero
  | int n => Double.ofInt n.toInt
  | double x => x
  | string s => textNumber s
  | function _ | native _ => Double.nan

/-- The narrowest value for a number: whole numbers of 32 bits are ints, except negative zero. -/
def ofNumber (x : Double) : Value :=
  match x.toInt? with
  | some n =>
    if -2147483648 ≤ n && n ≤ 2147483647 && x != Double.negativeZero then int (Int32.ofInt n)
    else double x
  | none => double x

def isNumeric : Value → Bool
  | int _ | double _ => true
  | _ => false

end Value

end MovieVm
