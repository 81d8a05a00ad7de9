import MovieVm.Value.Basic

/-!
# Operators on values

Equality, order and arithmetic as the instructions compute them.
-/

namespace MovieVm.Value

/-! ## Equality -/

/-- No coercion, except between the two numeric forms. -/
def strictEquals (a b : Value) : Bool :=
  if a.isNumeric && b.isNumeric then a.toNumber.equals b.toNumber else a = b

def isAbsent : Value → Bool
  | undefined | null => true
  | _ => false

def isPrimitive : Value → Bool
  | int _ | double _ | string _ | boolean _ => true
  | _ => false

/-- The absent values equal each other only; two strings compare as texts, other primitives as numbers. -/
def looseEquals (a b : Value) : Bool :=
  if a.isAbsent || b.isAbsent then a.isAbsent && b.isAbsent
  else match a, b with
    | string s, string t => s = t
    | _, _ =>
      if a.isPrimitive && b.isPrimitive then a.toNumber.equals b.toNumber
      else a.strictEquals b

/-! ## Order -/

/-- Strings compare by code point, everything else by number; undefined when a side is NaN. -/
def compare? (a b : Value) : Option Ordering :=
  match a, b with
  | string s, string t => some (compare s t)
  | _, _ => a.toNumber.compare? b.toNumber

def lessThan (a b : Value) : Bool :=
  a.compare? b = some .lt

def lessEquals (a b : Value) : Bool :=
  a.compare? b = some .lt || a.compare? b = some .eq

def greaterThan (a b : Value) : Bool :=
  a.compare? b = some .gt

def greaterEquals (a b : Value) : Bool :=
  a.compare? b = some .gt || a.compare? b = some .eq

/-! ## Arithmetic -/

/-- Concatenation when a side is a string, the sum otherwise. -/
def add (a b : Value) : Value :=
  match a, b with
  | string s, _ => string (s ++ b.text)
  | _, string t => string (a.text ++ t)
  | _, _ => ofNumber (a.toNumber.add b.toNumber)

def subtract (a b : Value) : Value :=
  ofNumber (a.toNumber.sub b.toNumber)

def multiply (a b : Value) : Value :=
  ofNumber (a.toNumber.mul b.toNumber)

def divide (a b : Value) : Value :=
  ofNumber (a.toNumber.div b.toNumber)

def modulo (a b : Value) : Value :=
  ofNumber (a.toNumber.rem b.toNumber)

def negate (a : Value) : Value :=
  ofNumber a.toNumber.neg

end MovieVm.Value
