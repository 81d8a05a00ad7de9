import MovieVm.Decimal.Layout
import MovieVm.Text.Hex

/-!
# Writing JSON
-/

namespace MovieVm.Json

/-- Positional from 10⁻⁵ up to 10¹⁶; a whole number keeps its `.0`, and an exponent its sign. -/
def doubleLayout : Decimal.Layout where
  least := some (-5)
  most := some 16
  keepsPoint := true
  tie := .up
  nanText := "null"
  infinityText := "null"
  signsExponent := true

/-- Data that are no numbers are null. -/
def double (x : Double) : String :=
  if x.isFinite then doubleLayout.text x else "null"

def escape (c : Char) : String :=
  if c = '"' then "\\\""
  else if c = '\\' then "\\\\"
  else if c = '\x08' then "\\b"
  else if c = '\x0c' then "\\f"
  else if c = '\n' then "\\n"
  else if c = '\r' then "\\r"
  else if c = '\t' then "\\t"
  else if c.toNat < 0x20 then "\\u00" ++ Text.hexByte (UInt8.ofNat c.toNat)
  else String.singleton c

def quoted (s : String) : String :=
  "\"" ++ String.join (s.toList.map escape) ++ "\""

/-- An object of values that are written already. -/
def objectText (fields : List (String × String)) : String :=
  "\x7b" ++ ",".intercalate (fields.map fun (key, value) => quoted key ++ ":" ++ value) ++ "\x7d"

end MovieVm.Json
