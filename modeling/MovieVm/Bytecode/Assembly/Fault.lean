import MovieVm.Bytecode.Opcode
import MovieVm.Text.Quoted

/-!
# Faults of assembly

What can be wrong with a source text, and the wording of each fault.
-/

namespace MovieVm.Bytecode

inductive AssemblyFault where
  | directiveInMethod
  | duplicateLabel (label : String)
  | unreadable (line : String)
  | duplicateMethod (name : String)
  | localsBelowParams (locals params : Nat)
  | malformedSlot (kind : String)
  | duplicateInit
  | endOutsideMethod
  | unexpected (line : String)
  | missingEnd
  | missingInit
  | unknownMnemonic (mnemonic : String)
  | takesNoOperand (mnemonic : String)
  | requiresOperand (mnemonic : String)
  | undefinedMethod (name : String)
  | undefinedLabel (label : String)
  | invalidIndex (text : String)
  | invalidInt (text : String)
  | invalidDouble (text : String)
  | invalidName (text : String)
  | notQuoted (text : String)
  | bareQuote
  | badCodePoint
  | badEscape (text : String)
deriving DecidableEq

def AssemblyFault.message : AssemblyFault → String
  | directiveInMethod => "directive inside method body"
  | duplicateLabel label => s!"duplicate label {label}"
  | unreadable line => s!"cannot parse `{line}`"
  | duplicateMethod name => s!"duplicate method {name}"
  | localsBelowParams locals params => s!"locals={locals} is less than params={params}"
  | malformedSlot kind => s!"malformed {kind} slot value"
  | duplicateInit => "duplicate .init"
  | endOutsideMethod => ".end outside method"
  | unexpected line => s!"unexpected `{line}` outside method"
  | missingEnd => "method is missing .end"
  | missingInit => "missing .init directive"
  | unknownMnemonic mnemonic => s!"unknown mnemonic {mnemonic}"
  | takesNoOperand mnemonic => s!"{mnemonic} takes no operand"
  | requiresOperand mnemonic => s!"{mnemonic} requires an operand"
  | undefinedMethod name => s!"undefined method {name}"
  | undefinedLabel label => s!"undefined label {label}"
  | invalidIndex text => s!"invalid index {text}"
  | invalidInt text => s!"invalid int {text}"
  | invalidDouble text => s!"invalid double {text}"
  | invalidName text => s!"invalid name {text}"
  | notQuoted text => s!"expected string literal, found {text}"
  | bareQuote => "unescaped quote in string"
  | badCodePoint => "invalid \\u escape"
  | badEscape text => "invalid escape \\" ++ text

/-- A fault at a line, counted from 1. -/
structure AssemblyError where
  line : Nat
  fault : AssemblyFault
deriving DecidableEq

def AssemblyError.message (e : AssemblyError) : String :=
  s!"line {e.line}: {e.fault.message}"

def AssemblyFault.ofQuoted (text : List Char) : Text.Quoted.Fault → AssemblyFault
  | .notQuoted => .notQuoted (String.ofList text)
  | .bareQuote => .bareQuote
  | .badCodePoint => .badCodePoint
  | .badEscape c => .badEscape (String.ofList c.toList)

end MovieVm.Bytecode
