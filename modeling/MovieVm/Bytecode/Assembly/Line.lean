import MovieVm.Text.Blank
import MovieVm.Text.Word

/-!
# Lines of assembly

What a line of assembly says, before names are looked up and operands are read. A semicolon outside a
quoted text starts a comment, and blanks at the ends of a line do not matter.
-/

namespace MovieVm.Bytecode.Assembly

open Text

/-! ## Comments -/

/-- The line up to its comment. -/
def stripCommentFrom (quoted escaped : Bool) : List Char → List Char
  | [] => []
  | c :: rest =>
    if escaped then c :: stripCommentFrom quoted false rest
    else if c = '\\' && quoted then c :: stripCommentFrom quoted true rest
    else if c = '"' then c :: stripCommentFrom (!quoted) false rest
    else if c = ';' && !quoted then []
    else c :: stripCommentFrom quoted false rest

def stripComment (line : List Char) : List Char :=
  stripCommentFrom false false line

/-- The part of a line that counts. -/
def content (line : List Char) : List Char :=
  trim (stripComment line)

/-! ## Pieces of a line -/

/-- What follows a fixed text. -/
def after? : (fixed line : List Char) → Option (List Char)
  | [], line => some line
  | _ :: _, [] => none
  | f :: fixed, c :: line => if f = c then after? fixed line else none

/-- What follows at least one blank. -/
def afterBlanks? : List Char → Option (List Char)
  | [] => none
  | c :: rest => if isBlank c then some (rest.dropWhile isBlank) else none

/-- Splits a quoted text off, its closing quote included. -/
def splitQuoted? (escaped : Bool) : List Char → Option (List Char × List Char)
  | [] => none
  | c :: rest =>
    if c = '"' && !escaped then some ([c], rest)
    else (splitQuoted? (c = '\\' && !escaped) rest).map fun (text, rest) => (c :: text, rest)

def isBare (c : Char) : Bool :=
  !isBlank c && c != '"'

/-- Splits a name off: a quoted text, or characters that are neither blanks nor quotes. -/
def splitName? (line : List Char) : Option (List Char × List Char) :=
  match line with
  | '"' :: rest => (splitQuoted? false rest).map fun (text, rest) => ('"' :: text, rest)
  | _ =>
    let name := line.takeWhile isBare
    if name.isEmpty then none else some (name, line.dropWhile isBare)

/-- Splits blanks, a key with its equals sign and a run of digits off. -/
def splitSetting? (key line : List Char) : Option (List Char × List Char) := do
  let rest ← after? key (← afterBlanks? line)
  let digits := rest.takeWhile isDecimalDigit
  if digits.isEmpty then none else some (digits, rest.dropWhile isDecimalDigit)

/-- A setting that may be absent. -/
def splitOptional (key line : List Char) : Option (List Char) × List Char :=
  match splitSetting? key line with
  | some (digits, rest) => (some digits, rest)
  | none => (none, line)

/-- The text of an operand, absent at the end of the line. -/
def operandText? (line : List Char) : Option (Option (List Char)) :=
  if line.isEmpty then some none
  else match afterBlanks? line with
    | some [] | none => none
    | some text => some (some text)

/-! ## Lines outside a method -/

inductive SlotKind where
  | int
  | double
  | string
  | undefined
deriving DecidableEq

def SlotKind.name : SlotKind → String
  | int => "int"
  | double => "double"
  | string => "string"
  | undefined => "undefined"

inductive Directive where
  | method (name : List Char) (params locals : Option (List Char))
  | slot (name : List Char) (kind : SlotKind) (value : Option (List Char))
  | function (name method : List Char)
  | init (method : List Char)

/-- What follows a directive's keyword and at least one blank. -/
def afterKeyword? (keyword : String) (line : List Char) : Option (List Char) := do
  afterBlanks? (← after? keyword.toList line)

def readMethod? (line : List Char) : Option Directive := do
  let (name, rest) ← splitName? (← afterKeyword? ".method" line)
  let (params, rest) := splitOptional "params=".toList rest
  let (locals, rest) := splitOptional "locals=".toList rest
  if rest.isEmpty then some (.method name params locals) else none

def readSlotKind? (line : List Char) : Option (SlotKind × List Char) :=
  [SlotKind.int, .double, .string, .undefined].findSome? fun kind =>
    (after? kind.name.toList line).map (kind, ·)

def readSlot? (line : List Char) : Option Directive := do
  let (name, rest) ← splitName? (← afterKeyword? ".slot" line)
  let (kind, rest) ← readSlotKind? (← afterBlanks? rest)
  return .slot name kind (← operandText? rest)

def readFunction? (line : List Char) : Option Directive := do
  let (name, rest) ← splitName? (← afterKeyword? ".function" line)
  let (method, rest) ← splitName? (← afterBlanks? rest)
  if rest.isEmpty then some (.function name method) else none

def readInit? (line : List Char) : Option Directive := do
  let (method, rest) ← splitName? (← afterKeyword? ".init" line)
  if rest.isEmpty then some (.init method) else none

def Directive.read? (line : List Char) : Option Directive :=
  readMethod? line <|> readSlot? line <|> readFunction? line <|> readInit? line

/-! ## Lines inside a method -/

inductive BodyLine where
  | label (name : List Char)
  | instruction (mnemonic : List Char) (operand : Option (List Char))

def isLabelStart (c : Char) : Bool :=
  c.isAlpha || c = '_' || c = '$'

def isLabelChar (c : Char) : Bool :=
  isWord c || c = '$'

/-- A label is a name that ends in a colon. -/
def readLabel? (line : List Char) : Option BodyLine :=
  if line.getLast? = some ':' then
    match line.dropLast with
    | first :: rest =>
      if isLabelStart first && rest.all isLabelChar then some (.label (first :: rest)) else none
    | [] => none
  else none

def isMnemonicChar (c : Char) : Bool :=
  'a' ≤ c && c ≤ 'z'

def readInstruction? (line : List Char) : Option BodyLine := do
  let mnemonic := line.takeWhile isMnemonicChar
  if mnemonic.isEmpty then none
  return .instruction mnemonic (← operandText? (line.dropWhile isMnemonicChar))

def BodyLine.read? (line : List Char) : Option BodyLine :=
  readLabel? line <|> readInstruction? line

end MovieVm.Bytecode.Assembly
