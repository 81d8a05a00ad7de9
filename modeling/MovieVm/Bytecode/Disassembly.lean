import MovieVm.Bytecode.Module
import MovieVm.Console
import MovieVm.Decimal.Layout
import MovieVm.Text.Quoted

/-!
# Disassembly

The text of a module in the language of the assembler. What the assembler does not read, such as the
version, stands in a comment.
-/

namespace MovieVm.Bytecode

/-! ## Pieces of the text -/

def quote (s : String) : String :=
  String.ofList (Text.Quoted.encode s.toList)

def isBareStart (c : Char) : Bool :=
  c.isAlpha || c = '_' || c = '$'

def isBareChar (c : Char) : Bool :=
  c.isAlphanum || c = '_' || c = '$' || c = '.' || c = ':'

/-- Whether a name is written without quotes. -/
def isBareName : List Char → Bool
  | [] => false
  | first :: rest => isBareStart first && rest.all isBareChar

def nameText (s : String) : String :=
  if isBareName s.toList then s else quote s

def Constant.literal : Constant → String
  | .int n => toString n.toInt
  | .double x => Decimal.Layout.literal.text x
  | .string s => quote s

def Constant.slotText (c : Constant) : String :=
  c.kind.name ++ " " ++ c.literal

namespace Module

def operandText (m : Module) (kind : OperandKind) (operand : Nat) : String :=
  match kind with
  | .intConstant | .doubleConstant | .stringConstant =>
    match m.constants[operand]? with
    | some c => c.literal
    | none => s!"#{operand}"
  | .name => nameText ((m.stringConstant operand).toOption.getD "")
  | .method => nameText (m.methodName operand)
  | .target => s!"L{operand}"
  | .local | .count | .none => toString operand

def instructionText (m : Module) (i : Instruction) : String :=
  match i.operand? with
  | none => i.opcode.mnemonic
  | some operand => i.opcode.mnemonic ++ " " ++ m.operandText i.opcode.kind operand

/-! ## The trace of a module -/

/-- A line and how far it is indented. -/
structure TraceLine where
  indent : Nat
  text : String
deriving DecidableEq

def Method.targets (m : Method) : List Nat :=
  sortedNats (m.code.toList.filterMap Instruction.target?)

/-- The instructions from `pc` on, each after its label if something branches to it. -/
def codeLines (m : Module) (targets : List Nat) (pc : Nat) : List Instruction → List TraceLine
  | [] => []
  | i :: rest =>
    (if targets.contains pc then [⟨1, s!"L{pc}:"⟩] else []) ++
      ⟨1, m.instructionText i⟩ :: m.codeLines targets (pc + 1) rest

def methodHead (m : Module) (index : Nat) (method : Method) : String :=
  s!".method {nameText (m.methodName index)} params={method.params} " ++
    s!"locals={method.locals}"

/-- Targets past the end of the code get their labels after the last instruction. -/
def bodyLines (m : Module) (method : Method) : List TraceLine :=
  let targets := Method.targets method
  m.codeLines targets 0 method.code.toList ++
    (targets.filter (method.code.size ≤ ·)).map (fun target => ⟨1, s!"L{target}:"⟩)

def methodLines (m : Module) (index : Nat) (method : Method) : List TraceLine :=
  ⟨0, m.methodHead index method⟩ :: m.bodyLines method ++ [⟨0, ".end"⟩]

def definitionLine (m : Module) (d : Definition) : TraceLine :=
  let name := nameText ((m.stringConstant d.name).toOption.getD "")
  match d.binding with
  | .slot none => ⟨0, s!".slot {name} undefined"⟩
  | .slot (some index) =>
    match m.constants[index]? with
    | some c => ⟨0, s!".slot {name} {c.slotText}"⟩
    | none => ⟨0, s!".slot {name} undefined"⟩
  | .method index => ⟨0, s!".function {name} {nameText (m.methodName index)}"⟩

def headerLine (m : Module) : TraceLine :=
  ⟨0, s!"; abc {m.label} version={m.majorVersion}.{m.minorVersion} " ++
    s!"constants={m.constants.size} methods={m.methods.size} definitions={m.definitions.length}"⟩

def initLine (m : Module) : TraceLine :=
  ⟨0, s!".init {nameText (m.methodName m.init)}"⟩

def trace (m : Module) : List TraceLine :=
  m.headerLine ::
    (m.methods.toList.zipIdx.flatMap fun (method, index) => m.methodLines index method) ++
    m.definitions.map m.definitionLine ++
    [m.initLine]

/-- The trace as one text, each level indented by two blanks. -/
def disassemble (m : Module) : String :=
  String.join (m.trace.map fun line =>
    String.ofList (List.replicate (2 * line.indent) ' ') ++ line.text ++ "\n")

/-! ## The trace on a writer -/

def writeMethod (m : Module) (w : Writer) (c : Console) (index : Nat) (method : Method) : Console :=
  let c := (c.writeLine (m.methodHead index method) w).indent w
  let c := (m.bodyLines method).foldl (fun c line => c.writeLine line.text w) c
  (c.outdent w).writeLine ".end" w

/-- Writes the trace. The writer is indented inside of a method. -/
def write (m : Module) (c : Console) (w : Writer := Console.root) : Console :=
  let c := c.writeLine m.headerLine.text w
  let c := m.methods.toList.zipIdx.foldl (fun c (method, index) => m.writeMethod w c index method) c
  let c := m.definitions.foldl (fun c d => c.writeLine (m.definitionLine d).text w) c
  c.writeLine m.initLine.text w

end Module

end MovieVm.Bytecode
