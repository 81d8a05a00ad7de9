import MovieVm.Bytecode.Assembly.Fault
import MovieVm.Bytecode.Assembly.Line
import MovieVm.Bytecode.Assembly.Pool
import MovieVm.Decimal.Reading

/-!
# Assembly

Builds a module from its text, line by line. Constants enter the pool in the order of their first use.
Labels and methods may be used before they are declared, so their uses are kept as drafts until the
whole text is read.
-/

namespace MovieVm.Bytecode

namespace Assembly

open Text

/-! ## Operands -/

def readString (text : List Char) : Except AssemblyFault String :=
  match Quoted.decode text with
  | .ok s => .ok (String.ofList s)
  | .error fault => .error (.ofQuoted text fault)

/-- A quoted text, or one without blanks. -/
def readName (text : List Char) : Except AssemblyFault String :=
  if text.head? = some '"' then readString text
  else if text.any isBlank then .error (.invalidName (String.ofList text))
  else .ok (String.ofList text)

def readIndex (text : List Char) : Except AssemblyFault Nat :=
  match Decimal.readNat? (0x40000000) text with
  | some n => .ok n
  | none => .error (.invalidIndex (String.ofList text))

def readCount (default : Nat) : Option (List Char) → Except AssemblyFault Nat
  | some text => readIndex text
  | none => .ok default

def readInt (text : List Char) : Except AssemblyFault Int32 :=
  match Decimal.readInt32? text with
  | some n => .ok n
  | none => .error (.invalidInt (String.ofList text))

def readDouble (text : List Char) : Except AssemblyFault Double :=
  match Decimal.readDouble? text with
  | some x => .ok x
  | none => .error (.invalidDouble (String.ofList text))

/-! ## Drafts -/

/-- An instruction, or one whose operand is declared elsewhere. -/
inductive Draft where
  | ready (instruction : Instruction)
  | branch (opcode : Opcode) (label : String) (line : Nat)
  | closure (method : String) (line : Nat)

structure MethodDraft where
  name : Nat
  params : Nat
  locals : Nat
  code : Array Draft := #[]
  labels : List (String × Nat) := []

inductive BindingDraft where
  | slot (constant : Option Nat)
  | method (name : String) (line : Nat)

structure DefinitionDraft where
  name : Nat
  binding : BindingDraft

/-- What has been read so far. The names of the methods stand in the order of their indices; the open
method is the last of them and is kept with its line. -/
structure State where
  pool : Pool := {}
  methods : Array MethodDraft := #[]
  methodNames : Array String := #[]
  definitions : Array DefinitionDraft := #[]
  init : Option (String × Nat) := none
  current : Option (MethodDraft × Nat) := none

namespace State

/-- The index of a constant, which enters the pool unless it is there. -/
def intern (s : State) (c : Constant) : Nat × State :=
  let (index, pool) := s.pool.intern c
  (index, { s with pool })

def methodIndex? (s : State) (name : String) : Option Nat :=
  s.methodNames.findIdx? (· = name)

/-! ## Lines inside a method -/

/-- The draft of an instruction with an operand. -/
def draft (s : State) (line : Nat) (opcode : Opcode) (text : List Char) :
    Except AssemblyFault (Draft × State) := do
  let interned (c : Constant) : Draft × State :=
    let (index, s) := s.intern c
    (.ready (opcode.withOperand index), s)
  match opcode.kind with
  | .intConstant => return interned (.int (← readInt text))
  | .doubleConstant => return interned (.double (← readDouble text))
  | .stringConstant => return interned (.string (← readString text))
  | .name => return interned (.string (← readName text))
  | .local | .count => return (.ready (opcode.withOperand (← readIndex text)), s)
  | .target =>
    match Decimal.readNat? (0x100000000) text with
    | some index => return (.ready (opcode.withOperand index), s)
    | none => return (.branch opcode (String.ofList text) line, s)
  | .method => return (.closure (← readName text) line, s)
  | .none => return (.ready (opcode.withOperand 0), s)

def addInstruction (s : State) (line : Nat) (mnemonic : List Char) (operand : Option (List Char)) :
    Except AssemblyFault (Draft × State) :=
  match Opcode.ofMnemonic? (String.ofList mnemonic) with
  | none => .error (.unknownMnemonic (String.ofList mnemonic))
  | some opcode =>
    match operand with
    | none =>
      if opcode.kind = .none then .ok (.ready (opcode.withOperand 0), s)
      else .error (.requiresOperand opcode.mnemonic)
    | some text =>
      if opcode.kind = .none then .error (.takesNoOperand opcode.mnemonic)
      else s.draft line opcode text

/-- A line inside the open method. -/
def addBodyLine (s : State) (line : Nat) (method : MethodDraft) (start : Nat) (text : List Char) :
    Except AssemblyFault State :=
  if text = ".end".toList then
    .ok { s with methods := s.methods.push method, current := none }
  else if text.head? = some '.' then .error .directiveInMethod
  else match BodyLine.read? text with
    | none => .error (.unreadable (String.ofList text))
    | some (.label name) =>
      let name := String.ofList name
      if (method.labels.lookup name).isSome then .error (.duplicateLabel name)
      else .ok { s with
        current := some ({ method with labels := (name, method.code.size) :: method.labels }, start) }
    | some (.instruction mnemonic operand) => do
      let (draft, s) ← s.addInstruction line mnemonic operand
      return { s with current := some ({ method with code := method.code.push draft }, start) }

/-! ## Lines outside a method -/

def openMethod (s : State) (line : Nat) (name : List Char) (params locals : Option (List Char)) :
    Except AssemblyFault State := do
  let name ← readName name
  if s.methodNames.contains name then throw (.duplicateMethod name)
  let params ← readCount 0 params
  let locals ← readCount params locals
  if locals < params then throw (.localsBelowParams locals params)
  let (index, s) := s.intern (.string name)
  return { s with
    methodNames := s.methodNames.push name
    current := some ({ name := index, params, locals }, line) }

/-- The value of a slot; an undefined one has no text, every other kind has one. -/
def slotValue (s : State) : SlotKind → Option (List Char) →
    Except AssemblyFault (Option Nat × State)
  | .undefined, none => .ok (none, s)
  | .int, some text => do
    let (index, s) := s.intern (.int (← readInt text))
    return (some index, s)
  | .double, some text => do
    let (index, s) := s.intern (.double (← readDouble text))
    return (some index, s)
  | .string, some text => do
    let (index, s) := s.intern (.string (← readString text))
    return (some index, s)
  | kind, _ => .error (.malformedSlot kind.name)

def addDirective (s : State) (line : Nat) : Directive → Except AssemblyFault State
  | .method name params locals => s.openMethod line name params locals
  | .slot name kind value => do
    let (name, s) := s.intern (.string (← readName name))
    let (value, s) ← s.slotValue kind value
    return { s with definitions := s.definitions.push ⟨name, .slot value⟩ }
  | .function name method => do
    let name ← readName name
    let method ← readName method
    let (name, s) := s.intern (.string name)
    return { s with definitions := s.definitions.push ⟨name, .method method line⟩ }
  | .init method => do
    if s.init.isSome then throw .duplicateInit
    return { s with init := some (← readName method, line) }

def addLine (s : State) (line : Nat) (text : List Char) : Except AssemblyFault State :=
  let text := content text
  if text.isEmpty then .ok s
  else match s.current with
    | some (method, start) => s.addBodyLine line method start text
    | none =>
      match Directive.read? text with
      | some directive => s.addDirective line directive
      | none =>
        if text = ".end".toList then .error .endOutsideMethod
        else .error (.unexpected (String.ofList text))

/-! ## Resolution -/

def resolveMethod (s : State) (name : String) (line : Nat) : Except AssemblyError Nat :=
  match s.methodIndex? name with
  | some index => .ok index
  | none => .error ⟨line, .undefinedMethod name⟩

def resolve (s : State) (labels : List (String × Nat)) : Draft → Except AssemblyError Instruction
  | .ready instruction => .ok instruction
  | .branch opcode label line =>
    match labels.lookup label with
    | some target => .ok (opcode.withOperand target)
    | none => .error ⟨line, .undefinedLabel label⟩
  | .closure method line => (s.resolveMethod method line).map .newFunction

def resolveCode (s : State) (m : MethodDraft) : Except AssemblyError Method := do
  let code ← m.code.toList.mapM (s.resolve m.labels)
  return ⟨m.name, m.params, m.locals, code.toArray⟩

def resolveDefinition (s : State) (d : DefinitionDraft) : Except AssemblyError Definition :=
  match d.binding with
  | .slot value => .ok ⟨d.name, .slot value⟩
  | .method method line => (s.resolveMethod method line).map fun index => ⟨d.name, .method index⟩

/-- Initializer first, then the methods, then the definitions. -/
def finish (s : State) (label : String) (lastLine : Nat) : Except AssemblyError Module := do
  if let some (_, line) := s.current then throw ⟨line, .missingEnd⟩
  match s.init with
  | none => throw ⟨lastLine, .missingInit⟩
  | some (initName, initLine) =>
    let init ← s.resolveMethod initName initLine
    let methods ← s.methods.toList.mapM s.resolveCode
    let definitions ← s.definitions.toList.mapM s.resolveDefinition
    return {
      label
      minorVersion := supportedMinor
      majorVersion := supportedMajor
      constants := s.pool.constants
      methods := methods.toArray
      definitions, init }

/-- Adds lines counted from `line`. -/
def addLines (s : State) (line : Nat) : List (List Char) → Except AssemblyError State
  | [] => .ok s
  | text :: rest =>
    match s.addLine line text with
    | .ok s => s.addLines (line + 1) rest
    | .error fault => .error ⟨line, fault⟩

end State

end Assembly

/-- The module that a source text describes. -/
def Module.assemble (source : String) (label : String) : Except AssemblyError Module := do
  let lines := Text.lines source.toList
  let state ← ({} : Assembly.State).addLines 1 lines
  state.finish label lines.length

end MovieVm.Bytecode
