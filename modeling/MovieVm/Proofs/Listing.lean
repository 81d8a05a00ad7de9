import Mathlib.Data.List.Forall2
import MovieVm.Bytecode.Assembly.Basic

/-!
# What a source text says

A source text lists methods, definitions and the name of the initializer. What its lines say is read off line by line,
without the tables in which the assembler collects constants, methods and labels: so it can be said of an assembled
module that it is what the text says.
-/

namespace MovieVm.Bytecode.Assembly

open Text

/-! ## Operands -/

/-- What the operand of an instruction says, for each kind that an opcode may ask for. A branch says where to go by a
number or by a label. -/
inductive Operand : OperandKind → Type where
  | none : Operand .none
  | int (n : Int32) : Operand .intConstant
  | double (x : Double) : Operand .doubleConstant
  | string (s : String) : Operand .stringConstant
  | name (s : String) : Operand .name
  | slot (n : Nat) : Operand .local
  | count (n : Nat) : Operand .count
  | place (n : Nat) : Operand .target
  | label (name : String) : Operand .target
  | method (name : String) : Operand .method

namespace Operand

variable {kind : OperandKind}

/-- The constant that an operand uses. -/
def constant? : Operand kind → Option Constant
  | .int n => some (.int n)
  | .double x => some (.double x)
  | .string s | .name s => some (.string s)
  | _ => Option.none

def read? : (kind : OperandKind) → Option (List Char) → Option (Operand kind)
  | .none, Option.none => some .none
  | .intConstant, some text => (readInt text).toOption.map .int
  | .doubleConstant, some text => (readDouble text).toOption.map .double
  | .stringConstant, some text => (readString text).toOption.map .string
  | .name, some text => (readName text).toOption.map .name
  | .local, some text => (readIndex text).toOption.map .slot
  | .count, some text => (readIndex text).toOption.map .count
  | .target, some text =>
    match Decimal.readNat? (0x100000000) text with
    | some n => some (.place n)
    | Option.none => some (.label (String.ofList text))
  | .method, some text => (readName text).toOption.map .method
  | _, _ => Option.none

/-- What the number of an instruction stands for, among the constants of a module, the names of its methods and the
places of the labels in a method. -/
def Means (constants : Array Constant) (names : List String) (places : String → Nat → Prop) :
    Operand kind → Nat → Prop
  | .none, n => n = 0
  | .int i, n => constants[n]? = some (.int i)
  | .double x, n => constants[n]? = some (.double x)
  | .string s, n | .name s, n => constants[n]? = some (.string s)
  | .slot k, n | .count k, n | .place k, n => n = k
  | .label l, n => places l n
  | .method m, n => names[n]? = some m

end Operand

/-! ## Methods and definitions -/

structure InstructionSource where
  opcode : Opcode
  operand : Operand opcode.kind

/-- A line of a method. -/
inductive Entry where
  | label (name : String)
  | instruction (source : InstructionSource)

def Entry.instruction? : Entry → Option InstructionSource
  | .label _ => none
  | .instruction i => some i

def Entry.label? : Entry → Option String
  | .label name => some name
  | .instruction _ => none

/-- The instructions among the lines of a method. -/
def instructions (body : List Entry) : List InstructionSource :=
  body.filterMap Entry.instruction?

def labels (body : List Entry) : List String :=
  body.filterMap Entry.label?

/-- The line of a label stands in the body of a method, behind so many instructions. -/
def StandsAt (body : List Entry) (label : String) (place : Nat) : Prop :=
  ∃ before after, body = before ++ .label label :: after ∧ place = (instructions before).length

/-- The first line of a method. -/
structure Heading where
  name : String
  params : Nat
  locals : Nat

structure MethodSource extends Heading where
  body : List Entry

inductive BindingSource where
  | slot (value : Option Constant)
  | method (name : String)

structure DefinitionSource where
  name : String
  binding : BindingSource

/-! ## Lines -/

/-- What a line says. -/
inductive Statement where
  | opening (heading : Heading)
  | entry (e : Entry)
  | closing
  | definition (d : DefinitionSource)
  | init (method : String)

def BindingSource.constant? : BindingSource → Option Constant
  | .slot value => value
  | .method _ => none

/-- The constants that a line uses, from left to right. -/
def Statement.uses : Statement → List Constant
  | .opening heading => [.string heading.name]
  | .entry (.instruction i) => i.operand.constant?.toList
  | .definition d => .string d.name :: d.binding.constant?.toList
  | .entry (.label _) | .closing | .init _ => []

def Entry.ofLine? : BodyLine → Option Entry
  | .label name => some (.label (String.ofList name))
  | .instruction mnemonic operand =>
    (Opcode.ofMnemonic? (String.ofList mnemonic)).bind fun opcode =>
      (Operand.read? opcode.kind operand).map fun operand => .instruction ⟨opcode, operand⟩

/-- The value of a slot; an undefined one has no text, every other kind has one. -/
def readValue? : SlotKind → Option (List Char) → Option (Option Constant)
  | .undefined, none => some none
  | .int, some text => (readInt text).toOption.map fun n => some (.int n)
  | .double, some text => (readDouble text).toOption.map fun x => some (.double x)
  | .string, some text => (readString text).toOption.map fun s => some (.string s)
  | _, _ => none

def Statement.ofDirective? : Directive → Option Statement
  | .method name params locals => do
    let name ← (readName name).toOption
    let params ← (readCount 0 params).toOption
    let locals ← (readCount params locals).toOption
    return .opening ⟨name, params, locals⟩
  | .slot name kind value => do
    let name ← (readName name).toOption
    return .definition ⟨name, .slot (← readValue? kind value)⟩
  | .function name method => do
    let name ← (readName name).toOption
    return .definition ⟨name, .method (← (readName method).toOption)⟩
  | .init method => (readName method).toOption.map .init

/-- All lines that are no directives are lines of a method. -/
def Statement.read? (text : List Char) : Option Statement :=
  if text = ".end".toList then some .closing
  else match Directive.read? text with
    | some directive => ofDirective? directive
    | none => ((BodyLine.read? text).bind Entry.ofLine?).map .entry

/-- The lines that are not empty once their comments are gone. -/
def contents (lines : List (List Char)) : List (List Char) :=
  (lines.map content).filter fun text => !text.isEmpty

/-- Every line can be read, and they say these statements. -/
def Say (lines : List (List Char)) (statements : List Statement) : Prop :=
  (contents lines).map Statement.read? = statements.map some

/-! ## Listings -/

inductive Declaration where
  | method (source : MethodSource)
  | definition (d : DefinitionSource)
  | init (method : String)

/-- The lines of a declaration; a method goes from its first line to its end. -/
def Declaration.statements : Declaration → List Statement
  | .method source => .opening source.toHeading :: (source.body.map .entry ++ [.closing])
  | .definition d => [.definition d]
  | .init name => [.init name]

@[simp]
def Declaration.method? : Declaration → Option MethodSource
  | .method source => some source
  | _ => none

@[simp]
def Declaration.definition? : Declaration → Option DefinitionSource
  | .definition d => some d
  | _ => none

@[simp]
def Declaration.init? : Declaration → Option String
  | .init name => some name
  | _ => none

abbrev Listing := List Declaration

namespace Listing

variable (listing : Listing)

def statements : List Statement :=
  listing.flatMap Declaration.statements

def methods : List MethodSource :=
  listing.filterMap Declaration.method?

def definitions : List DefinitionSource :=
  listing.filterMap Declaration.definition?

/-- The methods that are named as initializer. -/
def inits : List String :=
  listing.filterMap Declaration.init?

/-- The names of the methods, in the order in which they are declared. -/
def names : List String :=
  listing.methods.map (·.name)

/-- The constants that the text uses, from its start to its end. -/
def uses : List Constant :=
  listing.statements.flatMap Statement.uses

variable (d : Declaration)

theorem statements_concat : statements (listing ++ [d]) = listing.statements ++ d.statements := by
  simp [statements]

@[simp]
theorem methods_concat : methods (listing ++ [d]) = listing.methods ++ d.method?.toList := by
  cases d <;> simp [methods]

@[simp]
theorem definitions_concat : definitions (listing ++ [d]) = listing.definitions ++ d.definition?.toList := by
  cases d <;> simp [definitions]

@[simp]
theorem inits_concat : inits (listing ++ [d]) = listing.inits ++ d.init?.toList := by
  cases d <;> simp [inits]

end Listing

/-- The lines of the source text are those of the declarations, one declaration behind the other. -/
def Declares (source : String) (listing : Listing) : Prop :=
  Say (lines source.toList) listing.statements

/-- The lines of a method are told from what follows them. -/
theorem body_injective {body body' : List Entry} {rest rest' : List Statement}
    (h : body.map Statement.entry ++ .closing :: rest = body'.map Statement.entry ++ .closing :: rest') :
    body = body' ∧ rest = rest' := by
  induction body generalizing body' with
  | nil =>
    -- The line that closes the method is none of its own lines.
    cases body' with
    | nil => exact ⟨rfl, (List.cons.inj h).2⟩
    | cons e body' => cases (List.cons.inj h).1
  | cons e body ih =>
    cases body' with
    | nil => cases (List.cons.inj h).1
    | cons e' body' =>
      obtain ⟨hentry, hrest⟩ := List.cons.inj h
      obtain ⟨rfl, rfl⟩ := ih hrest
      obtain rfl := Statement.entry.inj hentry
      exact ⟨rfl, rfl⟩

/-- A declaration is told from what follows it. -/
theorem Declaration.statements_append_injective {d d' : Declaration} {rest rest' : List Statement}
    (h : d.statements ++ rest = d'.statements ++ rest') : d = d' ∧ rest = rest' := by
  cases d with
  | method source =>
    cases d' with
    | method source' =>
      simp only [statements, List.cons_append, List.append_assoc] at h
      obtain ⟨hopening, hbody⟩ := List.cons.inj h
      obtain ⟨hsame, rfl⟩ := body_injective hbody
      obtain ⟨heading, body⟩ := source
      obtain ⟨heading', body'⟩ := source'
      obtain rfl := Statement.opening.inj hopening
      obtain rfl : body = body' := hsame
      exact ⟨rfl, rfl⟩
    | definition d' => cases (List.cons.inj h).1
    | init name => cases (List.cons.inj h).1
  | definition d =>
    cases d' with
    | definition d' =>
      obtain ⟨hsame, rfl⟩ := List.cons.inj h
      exact ⟨congrArg Declaration.definition (Statement.definition.inj hsame), rfl⟩
    | method source => cases (List.cons.inj h).1
    | init name => cases (List.cons.inj h).1
  | init name =>
    cases d' with
    | init name' =>
      obtain ⟨hsame, rfl⟩ := List.cons.inj h
      exact ⟨congrArg Declaration.init (Statement.init.inj hsame), rfl⟩
    | method source => cases (List.cons.inj h).1
    | definition d => cases (List.cons.inj h).1

theorem Declaration.statements_ne_nil (d : Declaration) (rest : List Statement) : d.statements ++ rest ≠ [] := by
  cases d <;> exact List.cons_ne_nil _ _

theorem Listing.statements_injective {listing other : Listing} (h : listing.statements = other.statements) :
    listing = other := by
  induction listing generalizing other with
  | nil =>
    cases other with
    | nil => rfl
    | cons d other => exact absurd h.symm (d.statements_ne_nil _)
  | cons d listing ih =>
    cases other with
    | nil => exact absurd h (d.statements_ne_nil _)
    | cons d' other =>
      obtain ⟨rfl, hrest⟩ := Declaration.statements_append_injective h
      rw [ih hrest]

/-- A text has one listing at most. -/
theorem Declares.unique {source : String} {listing other : Listing} (h : Declares source listing)
    (hother : Declares source other) : other = listing := by
  have hsame : other.statements.map some = listing.statements.map some := hother.symm.trans h
  exact Listing.statements_injective (List.map_injective_iff.2 (fun _ _ => Option.some.inj) hsame)

/-! ## Modules -/

section Becomes

variable (constants : Array Constant) (names : List String)

/-- The instruction has the opcode that its line says, and a number that stands for the operand. -/
def InstructionSource.Becomes (places : String → Nat → Prop) (source : InstructionSource) (i : Instruction) : Prop :=
  ∃ n, i = source.opcode.withOperand n ∧ source.operand.Means constants names places n

/-- The method is what its lines say, and each branch to a label goes to the place of the label in the same method. -/
structure MethodSource.Becomes (source : MethodSource) (method : Method) : Prop where
  name : constants[method.name]? = some (.string source.name)
  params : method.params = source.params
  locals : method.locals = source.locals
  code : List.Forall₂ (InstructionSource.Becomes constants names (StandsAt source.body))
    (instructions source.body) method.code.toList

def BindingSource.Becomes : BindingSource → Binding → Prop
  | .slot none, b => b = .slot none
  | .slot (some c), b => ∃ n, b = .slot (some n) ∧ constants[n]? = some c
  | .method name, b => ∃ n, b = .method n ∧ names[n]? = some name

structure DefinitionSource.Becomes (source : DefinitionSource) (d : Definition) : Prop where
  name : constants[d.name]? = some (.string source.name)
  binding : source.binding.Becomes constants names d.binding

end Becomes

/-- The module is what the listing says: its tables follow the declarations in their order, and its constants are
those that the text uses, each where it is used first. -/
structure Listing.Becomes (listing : Listing) (m : Module) : Prop where
  version : m.majorVersion = supportedMajor ∧ m.minorVersion = supportedMinor
  constants : m.constants.toList = listing.uses.eraseDups
  methods : List.Forall₂ (MethodSource.Becomes m.constants listing.names) listing.methods m.methods.toList
  definitions : List.Forall₂ (DefinitionSource.Becomes m.constants listing.names) listing.definitions m.definitions
  init : ∃ name, listing.inits = [name] ∧ listing.names[m.init]? = some name

/-- What methods need to be assembled, apart from the names and labels that they use. -/
structure Sound (methods : List MethodSource) : Prop where
  names : (methods.map (·.name)).Nodup
  room : ∀ source ∈ methods, source.params ≤ source.locals
  labels : ∀ source ∈ methods, (labels source.body).Nodup

end MovieVm.Bytecode.Assembly
