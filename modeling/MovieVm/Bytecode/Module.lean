import MovieVm.Bytecode.Instruction
import MovieVm.Double.Basic
import MovieVm.Sorted
import MovieVm.Text.Hex

/-!
# Modules

A module is the unit of executable code: a pool of constants, a table of methods, the definitions that
it binds when it is loaded, and the index of its initializer.
-/

namespace MovieVm.Bytecode

inductive ConstantKind where
  | int
  | double
  | string
deriving DecidableEq

def ConstantKind.name : ConstantKind → String
  | int => "int"
  | double => "double"
  | string => "string"

inductive Constant where
  | int (n : Int32)
  | double (x : Double)
  | string (s : String)
deriving DecidableEq

def Constant.kind : Constant → ConstantKind
  | int _ => .int
  | double _ => .double
  | string _ => .string

/-- A method body; its name is the index of a string constant. -/
structure Method where
  name : Nat
  params : Nat
  locals : Nat
  code : Array Instruction
deriving DecidableEq

/-- What a definition binds: a slot with a constant or undefined, or a method. -/
inductive Binding where
  | slot (constant : Option Nat)
  | method (index : Nat)
deriving DecidableEq

structure Definition where
  name : Nat
  binding : Binding
deriving DecidableEq

structure Module where
  label : String
  minorVersion : UInt16
  majorVersion : UInt16
  constants : Array Constant
  methods : Array Method
  definitions : List Definition
  init : Nat
deriving DecidableEq

def supportedMinor : UInt16 := 16
def supportedMajor : UInt16 := 46

/-- The most local slots that a method may declare. -/
def maxLocals : Nat := 65535

/-! ## Errors -/

/-- Why bytes are no module, or an index of a module stands for nothing. -/
inductive ModuleError where
  | truncated (offset : Nat)
  | unsupportedVersion (major minor : UInt16)
  | invalidU30 (offset : Nat)
  | invalidUtf8 (offset : Nat)
  | unknownConstantKind (kind : UInt8)
  | constantOutOfRange (index : Nat)
  | constantKind (index : Nat) (expected : ConstantKind)
  | methodOutOfRange (index : Nat)
  | unknownOpcode (byte : UInt8) (offset : Nat)
  | tooManyLocals (method count : Nat)
  | unknownDefinitionKind (kind : UInt8)
  | trailingBytes (count : Nat)
deriving DecidableEq

def ModuleError.message : ModuleError → String
  | truncated offset => s!"unexpected end of data at offset {offset}"
  | unsupportedVersion major minor => s!"unsupported version {major}.{minor}"
  | invalidU30 offset => s!"invalid u30 at offset {offset}"
  | invalidUtf8 offset => s!"invalid UTF-8 string at offset {offset}"
  | unknownConstantKind kind => s!"unknown constant kind {kind}"
  | constantOutOfRange index => s!"constant index {index} out of range"
  | constantKind index expected => s!"constant {index} is not a {expected.name}"
  | methodOutOfRange index => s!"method index {index} out of range"
  | unknownOpcode byte offset => s!"unknown opcode 0x{Text.hexByte byte} at offset {offset}"
  | tooManyLocals method count => s!"method {method} declares {count} locals, more than {maxLocals}"
  | unknownDefinitionKind kind => s!"unknown definition kind {kind}"
  | trailingBytes count => s!"{count} trailing bytes after module"

namespace Module

/-! ## Look-ups -/

def constant (m : Module) (index : Nat) : Except ModuleError Constant :=
  match m.constants[index]? with
  | some c => .ok c
  | none => .error (.constantOutOfRange index)

def stringConstant (m : Module) (index : Nat) : Except ModuleError String :=
  match m.constants[index]? with
  | some (.string s) => .ok s
  | some _ => .error (.constantKind index .string)
  | none => .error (.constantOutOfRange index)

def method (m : Module) (index : Nat) : Except ModuleError Method :=
  match m.methods[index]? with
  | some method => .ok method
  | none => .error (.methodOutOfRange index)

/-- The name of a method, empty when the module has none at the index. -/
def methodName (m : Module) (index : Nat) : String :=
  match m.methods[index]? with
  | some method => (m.stringConstant method.name).toOption.getD ""
  | none => ""

def definitionNames (m : Module) : List String :=
  m.definitions.filterMap fun d => (m.stringConstant d.name).toOption

def globalNames (m : Module) (method : Method) : List String :=
  method.code.toList.filterMap fun
    | .getGlobal name | .setGlobal name => (m.stringConstant name).toOption
    | _ => none

/-- What the module defines or refers to by name, sorted and without repetition. -/
def symbolNames (m : Module) : List String :=
  let methodNames := m.methods.toList.flatMap fun method =>
    (m.stringConstant method.name).toOption.toList ++ m.globalNames method
  sortedStrings (m.definitionNames ++ methodNames)

/-! ## References -/

def checkConstant (m : Module) (index : Nat) (expected : ConstantKind) : Except ModuleError Unit :=
  match m.constants[index]? with
  | some c => if c.kind = expected then .ok () else .error (.constantKind index expected)
  | none => .error (.constantOutOfRange index)

def checkMethod (m : Module) (index : Nat) : Except ModuleError Unit :=
  if index < m.methods.size then .ok () else .error (.methodOutOfRange index)

def checkInstruction (m : Module) : Instruction → Except ModuleError Unit
  | .pushInt i => m.checkConstant i .int
  | .pushDouble i => m.checkConstant i .double
  | .pushString i | .getGlobal i | .setGlobal i => m.checkConstant i .string
  | .newFunction i => m.checkMethod i
  | _ => .ok ()

def checkBinding (m : Module) : Binding → Except ModuleError Unit
  | .slot (some i) => if i < m.constants.size then .ok () else .error (.constantOutOfRange i)
  | .slot none => .ok ()
  | .method i => m.checkMethod i

/-- Every index that the module holds stands for something of the right kind. -/
def checkReferences (m : Module) : Except ModuleError Unit := do
  m.checkMethod m.init
  m.methods.toList.forM fun method => do
    m.checkConstant method.name .string
    method.code.toList.forM m.checkInstruction
  m.definitions.forM fun d => do
    m.checkConstant d.name .string
    m.checkBinding d.binding

end Module

end MovieVm.Bytecode
