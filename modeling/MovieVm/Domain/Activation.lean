import MovieVm.Bytecode.Module
import MovieVm.Value.Operators
import MovieVm.VmError

/-!
# Activations

The state of one running method, and what each instruction does to it. An instruction that needs more
than the method itself leaves a request.
-/

namespace MovieVm

open Bytecode

/-- The top of the operand stack comes first; `next` is the instruction to be fetched. -/
structure Activation where
  module : Module
  function : FunctionRef
  method : Method
  locals : Array Value
  stack : List Value := []
  next : Nat := 0

/-- The value of a constant. -/
def Bytecode.Constant.value : Constant → Value
  | .int n => .int n
  | .double x => .double x
  | .string s => .string s

namespace Activation

def internalError (message : String) : VmError :=
  { kind := .internalError, message }

def underflow : VmError :=
  internalError "operand stack underflow"

def localOutOfRange (slot : Nat) : VmError :=
  internalError s!"local {slot} out of range"

/-! ## Entering a method -/

/-- Missing arguments are undefined, and those beyond the parameters are dropped. -/
def initialLocals (m : Method) (args : List Value) : Array Value :=
  let given := (args.take m.params).take m.locals
  (given ++ List.replicate (m.locals - given.length) Value.undefined).toArray

def enter (module : Module) (function : FunctionRef) (args : List Value) :
    Except VmError Activation :=
  match module.method function.method with
  | .error e => .error (internalError e.message)
  | .ok method =>
    if maxLocals < method.locals then
      .error {
        kind := .rangeError
        message := s!"{method.locals} locals exceed the limit of {maxLocals}" }
    else .ok { module, function, method, locals := initialLocals method args }

def methodName (a : Activation) : String :=
  a.module.methodName a.function.method

/-- Where the activation is: the instruction that was fetched last. -/
def frame (a : Activation) : StackFrame :=
  ⟨a.methodName, a.module.label, a.next - 1⟩

/-- A computation on an activation, which a failure leaves where it stopped. -/
abbrev Execution := EStateM VmError Activation

/-- The next instruction, which is then counted as fetched; none past the end of the code. -/
def fetch : Execution (Option Instruction) := do
  let a ← get
  match a.method.code[a.next]? with
  | some i =>
    set { a with next := a.next + 1 }
    return some i
  | none => return none

def jumpTo (target : Nat) : Execution Unit :=
  modify fun a => { a with next := target }

/-! ## Operands and locals -/

def push (v : Value) : Execution Unit :=
  modify fun a => { a with stack := v :: a.stack }

def pop : Execution Value := do
  let a ← get
  match a.stack with
  | v :: rest =>
    set { a with stack := rest }
    return v
  | [] => throw underflow

/-- The second value and the top. -/
def pop2 : Execution (Value × Value) := do
  let top ← pop
  let second ← pop
  return (second, top)

def getLocal (slot : Nat) : Execution Value := do
  match (← get).locals[slot]? with
  | some v => return v
  | none => throw (localOutOfRange slot)

def setLocal (slot : Nat) (v : Value) : Execution Unit := do
  let a ← get
  if slot < a.locals.size then set { a with locals := a.locals.setIfInBounds slot v }
  else throw (localOutOfRange slot)

/-- The topmost values, the deepest of them first. -/
def popArguments (count : Nat) : Execution (List Value) := do
  let a ← get
  if a.stack.length < count then throw underflow
  set { a with stack := a.stack.drop count }
  return (a.stack.take count).reverse

/-! ## Instructions -/

/-- What an instruction asks for. -/
inductive Request where
  | proceed
  | readGlobal (name : String)
  | writeGlobal (name : String) (v : Value)
  | call (callee : Value) (args : List Value)
  | finish (result : Value)

def constant (index : Nat) : Execution Value := do
  match (← get).module.constant index with
  | .ok c => return c.value
  | .error e => throw (internalError e.message)

def name (index : Nat) : Execution String := do
  match (← get).module.stringConstant index with
  | .ok s => return s
  | .error e => throw (internalError e.message)

def produce (v : Value) : Execution Request := do
  push v
  return .proceed

def unary (f : Value → Value) : Execution Request := do
  produce (f (← pop))

def binary (f : Value → Value → Value) : Execution Request := do
  let (second, top) ← pop2
  produce (f second top)

def relation (f : Value → Value → Bool) : Execution Request :=
  binary fun second top => .boolean (f second top)

/-- Jumps when the value on top has the given truth. -/
def branch (truth : Bool) (target : Nat) : Execution Request := do
  if (← pop).isTruthy = truth then jumpTo target
  return .proceed

def execute : Instruction → Execution Request
  | .pushUndefined => produce .undefined
  | .pushNull => produce .null
  | .pushTrue => produce (.boolean true)
  | .pushFalse => produce (.boolean false)
  | .pushInt index | .pushDouble index | .pushString index => do
    produce (← constant index)
  | .pop => do
    let _ ← pop
    return .proceed
  | .dup => do
    let v ← pop
    push v
    produce v
  | .swap => do
    let (second, top) ← pop2
    push top
    produce second
  | .getGlobal index => do
    return .readGlobal (← name index)
  | .setGlobal index => do
    let name ← name index
    return .writeGlobal name (← pop)
  | .getLocal slot => do
    produce (← getLocal slot)
  | .setLocal slot => do
    setLocal slot (← pop)
    return .proceed
  | .add => binary Value.add
  | .subtract => binary Value.subtract
  | .multiply => binary Value.multiply
  | .divide => binary Value.divide
  | .modulo => binary Value.modulo
  | .negate => unary Value.negate
  | .equals => relation Value.looseEquals
  | .strictEquals => relation Value.strictEquals
  | .lessThan => relation Value.lessThan
  | .lessEquals => relation Value.lessEquals
  | .greaterThan => relation Value.greaterThan
  | .greaterEquals => relation Value.greaterEquals
  | .not => unary fun v => .boolean (!v.isTruthy)
  | .typeOf => unary fun v => .string v.typeName
  | .jump target => do
    jumpTo target
    return .proceed
  | .ifTrue target => branch true target
  | .ifFalse target => branch false target
  | .newFunction method => do
    produce (.function ⟨(← get).function.module, method⟩)
  | .call count => do
    let args ← popArguments count
    return .call (← pop) args
  | .returnValue => do
    return .finish (← pop)
  | .returnVoid => return .finish .undefined
  | .throw => do
    throw { kind := .error, message := (← pop).text }

end Activation

end MovieVm
