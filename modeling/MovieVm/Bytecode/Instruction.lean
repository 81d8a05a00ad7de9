import MovieVm.Bytecode.Opcode

/-!
# Instructions

An instruction is an opcode with its operand: an index into a table of its module, a local slot, the
index of an instruction or a number of arguments.
-/

namespace MovieVm.Bytecode

inductive Instruction where
  | pushUndefined
  | pushNull
  | pushTrue
  | pushFalse
  | pushInt (constant : Nat)
  | pushDouble (constant : Nat)
  | pushString (constant : Nat)
  | pop
  | dup
  | swap
  | getGlobal (name : Nat)
  | setGlobal (name : Nat)
  | getLocal (slot : Nat)
  | setLocal (slot : Nat)
  | add
  | subtract
  | multiply
  | divide
  | modulo
  | negate
  | equals
  | strictEquals
  | lessThan
  | lessEquals
  | greaterThan
  | greaterEquals
  | not
  | typeOf
  | jump (target : Nat)
  | ifTrue (target : Nat)
  | ifFalse (target : Nat)
  | newFunction (method : Nat)
  | call (count : Nat)
  | returnValue
  | returnVoid
  | throw
deriving DecidableEq

/-- The instruction with this opcode; opcodes without an operand ignore it. -/
def Opcode.withOperand (n : Nat) : Opcode → Instruction
  | .throw => .throw
  | .jump => .jump n
  | .ifTrue => .ifTrue n
  | .ifFalse => .ifFalse n
  | .pushNull => .pushNull
  | .pushUndefined => .pushUndefined
  | .pushTrue => .pushTrue
  | .pushFalse => .pushFalse
  | .pop => .pop
  | .dup => .dup
  | .swap => .swap
  | .pushString => .pushString n
  | .pushInt => .pushInt n
  | .pushDouble => .pushDouble n
  | .newFunction => .newFunction n
  | .call => .call n
  | .returnVoid => .returnVoid
  | .returnValue => .returnValue
  | .getGlobal => .getGlobal n
  | .setGlobal => .setGlobal n
  | .getLocal => .getLocal n
  | .setLocal => .setLocal n
  | .negate => .negate
  | .typeOf => .typeOf
  | .not => .not
  | .add => .add
  | .subtract => .subtract
  | .multiply => .multiply
  | .divide => .divide
  | .modulo => .modulo
  | .equals => .equals
  | .strictEquals => .strictEquals
  | .lessThan => .lessThan
  | .lessEquals => .lessEquals
  | .greaterThan => .greaterThan
  | .greaterEquals => .greaterEquals

namespace Instruction

def opcode : Instruction → Opcode
  | pushUndefined => .pushUndefined
  | pushNull => .pushNull
  | pushTrue => .pushTrue
  | pushFalse => .pushFalse
  | pushInt _ => .pushInt
  | pushDouble _ => .pushDouble
  | pushString _ => .pushString
  | pop => .pop
  | dup => .dup
  | swap => .swap
  | getGlobal _ => .getGlobal
  | setGlobal _ => .setGlobal
  | getLocal _ => .getLocal
  | setLocal _ => .setLocal
  | add => .add
  | subtract => .subtract
  | multiply => .multiply
  | divide => .divide
  | modulo => .modulo
  | negate => .negate
  | equals => .equals
  | strictEquals => .strictEquals
  | lessThan => .lessThan
  | lessEquals => .lessEquals
  | greaterThan => .greaterThan
  | greaterEquals => .greaterEquals
  | not => .not
  | typeOf => .typeOf
  | jump _ => .jump
  | ifTrue _ => .ifTrue
  | ifFalse _ => .ifFalse
  | newFunction _ => .newFunction
  | call _ => .call
  | returnValue => .returnValue
  | returnVoid => .returnVoid
  | throw => .throw

def operand? : Instruction → Option Nat
  | pushInt n | pushDouble n | pushString n | getGlobal n | setGlobal n | getLocal n | setLocal n
  | jump n | ifTrue n | ifFalse n | newFunction n | call n => some n
  | _ => none

/-- The instruction this one may branch to. -/
def target? : Instruction → Option Nat
  | jump n | ifTrue n | ifFalse n => some n
  | _ => none

/-- The local slot that is read or written. -/
def local? : Instruction → Option Nat
  | getLocal n | setLocal n => some n
  | _ => none

@[simp]
theorem opcode_withOperand (o : Opcode) (n : Nat) : (o.withOperand n).opcode = o := by
  cases o <;> rfl

@[simp]
theorem withOperand_opcode (i : Instruction) : i.opcode.withOperand (i.operand?.getD 0) = i := by
  cases i <;> rfl

/-- Exactly the opcodes of kind `none` carry no operand. -/
theorem operand?_isNone (i : Instruction) : i.operand?.isNone = (i.opcode.kind = .none) := by
  cases i <;> simp [operand?, opcode, Opcode.kind, Opcode.info]

/-! ## Effect on the operand stack -/

/-- How many operands are taken from the stack. -/
def pops : Instruction → Nat
  | pushUndefined | pushNull | pushTrue | pushFalse | pushInt _ | pushDouble _ | pushString _
  | getGlobal _ | getLocal _ | newFunction _ | jump _ | returnVoid => 0
  | pop | setGlobal _ | setLocal _ | ifTrue _ | ifFalse _ | returnValue | throw | dup
  | negate | not | typeOf => 1
  | swap | add | subtract | multiply | divide | modulo | equals | strictEquals | lessThan
  | lessEquals | greaterThan | greaterEquals => 2
  | call count => count + 1

/-- How many results are left on the stack. -/
def pushes : Instruction → Nat
  | pushUndefined | pushNull | pushTrue | pushFalse | pushInt _ | pushDouble _ | pushString _
  | getGlobal _ | getLocal _ | newFunction _ => 1
  | pop | setGlobal _ | setLocal _ | ifTrue _ | ifFalse _ | returnValue | throw | jump _
  | returnVoid => 0
  | dup | swap => 2
  | negate | not | typeOf | add | subtract | multiply | divide | modulo | equals | strictEquals
  | lessThan | lessEquals | greaterThan | greaterEquals | call _ => 1

/-- The depth of the stack that an instruction leaves. -/
def depthAfter (i : Instruction) (depth : Nat) : Nat :=
  depth - i.pops + i.pushes

/-- The instructions that may follow the one at `pc`, a branch target last. -/
def successors (pc : Nat) : Instruction → List Nat
  | jump target => [target]
  | ifTrue target | ifFalse target => [pc + 1, target]
  | returnValue | returnVoid | throw => []
  | _ => [pc + 1]

theorem length_successors (pc : Nat) (i : Instruction) : (i.successors pc).length ≤ 2 := by
  unfold successors
  split <;> simp

end Instruction

end MovieVm.Bytecode
