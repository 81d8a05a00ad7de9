/-!
# Opcodes

The instruction set as one table: the byte, the mnemonic and the kind of operand of every opcode. The
binary format, the assembler and the disassembler all read it.
-/

namespace MovieVm.Bytecode

/-- What an operand stands for. -/
inductive OperandKind where
  | none
  | intConstant
  | doubleConstant
  | stringConstant
  | name
  | local
  | target
  | method
  | count
deriving DecidableEq

inductive Opcode where
  | throw
  | jump
  | ifTrue
  | ifFalse
  | pushNull
  | pushUndefined
  | pushTrue
  | pushFalse
  | pop
  | dup
  | swap
  | pushString
  | pushInt
  | pushDouble
  | newFunction
  | call
  | returnVoid
  | returnValue
  | getGlobal
  | setGlobal
  | getLocal
  | setLocal
  | negate
  | typeOf
  | not
  | add
  | subtract
  | multiply
  | divide
  | modulo
  | equals
  | strictEquals
  | lessThan
  | lessEquals
  | greaterThan
  | greaterEquals
deriving DecidableEq

namespace Opcode

structure Info where
  byte : UInt8
  mnemonic : String
  kind : OperandKind

def info : Opcode → Info
  | throw => ⟨0x03, "throw", .none⟩
  | jump => ⟨0x10, "jump", .target⟩
  | ifTrue => ⟨0x11, "iftrue", .target⟩
  | ifFalse => ⟨0x12, "iffalse", .target⟩
  | pushNull => ⟨0x20, "pushnull", .none⟩
  | pushUndefined => ⟨0x21, "pushundefined", .none⟩
  | pushTrue => ⟨0x26, "pushtrue", .none⟩
  | pushFalse => ⟨0x27, "pushfalse", .none⟩
  | pop => ⟨0x29, "pop", .none⟩
  | dup => ⟨0x2a, "dup", .none⟩
  | swap => ⟨0x2b, "swap", .none⟩
  | pushString => ⟨0x2c, "pushstring", .stringConstant⟩
  | pushInt => ⟨0x2d, "pushint", .intConstant⟩
  | pushDouble => ⟨0x2f, "pushdouble", .doubleConstant⟩
  | newFunction => ⟨0x40, "newfunction", .method⟩
  | call => ⟨0x41, "call", .count⟩
  | returnVoid => ⟨0x47, "returnvoid", .none⟩
  | returnValue => ⟨0x48, "returnvalue", .none⟩
  | getGlobal => ⟨0x60, "getglobal", .name⟩
  | setGlobal => ⟨0x61, "setglobal", .name⟩
  | getLocal => ⟨0x62, "getlocal", .local⟩
  | setLocal => ⟨0x63, "setlocal", .local⟩
  | negate => ⟨0x90, "negate", .none⟩
  | typeOf => ⟨0x95, "typeof", .none⟩
  | not => ⟨0x96, "not", .none⟩
  | add => ⟨0xa0, "add", .none⟩
  | subtract => ⟨0xa1, "subtract", .none⟩
  | multiply => ⟨0xa2, "multiply", .none⟩
  | divide => ⟨0xa3, "divide", .none⟩
  | modulo => ⟨0xa4, "modulo", .none⟩
  | equals => ⟨0xab, "equals", .none⟩
  | strictEquals => ⟨0xac, "strictequals", .none⟩
  | lessThan => ⟨0xad, "lessthan", .none⟩
  | lessEquals => ⟨0xae, "lessequals", .none⟩
  | greaterThan => ⟨0xaf, "greaterthan", .none⟩
  | greaterEquals => ⟨0xb0, "greaterequals", .none⟩

def byte (o : Opcode) : UInt8 := o.info.byte
def mnemonic (o : Opcode) : String := o.info.mnemonic
def kind (o : Opcode) : OperandKind := o.info.kind

/-- Every opcode, in the order of the bytes. -/
def all : List Opcode :=
  [throw, jump, ifTrue, ifFalse, pushNull, pushUndefined, pushTrue, pushFalse, pop, dup, swap,
    pushString, pushInt, pushDouble, newFunction, call, returnVoid, returnValue, getGlobal, setGlobal,
    getLocal, setLocal, negate, typeOf, not, add, subtract, multiply, divide, modulo, equals,
    strictEquals, lessThan, lessEquals, greaterThan, greaterEquals]

theorem mem_all (o : Opcode) : o ∈ all := by
  cases o <;> decide

def ofByte? (b : UInt8) : Option Opcode :=
  all.find? (·.byte = b)

def ofMnemonic? (s : String) : Option Opcode :=
  all.find? (·.mnemonic = s)

@[simp]
theorem ofByte?_byte (o : Opcode) : ofByte? o.byte = some o := by
  cases o <;> decide

theorem byte_of_ofByte? {b : UInt8} {o : Opcode} (h : ofByte? b = some o) : o.byte = b := by
  simpa using List.find?_some h

@[simp]
theorem ofMnemonic?_mnemonic (o : Opcode) : ofMnemonic? o.mnemonic = some o := by
  cases o <;> decide

/-- Whether control never passes on to the next instruction. -/
def isTerminator (o : Opcode) : Bool :=
  o = jump || o = returnValue || o = returnVoid || o = throw

end Opcode

end MovieVm.Bytecode
