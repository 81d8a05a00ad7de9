import MovieVm.Bytecode.Primitive

/-!
# The binary form of a module

Version, constants, methods, definitions, initializer; each table starts with its size. Nothing may
follow the initializer, and every index must stand for something.
-/

namespace MovieVm.Bytecode

/-! ## Writing -/

namespace Encode

def constant : Constant → List UInt8
  | .int n => 1 :: s32 n
  | .double x => 2 :: d64 x
  | .string s => 3 :: string s

def instruction (i : Instruction) : List UInt8 :=
  i.opcode.byte :: (match i.operand? with | some n => varint n | none => [])

def method (m : Method) : List UInt8 :=
  varint m.name ++ varint m.params ++ varint m.locals ++ varint m.code.size ++
    m.code.toList.flatMap instruction

/-- A slot's constant is stored one higher; zero is undefined. -/
def binding : Binding → List UInt8
  | .slot none => 0 :: varint 0
  | .slot (some index) => 0 :: varint (index + 1)
  | .method index => 1 :: varint index

def definition (d : Definition) : List UInt8 :=
  varint d.name ++ binding d.binding

end Encode

def Module.encode (m : Module) : List UInt8 :=
  Encode.u16 m.minorVersion ++ Encode.u16 m.majorVersion ++
    Encode.varint m.constants.size ++ m.constants.toList.flatMap Encode.constant ++
    Encode.varint m.methods.size ++ m.methods.toList.flatMap Encode.method ++
    Encode.varint m.definitions.length ++ m.definitions.flatMap Encode.definition ++
    Encode.varint m.init

/-! ## Reading -/

namespace Decode

/-- `count` items, each told its place. -/
def repeated (item : Nat → Decoder α) (index : Nat) : (count : Nat) → Decoder (List α)
  | 0 => return []
  | count + 1 => do
    let first ← item index
    let rest ← repeated item (index + 1) count
    return first :: rest

/-- A table: its size, then its items. -/
def table (item : Nat → Decoder α) : Decoder (List α) := do
  repeated item 0 (← u30)

def constant : Decoder Constant := do
  let kind ← u8
  if kind = 1 then return .int (← s32)
  else if kind = 2 then return .double (← d64)
  else if kind = 3 then return .string (← string)
  else throw (.unknownConstantKind kind)

def instruction : Decoder Instruction := do
  let offset ← position
  let byte ← u8
  match Opcode.ofByte? byte with
  | none => throw (.unknownOpcode byte offset)
  | some opcode =>
    if opcode.kind = .none then return opcode.withOperand 0
    else return opcode.withOperand (← u30)

def method (index : Nat) : Decoder Method := do
  let name ← u30
  let params ← u30
  let locals ← u30
  if maxLocals < locals then throw (.tooManyLocals index locals)
  let code ← table fun _ => instruction
  return ⟨name, params, locals, code.toArray⟩

def definition : Decoder Definition := do
  let name ← u30
  let kind ← u8
  let payload ← u30
  if kind = 0 then return ⟨name, .slot (if payload = 0 then none else some (payload - 1))⟩
  else if kind = 1 then return ⟨name, .method payload⟩
  else throw (.unknownDefinitionKind kind)

def module (label : String) : Decoder Module := do
  let minorVersion ← u16
  let majorVersion ← u16
  if majorVersion ≠ supportedMajor then throw (.unsupportedVersion majorVersion minorVersion)
  let constants ← table fun _ => constant
  let methods ← table method
  let definitions ← table fun _ => definition
  let init ← u30
  let source ← get
  if !source.rest.isEmpty then throw (.trailingBytes source.remaining)
  return {
    label, minorVersion, majorVersion
    constants := constants.toArray
    methods := methods.toArray
    definitions, init }

end Decode

/-- The module that the bytes encode, once all its references are known to stand for something. -/
def Module.decode (bytes : List UInt8) (label : String) : Except ModuleError Module :=
  match Decode.module label (Source.ofBytes bytes) with
  | .ok m _ => do
    m.checkReferences
    return m
  | .error e _ => .error e

end MovieVm.Bytecode
