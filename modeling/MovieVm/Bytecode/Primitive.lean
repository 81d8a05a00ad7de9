import MovieVm.Bytecode.Module
import MovieVm.Source
import MovieVm.Text.Utf8

/-!
# Primitive encodings

Fixed-width fields are little-endian. Other integers have seven value bits a byte, the lowest first, and
the high bit says that another byte follows; five bytes at most.
-/

namespace MovieVm.Bytecode

/-! ## Writing -/

namespace Encode

def u16 (n : UInt16) : List UInt8 :=
  littleEndian 2 n.toNat

def d64 (x : Double) : List UInt8 :=
  littleEndian 8 x.bits.toNat

def varint (n : Nat) : List UInt8 :=
  if n < 128 then [UInt8.ofNat n]
  else UInt8.ofNat (n % 128 + 128) :: varint (n / 128)
termination_by n

def s32 (n : Int32) : List UInt8 :=
  varint n.toUInt32.toNat

def string (s : String) : List UInt8 :=
  varint s.utf8ByteSize ++ Text.toUtf8 s

end Encode

/-! ## Reading -/

/-- A decoder leaves the source where it stopped, after a failure too. -/
abbrev Decoder := EStateM ModuleError Source

namespace Decode

def position : Decoder Nat :=
  return (← get).position

/-- The next `n` bytes. When there are fewer, all of them are used up. -/
def bytes (n : Nat) : Decoder (List UInt8) := do
  let source ← get
  let after := source.skip n
  set after
  if source.position + n ≠ after.position then throw (.truncated after.position)
  return source.rest.take n

def u8 : Decoder UInt8 := do
  let source ← get
  match source.rest with
  | [] => throw (.truncated source.position)
  | b :: rest =>
    set (Source.mk (source.position + 1) rest)
    return b

def u16 : Decoder UInt16 :=
  return UInt16.ofNat (ofLittleEndian (← bytes 2))

def d64 : Decoder Double :=
  return ⟨UInt64.ofNat (ofLittleEndian (← bytes 8))⟩

/-- Reads up to `left` more bytes of an integer; the next one begins at the bit `shift`. -/
def varintFrom : (left shift value : Nat) → Decoder Nat
  | 0, _, _ => do throw (.invalidU30 (← position))
  | left + 1, shift, value => do
    let b ← u8
    let value := value + (b.toNat % 128) <<< shift
    if b < 128 then return value else varintFrom left (shift + 7) value

/-- Bits above the lowest thirty-two are lost. -/
def u32 : Decoder Nat :=
  return (← varintFrom 5 0 0) % 0x100000000

def u30 : Decoder Nat := do
  let start ← position
  let n ← u32
  if 0x40000000 ≤ n then throw (.invalidU30 start)
  return n

def s32 : Decoder Int32 :=
  return (UInt32.ofNat (← u32)).toInt32

/-- The next `length` bytes, read as UTF-8. On failure all of them are still to be read. -/
def text (length : Nat) : Decoder String := do
  let source ← get
  let taken := source.rest.take length
  if taken.length < length then throw (.truncated (source.position + taken.length))
  match Text.ofUtf8? taken with
  | none => throw (.invalidUtf8 source.position)
  | some s =>
    set (Source.mk (source.position + length) (source.rest.drop length))
    return s

/-- A length and as many bytes of UTF-8. -/
def string : Decoder String := do
  text (← u30)

end Decode

end MovieVm.Bytecode
