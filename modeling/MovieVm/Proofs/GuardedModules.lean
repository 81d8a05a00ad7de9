import MovieVm.Bytecode.Codec
import MovieVm.Proofs.Guards

/-!
# Modules read under guard

The decoder of modules, with the places that it reads at and the room that it makes for its tables. No bytes
make it trap.
-/

namespace MovieVm.Bytecode.GuardedDecode

open Guarded

/-! ## Primitives -/

abbrev GuardedDecoder := Guarded ModuleError

/-- A field that is not all there uses up all bytes. -/
def bytes (n : Nat) : GuardedDecoder (List UInt8) :=
  exactly n do fail (.truncated (← finish))

def u8 : GuardedDecoder UInt8 := do
  let taken ← bytes 1
  guarded (Guard.index taken 0)

def u16 : GuardedDecoder UInt16 :=
  return UInt16.ofNat (ofLittleEndian (← bytes 2))

def d64 : GuardedDecoder Double :=
  return ⟨UInt64.ofNat (ofLittleEndian (← bytes 8))⟩

/-- Every group of bits is shifted within a word. -/
def varintFrom : (left shift value : Nat) → GuardedDecoder Nat
  | 0, _, _ => do fail (.invalidU30 (← offset))
  | left + 1, shift, value => do
    let b ← u8
    let distance ← guarded (Guard.shift 32 shift)
    let value := value + (b.toNat % 128) <<< distance
    if b < 128 then return value else varintFrom left (shift + 7) value

def u32 : GuardedDecoder Nat :=
  return (← varintFrom 5 0 0) % 0x100000000

def u30 : GuardedDecoder Nat := do
  let start ← offset
  let n ← u32
  if 0x40000000 ≤ n then fail (.invalidU30 start)
  return n

def s32 : GuardedDecoder Int32 :=
  return (UInt32.ofNat (← u32)).toInt32

/-- The bytes of a text are cut out once it is known that they are there. -/
def text (length : Nat) : GuardedDecoder String := do
  let c ← cursor
  if c.remaining < length then fail (.truncated (← finish))
  else
    let stop ← guarded (Guard.add c.position length)
    let taken ← guarded (Guard.slice c.data c.position stop)
    match Text.ofUtf8? taken with
    | none => fail (.invalidUtf8 (← offset))
    | some s =>
      seek stop
      return s

def string : GuardedDecoder String := do
  text (← u30)

/-! ## Tables -/

def repeated (item : Nat → GuardedDecoder α) (index : Nat) : (count : Nat) → GuardedDecoder (List α)
  | 0 => return []
  | count + 1 => do
    let first ← item index
    let rest ← repeated item (index + 1) count
    return first :: rest

/-- A table makes room for its items, but not for more than `limit` before they are read. -/
def table (limit : Nat) (item : Nat → GuardedDecoder α) : GuardedDecoder (List α) := do
  let count ← u30
  guarded (Guard.reserve (min count limit))
  repeated item 0 count

def constant : GuardedDecoder Constant := do
  let kind ← u8
  if kind = 1 then return .int (← s32)
  else if kind = 2 then return .double (← d64)
  else if kind = 3 then return .string (← string)
  else fail (.unknownConstantKind kind)

def instruction : GuardedDecoder Instruction := do
  let start ← offset
  let byte ← u8
  match Opcode.ofByte? byte with
  | none => fail (.unknownOpcode byte start)
  | some opcode =>
    if opcode.kind = .none then return opcode.withOperand 0
    else return opcode.withOperand (← u30)

def method (index : Nat) : GuardedDecoder Method := do
  let name ← u30
  let params ← u30
  let locals ← u30
  if maxLocals < locals then fail (.tooManyLocals index locals)
  let code ← table 65536 fun _ => instruction
  return ⟨name, params, locals, code.toArray⟩

def definition : GuardedDecoder Definition := do
  let name ← u30
  let kind ← u8
  let payload ← u30
  if kind = 0 then return ⟨name, .slot (Guard.sub payload 1)⟩
  else if kind = 1 then return ⟨name, .method payload⟩
  else fail (.unknownDefinitionKind kind)

def module (label : String) : GuardedDecoder Module := do
  let minorVersion ← u16
  let majorVersion ← u16
  if majorVersion ≠ supportedMajor then fail (.unsupportedVersion majorVersion minorVersion)
  let constants ← table 4096 fun _ => constant
  let methods ← table 4096 method
  let definitions ← table 4096 fun _ => definition
  let init ← u30
  let c ← cursor
  if 0 < c.remaining then fail (.trailingBytes c.remaining)
  return {
    label, minorVersion, majorVersion
    constants := constants.toArray
    methods := methods.toArray
    definitions, init }

/-- The module that the bytes encode; no result is a trap. -/
def decode (bytes : List UInt8) (label : String) : Option (Except ModuleError Module) :=
  (module label ⟨bytes, 0, 0⟩).map fun out => do
    let (m, _) ← out
    m.checkReferences
    return m

/-! ## No trap -/

theorem bytes_of_le {s : Source} {n : Nat} (h : n ≤ s.rest.length) :
    Decode.bytes n s = .ok (s.rest.take n) (s.skip n) := by
  change (if s.position + n ≠ (s.skip n).position then throw _ >>= _ else pure (s.rest.take n) :
    Decoder (List UInt8)) (s.skip n) = _
  rw [if_neg (not_not_intro (Source.skip_reaches.2 h))]
  rfl

theorem bytes_of_lt {s : Source} {n : Nat} (h : s.rest.length < n) :
    Decode.bytes n s = .error (.truncated (s.skip n).position) (s.skip n) := by
  change (if s.position + n ≠ (s.skip n).position then throw _ >>= _ else pure (s.rest.take n) :
    Decoder (List UInt8)) (s.skip n) = _
  rw [if_pos fun hreaches => Nat.not_le.2 h (Source.skip_reaches.1 hreaches)]
  rfl

theorem follows_bytes (n : Nat) : Follows (bytes n) (Decode.bytes n) := by
  refine .exactly (fun _ => bytes_of_le) fun c hc hshort => ?_
  rw [bytes_of_lt (by rwa [c.length_rest]), finish_bind hc, Cursor.source_skip_all hc (Nat.le_of_lt hshort)]
  exact .error _ _

theorem follows_u8 : Follows u8 Decode.u8 := by
  intro c hc
  rw [u8, bind_apply]
  -- The reader looks for a first byte, the guarded one for a field of one byte.
  cases hrest : c.source.rest with
  | nil =>
    have hread : Decode.u8 c.source = .error (.truncated c.source.position) c.source := by
      simp only [Decode.u8, EStateM.bind_apply, EStateM.get_apply, hrest, EStateM.throw_apply]
    have hend : c.remaining = 0 := by rw [← c.length_rest, hrest, List.length_nil]
    have hplace : c.base + c.data.length = c.source.position := by
      have hposition := hc.position
      simp only [Cursor.remaining] at hend
      simp only [Cursor.source]
      omega
    rw [hread, bytes, exactly_of_lt (hend ▸ Nat.one_pos), finish_bind hc, hplace]
    exact .error _ _
  | cons b rest =>
    have hread : Decode.u8 c.source = .ok b (c.source.skip 1) := by
      simp only [Decode.u8, EStateM.bind_apply, EStateM.get_apply, hrest, EStateM.set_apply, EStateM.pure_apply,
        Source.skip, List.take_succ_cons, List.take_zero, List.length_singleton, List.drop_succ_cons, List.drop_zero]
    have hlong : 1 ≤ c.remaining := by
      rw [← c.length_rest, hrest]
      exact Nat.succ_pos _
    rw [hread, bytes, exactly_of_le hc hlong, Cursor.source_skip hc hlong, hrest]
    exact .ok b (hc.position_add hlong)

theorem follows_u16 : Follows u16 Decode.u16 :=
  (follows_bytes 2).bind fun _ => .pure _

theorem follows_d64 : Follows d64 Decode.d64 :=
  (follows_bytes 8).bind fun _ => .pure _

theorem follows_offset : Follows offset Decode.position := by
  intro c hc
  rw [offset_apply hc]
  exact .ok _ hc.position

/-- Five groups of seven bits are never shifted further than a word is long. -/
theorem follows_varintFrom (left shift value : Nat) (h : shift + 7 * left ≤ 35) :
    Follows (varintFrom left shift value) (Decode.varintFrom left shift value) := by
  -- A group takes seven bits off `left` and puts them on `shift`, so the bound is kept.
  induction left generalizing shift value with
  | zero => exact follows_offset.bind fun _ => .fail _
  | succ left ih =>
    have hshift : Guard.shift 32 shift = some shift := Guard.shift_eq (by omega)
    exact follows_u8.bind fun b => .guarded_bind hshift (.ite (fun _ => .pure _) fun _ => ih _ _ (by omega))

theorem follows_u32 : Follows u32 Decode.u32 :=
  (follows_varintFrom 5 0 0 (by decide)).bind fun _ => .pure _

theorem follows_u30 : Follows u30 Decode.u30 :=
  follows_offset.bind fun _ => follows_u32.bind fun _ => .refuse (.pure _)

theorem follows_s32 : Follows s32 Decode.s32 :=
  follows_u32.bind fun _ => .pure _

theorem follows_text (length : Nat) : Follows (text length) (Decode.text length) := by
  refine .cursor_bind fun c hc => ?_
  -- The reader takes what there is and then looks how much it was.
  by_cases hlong : length ≤ c.remaining
  · have hroom := hc.room
    have hstop := hc.position_add hlong
    have hadd : Guard.add c.position length = some (c.position + length) := Guard.add_eq (by omega)
    have hslice : Guard.slice c.data c.position (c.position + length) = some (c.source.rest.take length) := by
      rw [Guard.slice_eq (by omega) hstop, Nat.add_sub_cancel_left, Cursor.source]
    have htaken : ¬(c.source.rest.take length).length < length := by
      rw [List.length_take_of_le (by rwa [c.length_rest])]
      exact Nat.lt_irrefl _
    have hmoved : Source.mk (c.source.position + length) (c.source.rest.drop length) =
        (c.seek (c.position + length)).source := by
      simp only [Cursor.source, Cursor.seek, List.drop_drop, Nat.add_assoc]
    rw [if_neg (Nat.not_lt.2 hlong), if_neg htaken, hadd]
    change Matches c _ ((guarded (Guard.slice c.data c.position (c.position + length)) >>= _) c)
    rw [hslice, hmoved]
    change Matches c _ ((match Text.ofUtf8? (c.source.rest.take length) with
      | none => _
      | some s => _ : GuardedDecoder String) c)
    cases Text.ofUtf8? (c.source.rest.take length) with
    | none =>
      dsimp only
      rw [offset_bind hc]
      exact .error _ _
    | some s => exact .ok s hstop
  · have hshort : c.remaining < length := Nat.lt_of_not_le hlong
    have htaken : c.source.rest.take length = c.source.rest := List.take_of_length_le (by rw [c.length_rest]; omega)
    have hplace : c.base + c.data.length = c.source.position + c.source.rest.length := by
      have hposition := hc.position
      simp only [Cursor.source, List.length_drop]
      omega
    rw [if_pos hshort, htaken, if_pos (by rwa [c.length_rest]), finish_bind hc, hplace]
    exact .error _ _

theorem follows_string : Follows string Decode.string :=
  follows_u30.bind follows_text

/-! ### Tables -/

variable {α : Type}

theorem follows_repeated {item : Nat → GuardedDecoder α} {reader : Nat → Decoder α}
    (h : ∀ index, Follows (item index) (reader index)) (index count : Nat) :
    Follows (repeated item index count) (Decode.repeated reader index count) := by
  induction count generalizing index with
  | zero => exact .pure _
  | succ count ih => exact (h index).bind fun _ => (ih (index + 1)).bind fun _ => .pure _

theorem follows_table {limit : Nat} {item : Nat → GuardedDecoder α} {reader : Nat → Decoder α}
    (hlimit : limit ≤ 65536) (h : ∀ index, Follows (item index) (reader index)) :
    Follows (table limit item) (Decode.table reader) := by
  -- The count comes from the bytes and may be anything; the limit is what keeps the room small.
  refine follows_u30.bind fun count => .guarded_bind (b := ()) (Guard.reserve_eq ?_) (follows_repeated h 0 count)
  rw [Guard.itemSize]
  omega

theorem follows_constant : Follows constant Decode.constant :=
  follows_u8.bind fun _ => .ite (fun _ => follows_s32.bind fun _ => .pure _) fun _ =>
    .ite (fun _ => follows_d64.bind fun _ => .pure _) fun _ =>
      .ite (fun _ => follows_string.bind fun _ => .pure _) fun _ => .fail _

theorem follows_instruction : Follows instruction Decode.instruction := by
  refine follows_offset.bind fun start => follows_u8.bind fun byte => ?_
  cases Opcode.ofByte? byte with
  | none => exact .fail _
  | some opcode => exact .ite (fun _ => .pure _) fun _ => follows_u30.bind fun _ => .pure _

theorem follows_method (index : Nat) : Follows (method index) (Decode.method index) :=
  follows_u30.bind fun _ => follows_u30.bind fun _ => follows_u30.bind fun _ => .refuse
    ((follows_table (Nat.le_refl _) fun _ => follows_instruction).bind fun _ => .pure _)

theorem follows_definition : Follows definition Decode.definition := by
  refine follows_u30.bind fun name => follows_u8.bind fun kind => follows_u30.bind fun payload => ?_
  -- The constant of a slot is stored one higher, so the guard that refuses zero tells a slot without one.
  have hindex : Guard.sub payload 1 = if payload = 0 then none else some (payload - 1) := by
    rw [Guard.sub]
    split <;> split <;> first | rfl | omega
  rw [hindex]
  exact .ite (fun _ => .pure _) fun _ => .ite (fun _ => .pure _) fun _ => .fail _

theorem follows_module (label : String) : Follows (module label) (Decode.module label) := by
  refine follows_u16.bind fun _ => follows_u16.bind fun _ => .refuse ?_
  refine (follows_table (by decide) fun _ => follows_constant).bind fun _ => ?_
  refine (follows_table (by decide) follows_method).bind fun _ => ?_
  refine (follows_table (by decide) fun _ => follows_definition).bind fun _ => follows_u30.bind fun _ => ?_
  refine .cursor_bind fun c hc => ?_
  have hrest : (!c.source.rest.isEmpty) = true ↔ 0 < c.remaining := by
    rw [← c.length_rest, List.length_pos_iff]
    cases c.source.rest <;> simp
  have hremaining : c.source.remaining = c.remaining := c.length_rest
  by_cases hmore : 0 < c.remaining
  · rw [if_pos hmore, if_pos (hrest.2 hmore), hremaining]
    exact .error _ _
  · rw [if_neg hmore, if_neg (fun h => hmore (hrest.1 h))]
    exact .ok _ hc.position

/-- No bytes make the decoder trap, and it decodes what they encode. -/
theorem decode_eq {bytes : List UInt8} (hroom : bytes.length < 2 ^ 63) (label : String) :
    decode bytes label = some (Module.decode bytes label) := by
  have hfollows := follows_module label ⟨bytes, 0, 0⟩ ⟨Nat.zero_le _, by simpa using hroom⟩
  have hsource : Cursor.source ⟨bytes, 0, 0⟩ = Source.ofBytes bytes := rfl
  rw [hsource] at hfollows
  rw [decode, Module.decode]
  generalize Decode.module label (Source.ofBytes bytes) = result at hfollows ⊢
  generalize module label ⟨bytes, 0, 0⟩ = out at hfollows ⊢
  cases hfollows <;> rfl

end MovieVm.Bytecode.GuardedDecode
