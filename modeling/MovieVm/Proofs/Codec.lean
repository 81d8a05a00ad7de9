import MovieVm.Bytecode.Codec
import MovieVm.Proofs.Primitive
import MovieVm.Proofs.References

/-!
# Modules read back from their bytes

The decoder accepts more than the encoder writes: a number may have more groups of bits than it needs. It
nevertheless returns only modules that can be encoded, and their encoding is the shortest of all.
-/

namespace MovieVm.Bytecode

/-! ## What the encoding has room for -/

def Constant.Fits : Constant → Prop
  | .string s => s.utf8ByteSize < 0x40000000
  | _ => True

def Instruction.Fits (i : Instruction) : Prop :=
  ∀ n, i.operand? = some n → n < 0x40000000

structure Method.Fits (m : Method) : Prop where
  name : m.name < 0x40000000
  params : m.params < 0x40000000
  locals : m.locals ≤ maxLocals
  size : m.code.size < 0x40000000
  operands : ∀ i ∈ m.code, i.Fits

/-- A module with resolved references and the supported version, all of whose numbers have room. -/
structure Module.Encodable (m : Module) : Prop where
  references : m.checkReferences = .ok ()
  version : m.majorVersion = supportedMajor
  constantCount : m.constants.size < 0x40000000
  constants : ∀ c ∈ m.constants, c.Fits
  methodCount : m.methods.size < 0x40000000
  methods : ∀ method ∈ m.methods, method.Fits
  definitionCount : m.definitions.length < 0x40000000
  definitionNames : ∀ d ∈ m.definitions, d.name < 0x40000000

/-- The number that is written for a binding, behind its kind. -/
def Binding.payload : Binding → Nat
  | .slot none => 0
  | .slot (some index) => index + 1
  | .method index => index

namespace Module.Encodable

variable {m : Module}

theorem payload_lt (h : m.Encodable) {d : Definition} (hd : d ∈ m.definitions) :
    d.binding.payload < 0x40000000 := by
  -- An index that resolves is below the size of its table, so even one more than it has room.
  have hresolves := (checkReferences_eq_ok.1 h.references).binding d hd
  have hconstants := h.constantCount
  have hmethods := h.methodCount
  rcases hbinding : d.binding with (_ | index) | index <;>
    simp only [hbinding, ResolvesBinding, Binding.payload] at hresolves ⊢ <;> omega

theorem init_lt (h : m.Encodable) : m.init < 0x40000000 :=
  Nat.lt_trans (checkReferences_eq_ok.1 h.references).init h.methodCount

end Module.Encodable

namespace Decode

open Decoder

/-! ## Tables -/

section Table

variable {α : Type} {item : Nat → Decoder α} {encode : α → List UInt8} {P : α → Prop}

theorem reads_repeated {items : List α} (h : ∀ index, ∀ x ∈ items, Reads (item index) (encode x) x)
    (index : Nat) : Reads (repeated item index items.length) (items.flatMap encode) items := by
  induction items generalizing index with
  | nil => exact .pure []
  | cons first rest ih =>
    have hfirst := h index first (List.mem_cons_self ..)
    have hrest := ih (fun index x hx => h index x (List.mem_cons_of_mem _ hx)) (index + 1)
    exact hfirst.bind hrest.map

theorem takes_repeated (h : ∀ index, Takes (item index) P fun x => (encode x).length)
    (count index : Nat) :
    Takes (repeated item index count) (fun items => items.length = count ∧ ∀ x ∈ items, P x)
      fun items => (items.flatMap encode).length := by
  -- The index goes up while the items that are left go down, so it is any number here.
  induction count generalizing index with
  | zero =>
    intro s items s' hread
    obtain ⟨rfl, rfl⟩ := EStateM.pure_eq_ok.1 hread
    exact ⟨⟨rfl, fun _ hx => absurd hx List.not_mem_nil⟩, by simp⟩
  | succ count ih =>
    intro s items s' hread
    obtain ⟨first, s₁, hfirst, hread⟩ := EStateM.bind_eq_ok.1 hread
    obtain ⟨rest, s₂, hrest, hpure⟩ := EStateM.bind_eq_ok.1 hread
    obtain ⟨rfl, rfl⟩ := EStateM.pure_eq_ok.1 hpure
    obtain ⟨hP, hfirstLength⟩ := h index _ _ _ hfirst
    obtain ⟨⟨hlength, hall⟩, hrestLength⟩ := ih (index + 1) _ _ _ hrest
    refine ⟨⟨by simp [hlength], List.forall_mem_cons.2 ⟨hP, hall⟩⟩, ?_⟩
    simp only [List.flatMap_cons, List.length_append] at hfirstLength hrestLength ⊢
    omega

theorem reads_table (item : Nat → Decoder α) (encode : α → List UInt8) (items : List α)
    (h : ∀ index, ∀ x ∈ items, Reads (item index) (encode x) x)
    (hsize : items.length < 0x40000000) :
    Reads (table item) (Encode.varint items.length ++ items.flatMap encode) items :=
  (reads_u30 hsize).bind (reads_repeated h 0)

theorem takes_table (h : ∀ index, Takes (item index) P fun x => (encode x).length) :
    Takes (table item) (fun items => items.length < 0x40000000 ∧ ∀ x ∈ items, P x)
      fun items => (Encode.varint items.length).length + (items.flatMap encode).length := by
  intro s items s' hread
  obtain ⟨count, s₁, hcount, hitems⟩ := EStateM.bind_eq_ok.1 hread
  obtain ⟨hlt, hcountLength⟩ := takes_u30 _ _ _ hcount
  obtain ⟨⟨rfl, hall⟩, hlength⟩ := takes_repeated h _ _ _ _ _ hitems
  refine ⟨⟨hlt, hall⟩, ?_⟩
  simp only at hcountLength hlength ⊢
  omega

end Table

/-! ## Items -/

theorem reads_constant {c : Constant} (h : c.Fits) : Reads constant (Encode.constant c) c := by
  cases c with
  | int n => exact (reads_u8 1).bind (reads_s32 n).map
  | double x => exact (reads_u8 2).bind (reads_d64 x).map
  | string t => exact (reads_u8 3).bind (reads_string h).map

theorem takes_constant : Takes constant Constant.Fits fun c => (Encode.constant c).length := by
  intro s c s' h
  obtain ⟨kind, s₁, hkind, h⟩ := EStateM.bind_eq_ok.1 h
  have hrest : s.rest.length = s₁.rest.length + 1 := by simp [(u8_eq_ok hkind).1]
  -- The kinds in the order in which they are tried; any other byte is refused.
  by_cases hint : kind = 1
  · rw [if_pos hint] at h
    obtain ⟨n, s₂, hread, hpure⟩ := EStateM.bind_eq_ok.1 h
    obtain ⟨rfl, rfl⟩ := EStateM.pure_eq_ok.1 hpure
    obtain ⟨_, hlength⟩ := takes_s32 _ _ _ hread
    exact ⟨trivial, by simpa [Encode.constant, hrest, ← Nat.add_assoc] using hlength⟩
  rw [if_neg hint] at h
  by_cases hdouble : kind = 2
  · rw [if_pos hdouble] at h
    obtain ⟨x, s₂, hread, hpure⟩ := EStateM.bind_eq_ok.1 h
    obtain ⟨rfl, rfl⟩ := EStateM.pure_eq_ok.1 hpure
    obtain ⟨_, hlength⟩ := takes_d64 _ _ _ hread
    exact ⟨trivial, by simpa [Encode.constant, hrest, ← Nat.add_assoc] using hlength⟩
  rw [if_neg hdouble] at h
  by_cases hstring : kind = 3
  · rw [if_pos hstring] at h
    obtain ⟨t, s₂, hread, hpure⟩ := EStateM.bind_eq_ok.1 h
    obtain ⟨rfl, rfl⟩ := EStateM.pure_eq_ok.1 hpure
    obtain ⟨hfits, hlength⟩ := takes_string _ _ _ hread
    exact ⟨hfits, by simpa [Encode.constant, hrest, ← Nat.add_assoc] using hlength⟩
  rw [if_neg hstring] at h
  exact absurd h EStateM.throw_eq_ok

/-- Opcodes of kind `none` drop the operand. -/
theorem operand?_withOperand (o : Opcode) (n : Nat) :
    (o.withOperand n).operand? = if o.kind = .none then none else some n := by
  cases o <;> rfl

theorem reads_instruction {i : Instruction} (h : i.Fits) :
    Reads instruction (Encode.instruction i) i := by
  -- The offset is only for errors.
  refine .at_position fun offset => (reads_u8 i.opcode.byte).bind ?_
  have hnone := Instruction.operand?_isNone i
  have hsame := Instruction.withOperand_opcode i
  simp only [Opcode.ofByte?_byte]
  cases hoperand : i.operand? with
  | none =>
    simp only [hoperand, Option.isNone_none, Option.getD_none] at hnone hsame
    rw [if_pos (of_eq_true hnone.symm), hsame]
    exact .pure i
  | some n =>
    simp only [hoperand, Option.isNone_some, Option.getD_some] at hnone hsame
    rw [if_neg (by simp [← hnone])]
    simpa only [hsame] using (reads_u30 (h n hoperand)).map (g := i.opcode.withOperand)

theorem takes_instruction :
    Takes instruction Instruction.Fits fun i => (Encode.instruction i).length := by
  intro s i s' h
  obtain ⟨offset, s₁, hposition, hread⟩ := EStateM.bind_eq_ok.1 h
  obtain ⟨byte, s₂, hbyte, hoperation⟩ := EStateM.bind_eq_ok.1 hread
  obtain ⟨_, rfl⟩ := EStateM.pure_eq_ok.1 hposition
  have hrest : s.rest.length = s₂.rest.length + 1 := by simp [(u8_eq_ok hbyte).1]
  cases hopcode : Opcode.ofByte? byte with
  | none =>
    rw [hopcode] at hoperation
    exact absurd hoperation EStateM.throw_eq_ok
  | some o =>
    simp only [hopcode] at hoperation
    have hoperand := operand?_withOperand o
    by_cases hkind : o.kind = .none
    · simp only [hkind, if_true] at hoperation hoperand
      obtain ⟨rfl, rfl⟩ := EStateM.pure_eq_ok.1 hoperation
      exact ⟨fun n hn => by simp [hoperand] at hn, by simp [Encode.instruction, hoperand, hrest]⟩
    · simp only [hkind, if_false] at hoperation hoperand
      obtain ⟨n, s₃, hvalue, hpure⟩ := EStateM.bind_eq_ok.1 hoperation
      obtain ⟨rfl, rfl⟩ := EStateM.pure_eq_ok.1 hpure
      obtain ⟨hlt, hlength⟩ := takes_u30 _ _ _ hvalue
      refine ⟨fun k hk => ?_, ?_⟩
      · obtain rfl : n = k := by simpa [hoperand] using hk
        exact hlt
      · simpa [Encode.instruction, hoperand, hrest, ← Nat.add_assoc] using hlength

theorem reads_method {m : Method} (h : m.Fits) (index : Nat) :
    Reads (method index) (Encode.method m) m := by
  have hcode := reads_table (fun _ => instruction) Encode.instruction m.code.toList
    (fun _ i hi => reads_instruction (h.operands i (by simpa using hi)))
    (by simpa using h.size)
  have hlocals : m.locals < 0x40000000 := Nat.lt_of_le_of_lt h.locals (by decide)
  simp only [Encode.method, List.append_assoc]
  refine (reads_u30 h.name).bind <| (reads_u30 h.params).bind <| (reads_u30 hlocals).bind ?_
  rw [if_neg (Nat.not_lt.2 h.locals)]
  simpa using hcode.map (g := fun code => Method.mk m.name m.params m.locals code.toArray)

theorem takes_method (index : Nat) :
    Takes (method index) Method.Fits fun m => (Encode.method m).length := by
  intro s m s' h
  obtain ⟨name, s₁, hname, h⟩ := EStateM.bind_eq_ok.1 h
  obtain ⟨params, s₂, hparams, h⟩ := EStateM.bind_eq_ok.1 h
  obtain ⟨locals, s₃, hlocals, h⟩ := EStateM.bind_eq_ok.1 h
  obtain ⟨hmany, h⟩ := EStateM.refuse_eq_ok.1 h
  obtain ⟨code, s₄, hcode, hpure⟩ := EStateM.bind_eq_ok.1 h
  obtain ⟨rfl, rfl⟩ := EStateM.pure_eq_ok.1 hpure
  obtain ⟨hnameLt, hnameLength⟩ := takes_u30 _ _ _ hname
  obtain ⟨hparamsLt, hparamsLength⟩ := takes_u30 _ _ _ hparams
  obtain ⟨_, hlocalsLength⟩ := takes_u30 _ _ _ hlocals
  obtain ⟨⟨hsize, hfits⟩, hcodeLength⟩ := takes_table (fun _ => takes_instruction) _ _ _ hcode
  refine ⟨⟨hnameLt, hparamsLt, Nat.le_of_not_lt hmany, hsize, by simpa using hfits⟩, ?_⟩
  simp only [Encode.method, List.length_append, List.size_toArray] at *
  omega

theorem reads_definition {d : Definition} (hname : d.name < 0x40000000)
    (hpayload : d.binding.payload < 0x40000000) :
    Reads definition (Encode.definition d) d := by
  obtain ⟨name, binding⟩ := d
  refine (reads_u30 hname).bind ?_
  rcases binding with (_ | index) | index
  · exact (reads_u8 0).bind (reads_u30 hpayload).map
  · exact (reads_u8 0).bind (reads_u30 hpayload).map
  · exact (reads_u8 1).bind (reads_u30 hpayload).map

theorem takes_definition :
    Takes definition (·.name < 0x40000000) fun d => (Encode.definition d).length := by
  intro s d s' h
  obtain ⟨name, s₁, hname, h⟩ := EStateM.bind_eq_ok.1 h
  obtain ⟨kind, s₂, hkind, h⟩ := EStateM.bind_eq_ok.1 h
  obtain ⟨payload, s₃, hpayload, h⟩ := EStateM.bind_eq_ok.1 h
  obtain ⟨hnameLt, hnameLength⟩ := takes_u30 _ _ _ hname
  obtain ⟨_, hpayloadLength⟩ := takes_u30 _ _ _ hpayload
  have hrest : s₁.rest.length = s₂.rest.length + 1 := by simp [(u8_eq_ok hkind).1]
  by_cases hslot : kind = 0
  · rw [if_pos hslot] at h
    obtain ⟨rfl, rfl⟩ := EStateM.pure_eq_ok.1 h
    refine ⟨hnameLt, ?_⟩
    -- A slot is written one higher than its index, and zero stands for no value.
    rcases payload with _ | index <;>
      simp [Encode.definition, Encode.binding] at hnameLength hpayloadLength ⊢ <;> omega
  rw [if_neg hslot] at h
  by_cases hmethod : kind = 1
  · rw [if_pos hmethod] at h
    obtain ⟨rfl, rfl⟩ := EStateM.pure_eq_ok.1 h
    refine ⟨hnameLt, ?_⟩
    simp [Encode.definition, Encode.binding] at hnameLength hpayloadLength ⊢
    omega
  rw [if_neg hmethod] at h
  exact absurd h EStateM.throw_eq_ok

/-! ## Modules -/

variable {m : Module}

theorem module_encode (h : m.Encodable) :
    ∃ s, module m.label (Source.ofBytes m.encode) = .ok m s := by
  have hconstants := reads_table (fun _ => constant) Encode.constant m.constants.toList
    (fun _ c hc => reads_constant (h.constants c (by simpa using hc)))
    (by simpa using h.constantCount)
  have hmethods := reads_table method Encode.method m.methods.toList
    (fun index c hc => reads_method (h.methods c (by simpa using hc)) index)
    (by simpa using h.methodCount)
  have hdefinitions := reads_table (fun _ => definition) Encode.definition m.definitions
    (fun _ d hd => reads_definition (h.definitionNames d hd) (h.payload_lt hd)) h.definitionCount
  -- The parts are bracketed as they are read, each before all that follow it.
  have hparts : m.encode = Encode.u16 m.minorVersion ++ (Encode.u16 m.majorVersion ++
      ((Encode.varint m.constants.toList.length ++ m.constants.toList.flatMap Encode.constant) ++
      ((Encode.varint m.methods.toList.length ++ m.methods.toList.flatMap Encode.method) ++
      ((Encode.varint m.definitions.length ++ m.definitions.flatMap Encode.definition) ++
      (Encode.varint m.init ++ []))))) := by
    simp [Module.encode]
  rw [hparts]
  refine (Finishes.bind (reads_u16 m.minorVersion) ?_ 0)
  refine Finishes.bind (reads_u16 m.majorVersion) ?_
  rw [if_neg (fun hne => hne h.version)]
  refine Finishes.bind hconstants (Finishes.bind hmethods (Finishes.bind hdefinitions ?_))
  exact Finishes.bind (reads_u30 h.init_lt) fun position => ⟨⟨position, []⟩, rfl⟩

theorem takes_module {label : String} {s s' : Source} (h : module label s = .ok m s')
    (hreferences : m.checkReferences = .ok ()) :
    m.Encodable ∧ m.label = label ∧ m.encode.length ≤ s.rest.length := by
  obtain ⟨minor, s₁, hminor, h⟩ := EStateM.bind_eq_ok.1 h
  obtain ⟨major, s₂, hmajor, h⟩ := EStateM.bind_eq_ok.1 h
  obtain ⟨hversion, h⟩ := EStateM.refuse_eq_ok.1 h
  obtain ⟨constants, s₃, hconstants, h⟩ := EStateM.bind_eq_ok.1 h
  obtain ⟨methods, s₄, hmethods, h⟩ := EStateM.bind_eq_ok.1 h
  obtain ⟨definitions, s₅, hdefinitions, h⟩ := EStateM.bind_eq_ok.1 h
  obtain ⟨init, s₆, hinit, h⟩ := EStateM.bind_eq_ok.1 h
  obtain ⟨source, s₇, hget, h⟩ := EStateM.bind_eq_ok.1 h
  obtain ⟨_, hpure⟩ := EStateM.refuse_eq_ok.1 h
  obtain ⟨rfl, rfl⟩ := EStateM.pure_eq_ok.1 hpure
  obtain ⟨_, hminorLength⟩ := takes_u16 _ _ _ hminor
  obtain ⟨_, hmajorLength⟩ := takes_u16 _ _ _ hmajor
  obtain ⟨⟨hconstantCount, hconstants⟩, hconstantsLength⟩ :=
    takes_table (fun _ => takes_constant) _ _ _ hconstants
  obtain ⟨⟨hmethodCount, hmethods⟩, hmethodsLength⟩ := takes_table takes_method _ _ _ hmethods
  obtain ⟨⟨hdefinitionCount, hdefinitions⟩, hdefinitionsLength⟩ :=
    takes_table (fun _ => takes_definition) _ _ _ hdefinitions
  obtain ⟨_, hinitLength⟩ := takes_u30 _ _ _ hinit
  -- Each part took no fewer bytes than it is written in, so all of them together did not either.
  refine ⟨?_, rfl, ?_⟩
  · exact {
      references := hreferences
      version := Decidable.not_not.1 hversion
      constantCount := hconstantCount
      constants := by simpa using hconstants
      methodCount := hmethodCount
      methods := by simpa using hmethods
      definitionCount := hdefinitionCount
      definitionNames := hdefinitions }
  · simp only [Module.encode, List.length_append, List.size_toArray] at *
    omega

end Decode

namespace Module

variable {m : Module} {bytes : List UInt8} {label : String}

theorem decode_eq_ok : Module.decode bytes label = .ok m ↔
    (∃ s, Decode.module label (Source.ofBytes bytes) = .ok m s) ∧ m.checkReferences = .ok () := by
  unfold Module.decode
  cases Decode.module label (Source.ofBytes bytes) with
  | ok read s =>
    simp only [Except.check_bind_eq_ok, EStateM.Result.ok.injEq, exists_and_left, exists_eq', and_true]
    constructor
    · rintro ⟨hreferences, hpure⟩
      obtain rfl := Except.ok.inj hpure
      exact ⟨rfl, hreferences⟩
    · rintro ⟨rfl, hreferences⟩
      exact ⟨hreferences, rfl⟩
  | error e s => simp

theorem decode_encode (h : m.Encodable) : Module.decode m.encode m.label = .ok m :=
  decode_eq_ok.2 ⟨Decode.module_encode h, h.references⟩

theorem of_decode (h : Module.decode bytes label = .ok m) :
    m.Encodable ∧ m.label = label ∧ m.encode.length ≤ bytes.length := by
  obtain ⟨⟨s, hread⟩, hreferences⟩ := decode_eq_ok.1 h
  exact Decode.takes_module hread hreferences

/-- A module that has room in the binary form is read back as it was, and only such modules are ever
read. Of all the bytes that a module is read from, its encoding is the shortest, and reading the encoding
and writing it again changes nothing more. -/
theorem encoding_canonical :
    (∀ m : Module, m.Encodable → Module.decode m.encode m.label = .ok m) ∧
      ∀ (bytes : List UInt8) (label : String) (m : Module), Module.decode bytes label = .ok m →
        m.Encodable ∧ m.label = label ∧ m.encode.length ≤ bytes.length ∧
          Module.decode m.encode label = .ok m ∧
          ∀ other, Module.decode other label = .ok m → m.encode.length ≤ other.length := by
  refine ⟨fun m h => decode_encode h, fun bytes label m h => ?_⟩
  obtain ⟨hencodable, rfl, hlength⟩ := of_decode h
  exact ⟨hencodable, rfl, hlength, decode_encode hencodable, fun other hother => (of_decode hother).2.2⟩

/-- A module with one empty method, whose name is the empty string. -/
def tiny : Module where
  label := ""
  minorVersion := 16
  majorVersion := 46
  constants := #[.string ""]
  methods := #[⟨0, 0, 0, #[.returnVoid]⟩]
  definitions := []
  init := 0

/-- The bytes of `tiny`, with a group of bits too many in the number of constants. -/
def tinyBytes : List UInt8 :=
  [16, 0, 46, 0, 0x81, 0, 3, 0, 1, 0, 0, 0, 1, 0x47, 0, 0]

theorem encoding_canonical_tiny :
    Module.decode tinyBytes "" = .ok tiny ∧ Module.decode tiny.encode "" = .ok tiny ∧
      tiny.encode.length ≤ tinyBytes.length := by
  have hdecode : Module.decode tinyBytes "" = .ok tiny := by rfl
  obtain ⟨_, _, hlength, hagain, _⟩ := encoding_canonical.2 tinyBytes "" tiny hdecode
  exact ⟨hdecode, hagain, hlength⟩

end Module

end MovieVm.Bytecode
