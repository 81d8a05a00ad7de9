import MovieVm.Bytecode.Primitive
import MovieVm.Proofs.Success
import MovieVm.Proofs.Utf8

/-!
# Primitive encodings read back

A decoder reads an encoding when it returns the value and stops right behind it, whatever follows. In the
other direction, what a decoder has returned can be encoded again in no more bytes than it took.
-/

namespace MovieVm.Bytecode

namespace Decoder

variable {α β : Type} {d : Decoder α} {f : α → Decoder β} {x : α} {y : β} {bytes more : List UInt8}

/-- The decoder returns `x` from `bytes` and leaves what follows them. -/
def Reads (d : Decoder α) (bytes : List UInt8) (x : α) : Prop :=
  ∀ position tail, d ⟨position, bytes ++ tail⟩ = .ok x ⟨position + bytes.length, tail⟩

theorem Reads.pure (x : α) : Reads (pure x) [] x :=
  fun _ _ => rfl

theorem Reads.bind (hd : Reads d bytes x) (hf : Reads (f x) more y) :
    Reads (d >>= f) (bytes ++ more) y := by
  intro position tail
  rw [List.append_assoc, EStateM.bind_of_ok (hd position (more ++ tail)),
    hf (position + bytes.length) tail, List.length_append, Nat.add_assoc]

/-- The last part of a decoder, which only wraps what has been read. -/
theorem Reads.map {g : α → β} (hd : Reads d bytes x) :
    Reads (d >>= fun a => Pure.pure (g a)) bytes (g x) := by
  simpa using hd.bind (f := fun a => Pure.pure (g a)) (.pure (g x))

/-- The decoder returns `x` when the bytes are all that is left. -/
def Finishes (d : Decoder α) (bytes : List UInt8) (x : α) : Prop :=
  ∀ position, ∃ s, d ⟨position, bytes⟩ = .ok x s

theorem Finishes.bind (hd : Reads d bytes x) (hf : Finishes (f x) more y) :
    Finishes (d >>= f) (bytes ++ more) y := by
  intro position
  rw [EStateM.bind_of_ok (hd position more)]
  exact hf (position + bytes.length)

/-- What the decoder returns has the property, and took at least the given number of bytes. -/
def Takes (d : Decoder α) (P : α → Prop) (least : α → Nat) : Prop :=
  ∀ s x s', d s = .ok x s' → P x ∧ s'.rest.length + least x ≤ s.rest.length

end Decoder

open Decoder

/-! ## Numbers of a fixed width -/

@[simp]
theorem length_littleEndian (width n : Nat) : (littleEndian width n).length = width := by
  induction width generalizing n with
  | zero => rfl
  | succ width ih => simp [littleEndian, ih]

theorem ofLittleEndian_littleEndian {width n : Nat} (h : n < 1 <<< (8 * width)) :
    ofLittleEndian (littleEndian width n) = n := by
  induction width generalizing n with
  | zero =>
    have hzero : n = 0 := by simpa using h
    simp [hzero, littleEndian, ofLittleEndian]
  | succ width ih =>
    -- The lowest byte comes first, and the rest of the number fits in one byte less.
    rw [Nat.mul_succ, Nat.shiftLeft_add] at h
    have hrest : n / 256 < 1 <<< (8 * width) := by omega
    simp only [littleEndian, ofLittleEndian, ih hrest, UInt8.toNat_ofNat']
    omega

namespace Decode

variable {s s' : Source}

theorem reads_u8 (b : UInt8) : Reads u8 [b] b :=
  fun _ _ => rfl

theorem u8_eq_ok {b : UInt8} (h : u8 s = .ok b s') :
    s.rest = b :: s'.rest ∧ s'.position = s.position + 1 := by
  obtain ⟨source, s₁, hget, hfirst⟩ := EStateM.bind_eq_ok.1 h
  obtain ⟨rfl, rfl⟩ := EStateM.get_eq_ok.1 hget
  cases hrest : s.rest with
  | nil =>
    rw [hrest] at hfirst
    exact absurd hfirst EStateM.throw_eq_ok
  | cons first rest =>
    rw [hrest] at hfirst
    obtain ⟨_, s₁, hset, hpure⟩ := EStateM.bind_eq_ok.1 hfirst
    obtain rfl := EStateM.set_eq_ok.1 hset
    obtain ⟨rfl, rfl⟩ := EStateM.pure_eq_ok.1 hpure
    exact ⟨rfl, rfl⟩

theorem reads_bytes (bs : List UInt8) : Reads (bytes bs.length) bs bs := by
  intro position tail
  refine EStateM.bind_eq_ok.2 ⟨_, _, EStateM.get_eq_ok.2 ⟨rfl, rfl⟩, ?_⟩
  refine EStateM.bind_eq_ok.2 ⟨⟨⟩, ⟨position + bs.length, tail⟩, EStateM.set_eq_ok.2 ?_, ?_⟩
  · simp [Source.skip]
  · exact EStateM.refuse_eq_ok.2 ⟨by simp [Source.skip], EStateM.pure_eq_ok.2 ⟨by simp, rfl⟩⟩

theorem bytes_eq_ok {n : Nat} {bs : List UInt8} (h : bytes n s = .ok bs s') :
    s.rest = bs ++ s'.rest ∧ bs.length = n ∧ s'.position = s.position + n := by
  obtain ⟨source, s₁, hget, h⟩ := EStateM.bind_eq_ok.1 h
  obtain ⟨rfl, rfl⟩ := EStateM.get_eq_ok.1 hget
  obtain ⟨_, s₂, hset, h⟩ := EStateM.bind_eq_ok.1 h
  obtain ⟨henough, hpure⟩ := EStateM.refuse_eq_ok.1 h
  obtain ⟨rfl, rfl⟩ := EStateM.pure_eq_ok.1 hpure
  obtain rfl := EStateM.set_eq_ok.1 hset
  have htaken : (s.rest.take n).length = n := by
    simp only [Source.skip, ne_eq, Decidable.not_not] at henough
    omega
  exact ⟨(List.take_append_drop n s.rest).symm, htaken, by simp only [Source.skip, htaken]⟩

theorem takes_bytes (n : Nat) : Takes (bytes n) (·.length = n) (fun _ => n) := by
  intro s bs s' h
  obtain ⟨hrest, hlength, _⟩ := bytes_eq_ok h
  have hsplit := congrArg List.length hrest
  rw [List.length_append, hlength] at hsplit
  exact ⟨hlength, by simp only; omega⟩

theorem reads_u16 (n : UInt16) : Reads u16 (Encode.u16 n) n := by
  have hread := (reads_bytes (Encode.u16 n)).map (g := fun bs => UInt16.ofNat (ofLittleEndian bs))
  rw [Encode.u16, ofLittleEndian_littleEndian n.toNat_lt, UInt16.ofNat_toNat] at hread
  exact hread

theorem takes_u16 : Takes u16 (fun _ => True) fun n => (Encode.u16 n).length := by
  intro s n s' h
  obtain ⟨bs, s₁, hbytes, hpure⟩ := EStateM.bind_eq_ok.1 h
  obtain ⟨_, rfl⟩ := EStateM.pure_eq_ok.1 hpure
  obtain ⟨_, hlength⟩ := takes_bytes 2 _ _ _ hbytes
  exact ⟨trivial, by simpa [Encode.u16] using hlength⟩

theorem reads_d64 (x : Double) : Reads d64 (Encode.d64 x) x := by
  have hread := (reads_bytes (Encode.d64 x)).map
    (g := fun bs => Double.mk (UInt64.ofNat (ofLittleEndian bs)))
  rw [Encode.d64, ofLittleEndian_littleEndian x.bits.toNat_lt, UInt64.ofNat_toNat] at hread
  exact hread

theorem takes_d64 : Takes d64 (fun _ => True) fun x => (Encode.d64 x).length := by
  intro s x s' h
  obtain ⟨bs, s₁, hbytes, hpure⟩ := EStateM.bind_eq_ok.1 h
  obtain ⟨_, rfl⟩ := EStateM.pure_eq_ok.1 hpure
  obtain ⟨_, hlength⟩ := takes_bytes 8 _ _ _ hbytes
  exact ⟨trivial, by simpa [Encode.d64] using hlength⟩

end Decode

/-! ## Numbers of a variable width -/

namespace Encode

theorem varint_of_lt {n : Nat} (h : n < 128) : varint n = [UInt8.ofNat n] := by
  rw [varint, if_pos h]

theorem varint_of_le {n : Nat} (h : 128 ≤ n) :
    varint n = UInt8.ofNat (n % 128 + 128) :: varint (n / 128) := by
  rw [varint, if_neg (Nat.not_lt.2 h)]

theorem length_varint_pos (n : Nat) : 1 ≤ (varint n).length := by
  rcases Nat.lt_or_ge n 128 with h | h
  · simp [varint_of_lt h]
  · simp [varint_of_le h]

/-- A group of seven bits below a number costs at most one byte. -/
theorem length_varint_group {low : Nat} (h : low < 128) (n : Nat) :
    (varint (low + 128 * n)).length ≤ (varint n).length + 1 := by
  rcases Nat.lt_or_ge (low + 128 * n) 128 with hsmall | hlarge
  · simp [varint_of_lt hsmall]
  · have hdiv : (low + 128 * n) / 128 = n := by omega
    simp [varint_of_le hlarge, hdiv]

theorem length_varint_mono {n m : Nat} (h : n ≤ m) : (varint n).length ≤ (varint m).length := by
  induction m using Nat.strongRecOn generalizing n with
  | ind m ih =>
    -- Both numbers lose their last seven bits, and with them one byte each.
    rcases Nat.lt_or_ge n 128 with hsmall | hlarge
    · simpa [varint_of_lt hsmall] using length_varint_pos m
    · have hle := ih (m / 128) (by omega) (Nat.div_le_div_right (c := 128) h)
      simpa [varint_of_le hlarge, varint_of_le (Nat.le_trans hlarge h)] using hle

end Encode

namespace Decode

variable {s s' : Source}

/-- The seven bits of a byte, and above them the bits of those that follow. -/
theorem shiftLeft_group (low n shift : Nat) :
    (low + 128 * n) <<< shift = low <<< shift + n <<< (shift + 7) := by
  simp only [Nat.shiftLeft_eq, Nat.pow_add, Nat.add_mul]
  rw [Nat.mul_comm 128, Nat.mul_assoc, Nat.mul_comm 128]

theorem reads_varintFrom (left shift value : Nat) {n : Nat} (hleft : 0 < left)
    (h : n < 1 <<< (7 * left)) :
    Reads (varintFrom left shift value) (Encode.varint n) (value + n <<< shift) := by
  -- On the bytes that may still come, for every shift and every value read so far.
  induction left generalizing n shift value with
  | zero => omega
  | succ left ih =>
    rcases Nat.lt_or_ge n 128 with hsmall | hlarge
    · rw [Encode.varint_of_lt hsmall, ← List.append_nil [_]]
      refine (reads_u8 _).bind ?_
      have hbyte : (UInt8.ofNat n).toNat = n := by
        rw [UInt8.toNat_ofNat']
        omega
      rw [if_pos (by rw [UInt8.lt_iff_toNat_lt, hbyte]; exact hsmall), hbyte,
        Nat.mod_eq_of_lt hsmall]
      exact .pure _
    · rw [Encode.varint_of_le hlarge, ← List.singleton_append]
      refine (reads_u8 _).bind ?_
      have hbyte : (UInt8.ofNat (n % 128 + 128)).toNat = n % 128 + 128 := by
        rw [UInt8.toNat_ofNat']
        omega
      rw [if_neg (by rw [UInt8.lt_iff_toNat_lt, hbyte]; simp), hbyte]
      rw [Nat.mul_succ, Nat.shiftLeft_add] at h
      -- More bits are left than this byte holds, so it is not the last one allowed.
      have hleft : 0 < left := by
        rcases Nat.eq_zero_or_pos left with rfl | hpos
        · simp at h
          omega
        · exact hpos
      have hread := ih (shift + 7) (value + ((n % 128 + 128) % 128) <<< shift) hleft
        (n := n / 128) (by omega)
      have hvalue : value + ((n % 128 + 128) % 128) <<< shift + (n / 128) <<< (shift + 7) =
          value + n <<< shift := by
        have hlow : (n % 128 + 128) % 128 = n % 128 := by omega
        rw [hlow, Nat.add_assoc, ← shiftLeft_group, Nat.mod_add_div]
      rw [hvalue] at hread
      exact hread

/-- The groups of bits that have been read are a number, which takes no more bytes when it is encoded. -/
theorem varintFrom_eq_ok {left shift value v : Nat} (h : varintFrom left shift value s = .ok v s') :
    ∃ n, v = value + n <<< shift ∧ s'.rest.length + (Encode.varint n).length ≤ s.rest.length := by
  induction left generalizing shift value s with
  | zero =>
    obtain ⟨_, _, _, hthrow⟩ := EStateM.bind_eq_ok.1 h
    exact absurd hthrow EStateM.throw_eq_ok
  | succ left ih =>
    obtain ⟨b, s₁, hbyte, h⟩ := EStateM.bind_eq_ok.1 h
    obtain ⟨hrest, _⟩ := u8_eq_ok hbyte
    have hlength : s.rest.length = s₁.rest.length + 1 := by simp [hrest]
    have hlow : b.toNat % 128 < 128 := Nat.mod_lt _ (by decide)
    split at h
    · obtain ⟨rfl, rfl⟩ := EStateM.pure_eq_ok.1 h
      refine ⟨b.toNat % 128, rfl, ?_⟩
      simp [Encode.varint_of_lt hlow, hlength]
    · -- The groups above this one may all be zero; the encoding leaves them out then.
      obtain ⟨n, rfl, hn⟩ := ih h
      refine ⟨b.toNat % 128 + 128 * n, ?_, ?_⟩
      · rw [shiftLeft_group, Nat.add_assoc]
      · have hgroup := Encode.length_varint_group hlow n
        omega

theorem reads_u32 {n : Nat} (h : n < 0x100000000) : Reads u32 (Encode.varint n) n := by
  have hread := (reads_varintFrom 5 0 0 (n := n) (by decide) (by simp; omega)).map
    (g := (· % 0x100000000))
  simp only [Nat.shiftLeft_zero, Nat.zero_add, Nat.mod_eq_of_lt h] at hread
  exact hread

theorem takes_u32 : Takes u32 (· < 0x100000000) fun n => (Encode.varint n).length := by
  intro s v s' h
  obtain ⟨n, s₁, hvarint, hpure⟩ := EStateM.bind_eq_ok.1 h
  obtain ⟨rfl, rfl⟩ := EStateM.pure_eq_ok.1 hpure
  obtain ⟨k, hk, hlength⟩ := varintFrom_eq_ok hvarint
  obtain rfl : n = k := by simpa using hk
  -- Bits beyond the 32 are dropped, which makes the number no larger.
  have hmono := Encode.length_varint_mono (Nat.mod_le n 0x100000000)
  exact ⟨Nat.mod_lt _ (by decide), Nat.le_trans (Nat.add_le_add_left hmono _) hlength⟩

end Decode

namespace Decoder

/-- A decoder that looks at its place reads the same at every place. -/
theorem Reads.at_position {α : Type} {f : Nat → Decoder α} {bytes : List UInt8} {x : α}
    (h : ∀ place, Reads (f place) bytes x) : Reads (Decode.position >>= f) bytes x :=
  fun place tail => h place place tail

end Decoder

namespace Decode

theorem reads_u30 {n : Nat} (h : n < 0x40000000) : Reads u30 (Encode.varint n) n := by
  refine .at_position fun place => ?_
  rw [← List.append_nil (Encode.varint n)]
  refine (reads_u32 (by omega)).bind ?_
  rw [if_neg (Nat.not_le.2 h)]
  exact .pure n

theorem takes_u30 : Takes u30 (· < 0x40000000) fun n => (Encode.varint n).length := by
  intro s v s' h
  obtain ⟨place, s₁, hplace, h⟩ := EStateM.bind_eq_ok.1 h
  obtain ⟨n, s₂, hu32, hvalue⟩ := EStateM.bind_eq_ok.1 h
  obtain ⟨_, rfl⟩ := EStateM.pure_eq_ok.1 hplace
  obtain ⟨_, hlength⟩ := takes_u32 _ _ _ hu32
  obtain ⟨hsmall, hpure⟩ := EStateM.refuse_eq_ok.1 hvalue
  obtain ⟨rfl, rfl⟩ := EStateM.pure_eq_ok.1 hpure
  exact ⟨Nat.lt_of_not_le hsmall, hlength⟩

theorem reads_s32 (n : Int32) : Reads s32 (Encode.s32 n) n := by
  have hread := (reads_u32 n.toUInt32.toNat_lt).map (g := fun k => (UInt32.ofNat k).toInt32)
  rw [UInt32.ofNat_toNat, Int32.toInt32_toUInt32] at hread
  exact hread

theorem takes_s32 : Takes s32 (fun _ => True) fun n => (Encode.s32 n).length := by
  intro s v s' h
  obtain ⟨n, s₁, hu32, hpure⟩ := EStateM.bind_eq_ok.1 h
  obtain ⟨rfl, rfl⟩ := EStateM.pure_eq_ok.1 hpure
  obtain ⟨hlt, hlength⟩ := takes_u32 _ _ _ hu32
  -- The sign is only another reading of the same 32 bits.
  have hback : (UInt32.ofNat n).toInt32.toUInt32.toNat = n := by
    rw [UInt32.toUInt32_toInt32, UInt32.toNat_ofNat', Nat.mod_eq_of_lt hlt]
  exact ⟨trivial, by simpa only [Encode.s32, hback] using hlength⟩

/-! ## Strings -/

theorem reads_text (t : String) : Reads (text t.utf8ByteSize) (Text.toUtf8 t) t := by
  intro position tail
  -- The length that is written counts bytes, not characters.
  have hlength : (Text.toUtf8 t).length = t.utf8ByteSize := Text.length_toUtf8 t
  have htext : Text.ofUtf8? (Text.toUtf8 t) = some t := Text.ofUtf8?_eq_some.2 rfl
  refine EStateM.bind_eq_ok.2 ⟨_, _, EStateM.get_eq_ok.2 ⟨rfl, rfl⟩, ?_⟩
  refine EStateM.refuse_eq_ok.2 ⟨by simp [hlength], ?_⟩
  simp only [List.take_left' hlength, List.drop_left' hlength, htext, hlength]
  exact EStateM.bind_of_ok (a := ⟨⟩) (EStateM.set_eq_ok.2 rfl)

theorem text_eq_ok {n : Nat} {t : String} (h : text n s = .ok t s') :
    s.rest = Text.toUtf8 t ++ s'.rest ∧ t.utf8ByteSize = n ∧ s'.position = s.position + n := by
  obtain ⟨source, s₁, hget, h⟩ := EStateM.bind_eq_ok.1 h
  obtain ⟨rfl, rfl⟩ := EStateM.get_eq_ok.1 hget
  obtain ⟨hshort, h⟩ := EStateM.refuse_eq_ok.1 h
  have htaken : (s.rest.take n).length = n :=
    Nat.le_antisymm (List.length_take_le _ _) (Nat.le_of_not_lt hshort)
  cases htext : Text.ofUtf8? (s.rest.take n) with
  | none =>
    rw [htext] at h
    exact absurd h EStateM.throw_eq_ok
  | some u =>
    rw [htext] at h
    obtain ⟨_, s₁, hset, hpure⟩ := EStateM.bind_eq_ok.1 h
    obtain rfl := EStateM.set_eq_ok.1 hset
    obtain ⟨rfl, rfl⟩ := EStateM.pure_eq_ok.1 hpure
    have hbytes : s.rest.take n = Text.toUtf8 u := Text.ofUtf8?_eq_some.1 htext
    refine ⟨?_, ?_, rfl⟩
    · rw [← hbytes, List.take_append_drop]
    · rw [← Text.length_toUtf8, ← hbytes, htaken]

theorem reads_string {t : String} (h : t.utf8ByteSize < 0x40000000) :
    Reads string (Encode.string t) t :=
  (reads_u30 h).bind (reads_text t)

theorem takes_string : Takes string (fun t => t.utf8ByteSize < 0x40000000)
    fun t => (Encode.string t).length := by
  intro s t s' h
  obtain ⟨n, s₁, hu30, htext⟩ := EStateM.bind_eq_ok.1 h
  obtain ⟨hlt, hu30length⟩ := takes_u30 _ _ _ hu30
  obtain ⟨hrest, rfl, _⟩ := text_eq_ok htext
  refine ⟨hlt, ?_⟩
  rw [hrest] at hu30length
  simp only [Encode.string, List.length_append] at hu30length ⊢
  omega

end Decode

end MovieVm.Bytecode
