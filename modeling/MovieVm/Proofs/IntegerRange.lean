import Mathlib.Data.Nat.Digits.Defs
import MovieVm.Proofs.Primitive

/-!
# The range of integers

The bytes of an integer write a number of any size, while the reader keeps its lowest thirty-two bits and holds
those against 2^30. The check of the range is exact for every number below 2^32; only a fifth byte of sixteen or
more writes a larger one, and what is left of that may be in range.
-/

namespace MovieVm.Bytecode

/-! ## The bytes of an integer -/

namespace Varint

/-- Each byte says that another one follows. -/
def Open (bytes : List UInt8) : Prop :=
  ∀ b ∈ bytes, 128 ≤ b

/-- Each byte but the last says that another one follows. -/
def Whole (bytes : List UInt8) : Prop :=
  ∃ front last, bytes = front ++ [last] ∧ Open front ∧ last < 128

/-- The number that the bytes write: the low seven bits of each are a digit, the lowest first. -/
def value (bytes : List UInt8) : Nat :=
  Nat.ofDigits 128 (bytes.map (·.toNat % 128))

/-- A fifth byte, if there is one, has no bits above the thirty-second. -/
def Narrow (bytes : List UInt8) : Prop :=
  ∀ b, bytes[4]? = some b → b < 16

variable {bytes rest : List UInt8} {b : UInt8}

theorem open_cons : Open (b :: rest) ↔ 128 ≤ b ∧ Open rest :=
  List.forall_mem_cons

theorem whole_cons : Whole (b :: rest) ↔ b < 128 ∧ rest = [] ∨ 128 ≤ b ∧ Whole rest := by
  constructor
  · rintro ⟨_ | ⟨first, front⟩, last, hbytes, hopen, hlast⟩
    · obtain ⟨rfl, rfl⟩ := List.cons.inj hbytes
      exact .inl ⟨hlast, rfl⟩
    · obtain ⟨rfl, rfl⟩ := List.cons.inj hbytes
      obtain ⟨hb, hfront⟩ := open_cons.1 hopen
      exact .inr ⟨hb, front, last, rfl, hfront, hlast⟩
  · rintro (⟨hb, rfl⟩ | ⟨hb, front, last, rfl, hfront, hlast⟩)
    · exact ⟨[], b, rfl, List.forall_mem_nil _, hb⟩
    · exact ⟨b :: front, last, rfl, open_cons.2 ⟨hb, hfront⟩, hlast⟩

theorem not_whole_nil : ¬ Whole [] := by
  rintro ⟨front, last, hbytes, _⟩
  simp at hbytes

theorem value_cons (b : UInt8) (rest : List UInt8) : value (b :: rest) = b.toNat % 128 + 128 * value rest :=
  Nat.ofDigits_cons

theorem value_lt (bytes : List UInt8) : value bytes < 128 ^ bytes.length := by
  have hdigits : ∀ d ∈ bytes.map (·.toNat % 128), d < 128 := by
    intro d hd
    obtain ⟨b, _, rfl⟩ := List.mem_map.1 hd
    exact Nat.mod_lt b.toNat (by decide)
  simpa [value] using Nat.ofDigits_lt_base_pow_length (by decide) hdigits

/-- Four bytes have twenty-eight bits, so a fifth has room for four more of thirty-two. -/
theorem Whole.value_lt_iff (h : Whole bytes) (hfive : bytes.length ≤ 5) :
    value bytes < 0x100000000 ↔ Narrow bytes := by
  unfold Narrow
  obtain ⟨front, last, rfl, _, hlast⟩ := h
  rw [List.length_append, List.length_singleton] at hfive
  rcases Nat.lt_or_ge front.length 4 with hshort | hlong
  · have hpow : 128 ^ (front ++ [last]).length ≤ 128 ^ 4 :=
      Nat.pow_le_pow_right (by decide) (by rw [List.length_append]; exact hshort)
    have hlt := Nat.lt_of_lt_of_le (value_lt (front ++ [last])) hpow
    have hnone : (front ++ [last])[4]? = none := List.getElem?_eq_none (by rw [List.length_append]; exact hshort)
    simp only [hnone, reduceCtorEq, false_imp_iff, implies_true, iff_true]
    exact Nat.lt_trans hlt (by decide)
  · have hfour : front.length = 4 := by omega
    have hlow : last.toNat % 128 = last.toNat := Nat.mod_eq_of_lt hlast
    have hvalue : value (front ++ [last]) = value front + 128 ^ 4 * last.toNat := by
      simp [value, Nat.ofDigits_append, hlow, hfour]
    have hfront := hfour ▸ value_lt front
    have hlast : (front ++ [last])[4]? = some last := by simp [← hfour]
    simp only [hlast, Option.some.injEq, forall_eq', hvalue, UInt8.lt_iff_toNat_lt, UInt8.reduceToNat]
    omega

/-- Of the first few bytes of anything, either some are the bytes of an integer, or all ask for more. -/
theorem exists_split (limit : Nat) (rest : List UInt8) : ∃ bytes tail, rest = bytes ++ tail ∧
    (Whole bytes ∧ bytes.length ≤ limit ∨ Open bytes ∧ bytes.length = limit ∨
      Open bytes ∧ bytes.length < limit ∧ tail = []) := by
  induction limit generalizing rest with
  | zero => exact ⟨[], rest, rfl, .inr (.inl ⟨List.forall_mem_nil _, rfl⟩)⟩
  | succ limit ih =>
    cases rest with
    | nil => exact ⟨[], [], rfl, .inr (.inr ⟨List.forall_mem_nil _, Nat.succ_pos _, rfl⟩)⟩
    | cons b rest =>
      rcases Nat.lt_or_ge b.toNat 128 with hlast | hmore
      · exact ⟨[b], rest, rfl, .inl ⟨whole_cons.2 (.inl ⟨hlast, rfl⟩), by simp⟩⟩
      · obtain ⟨bytes, tail, rfl, h⟩ := ih rest
        refine ⟨b :: bytes, tail, rfl, ?_⟩
        rcases h with ⟨hwhole, hle⟩ | ⟨hopen, heq⟩ | ⟨hopen, hlt, htail⟩
        · exact .inl ⟨whole_cons.2 (.inr ⟨hmore, hwhole⟩), Nat.succ_le_succ hle⟩
        · exact .inr (.inl ⟨open_cons.2 ⟨hmore, hopen⟩, congrArg Nat.succ heq⟩)
        · exact .inr (.inr ⟨open_cons.2 ⟨hmore, hopen⟩, Nat.succ_lt_succ hlt, htail⟩)

end Varint

/-! ## Reading them -/

namespace Decode

open Varint

/-! ### One byte -/

section

variable {b : UInt8} (left shift value position : Nat) (rest : List UInt8)

theorem varintFrom_last (h : b < 128) : varintFrom (left + 1) shift value ⟨position, b :: rest⟩ =
    .ok (value + (b.toNat % 128) <<< shift) ⟨position + 1, rest⟩ :=
  (EStateM.bind_of_ok (reads_u8 b position rest)).trans (congrFun (if_pos h) _)

theorem varintFrom_more (h : 128 ≤ b) : varintFrom (left + 1) shift value ⟨position, b :: rest⟩ =
    varintFrom left (shift + 7) (value + (b.toNat % 128) <<< shift) ⟨position + 1, rest⟩ :=
  (EStateM.bind_of_ok (reads_u8 b position rest)).trans (congrFun (if_neg (Nat.not_lt.2 h)) _)

end

/-! ### All bytes -/

variable {bytes : List UInt8} {left : Nat}

/-- The bytes of an integer, if there are no more of them than there may be, give the number that they write. -/
theorem varintFrom_whole (hbytes : Whole bytes) (hleft : bytes.length ≤ left) (shift value position : Nat)
    (tail : List UInt8) : varintFrom left shift value ⟨position, bytes ++ tail⟩ =
      .ok (value + Varint.value bytes <<< shift) ⟨position + bytes.length, tail⟩ := by
  induction bytes generalizing left shift value position with
  | nil => exact absurd hbytes not_whole_nil
  | cons b rest ih =>
    obtain ⟨left, rfl⟩ := Nat.exists_eq_add_of_le' (Nat.le_trans (Nat.succ_pos _) hleft)
    rw [List.cons_append, List.length_cons, value_cons, shiftLeft_group]
    rcases whole_cons.1 hbytes with ⟨hlast, rfl⟩ | ⟨hmore, hrest⟩
    · rw [varintFrom_last left shift value position _ hlast]
      simp [Varint.value]
    · rw [varintFrom_more left shift value position _ hmore, ih hrest (Nat.le_of_succ_le_succ hleft), Nat.add_assoc,
        Nat.add_assoc position, Nat.add_comm 1]

/-- As many bytes as there may be, and the last of them asks for one more. -/
theorem varintFrom_open (hbytes : Open bytes) (shift value position : Nat) (tail : List UInt8) :
    varintFrom bytes.length shift value ⟨position, bytes ++ tail⟩ =
      .error (.invalidU30 (position + bytes.length)) ⟨position + bytes.length, tail⟩ := by
  induction bytes generalizing shift value position with
  | nil => rfl
  | cons b rest ih =>
    obtain ⟨hmore, hrest⟩ := open_cons.1 hbytes
    rw [List.cons_append, List.length_cons, varintFrom_more rest.length shift value position _ hmore, ih hrest,
      Nat.add_assoc, Nat.add_comm 1]

/-- The bytes end where one more is asked for. -/
theorem varintFrom_starved (hbytes : Open bytes) (hleft : bytes.length < left) (shift value position : Nat) :
    varintFrom left shift value ⟨position, bytes⟩ =
      .error (.truncated (position + bytes.length)) ⟨position + bytes.length, []⟩ := by
  induction bytes generalizing left shift value position with
  | nil =>
    obtain ⟨left, rfl⟩ := Nat.exists_eq_add_of_le' hleft
    rfl
  | cons b rest ih =>
    obtain ⟨left, rfl⟩ := Nat.exists_eq_add_of_le' (Nat.le_trans (Nat.succ_pos _) hleft)
    obtain ⟨hmore, hrest⟩ := open_cons.1 hbytes
    rw [List.length_cons, varintFrom_more left shift value position _ hmore, ih hrest (Nat.lt_of_succ_lt_succ hleft),
      Nat.add_assoc, Nat.add_comm 1]

/-! ## The check of the range -/

section

variable {s s' : Source} {v : Nat} {tail : List UInt8}

/-- What is left of a number in thirty-two bits decides whether it is in range. -/
theorem u30_whole (hrest : s.rest = bytes ++ tail) (hbytes : Whole bytes) (hfive : bytes.length ≤ 5) :
    u30 s = if Varint.value bytes % 0x100000000 < 0x40000000 then
        .ok (Varint.value bytes % 0x100000000) ⟨s.position + bytes.length, tail⟩
      else .error (.invalidU30 s.position) ⟨s.position + bytes.length, tail⟩ := by
  have hposition : Decode.position s = .ok s.position s := rfl
  have hread := varintFrom_whole hbytes hfive 0 0 s.position tail
  rw [Nat.zero_add, Nat.shiftLeft_zero, ← hrest] at hread
  have hu32 : u32 s = .ok (Varint.value bytes % 0x100000000) ⟨s.position + bytes.length, tail⟩ :=
    EStateM.bind_of_ok hread
  refine (EStateM.bind_of_ok hposition).trans ((EStateM.bind_of_ok hu32).trans ?_)
  by_cases hlow : Varint.value bytes % 0x100000000 < 0x40000000
  · rw [if_pos hlow, if_neg (Nat.not_le.2 hlow)]
    rfl
  · rw [if_neg hlow, if_pos (Nat.le_of_not_lt hlow)]
    rfl

theorem u30_of_error {e : ModuleError} (h : varintFrom 5 0 0 s = .error e s') : u30 s = .error e s' := by
  have hposition : Decode.position s = .ok s.position s := rfl
  have hu32 : u32 s = .error e s' := by rw [u32, EStateM.bind_apply, h]
  rw [u30, EStateM.bind_of_ok hposition, EStateM.bind_apply, hu32]

/-- Whatever is read has been written in whole, in five bytes at most. -/
theorem exists_whole_of_u30 (h : u30 s = .ok v s') : ∃ bytes, s.rest = bytes ++ s'.rest ∧
    s'.position = s.position + bytes.length ∧ Whole bytes ∧ bytes.length ≤ 5 ∧
    v = Varint.value bytes % 0x100000000 ∧ v < 0x40000000 := by
  obtain ⟨position, rest⟩ := s
  obtain ⟨bytes, tail, rfl, ⟨hwhole, hfive⟩ | ⟨hopen, hfive⟩ | ⟨hopen, hfive, rfl⟩⟩ := exists_split 5 rest
  · rw [u30_whole rfl hwhole hfive] at h
    split at h
    · obtain ⟨rfl, rfl⟩ := EStateM.Result.ok.inj h
      exact ⟨bytes, rfl, rfl, hwhole, hfive, rfl, ‹_›⟩
    · cases h
  · have herror := varintFrom_open hopen 0 0 position tail
    rw [hfive] at herror
    rw [u30_of_error herror] at h
    cases h
  · have herror := varintFrom_starved hopen hfive 0 0 position
    rw [List.append_nil, u30_of_error herror] at h
    cases h

end

/-- At this place the range is checked: what is read is exactly the number that the bytes write, and below 2^30; bytes
that write a larger one are refused, and so are five bytes that all ask for another. -/
structure RangeChecked (s : Source) : Prop where
  read : ∀ v s', u30 s = .ok v s' → ∃ bytes, s.rest = bytes ++ s'.rest ∧
    s'.position = s.position + bytes.length ∧ Whole bytes ∧ v = Varint.value bytes ∧ v < 0x40000000
  refused : ∀ bytes tail, s.rest = bytes ++ tail → Whole bytes → bytes.length ≤ 5 →
    0x40000000 ≤ Varint.value bytes → u30 s = .error (.invalidU30 s.position) ⟨s.position + bytes.length, tail⟩
  unending : ∀ bytes tail, s.rest = bytes ++ tail → Open bytes → bytes.length = 5 →
    u30 s = .error (.invalidU30 (s.position + 5)) ⟨s.position + 5, tail⟩

/-- An encoding is read or refused by what thirty-two bits keep of its number, so the range is checked just where the
fifth byte has no bits above them or what they keep is out of range as well. -/
theorem u30_checks_lowest_bits (s : Source) :
    (RangeChecked s ↔ ∀ bytes tail, s.rest = bytes ++ tail → Whole bytes → bytes.length ≤ 5 →
      Narrow bytes ∨ 0x40000000 ≤ Varint.value bytes % 0x100000000) ∧
    ∀ bytes tail, s.rest = bytes ++ tail → Whole bytes → bytes.length ≤ 5 → u30 s =
      if Varint.value bytes % 0x100000000 < 0x40000000 then
        .ok (Varint.value bytes % 0x100000000) ⟨s.position + bytes.length, tail⟩
      else .error (.invalidU30 s.position) ⟨s.position + bytes.length, tail⟩ := by
  refine ⟨⟨fun hchecked bytes tail hrest hbytes hfive => ?_, fun h => ⟨?_, ?_, ?_⟩⟩, fun _ _ => u30_whole⟩
  · by_contra hkept
    obtain ⟨hwide, hlow⟩ := not_or.1 hkept
    have hlarge : 0x100000000 ≤ Varint.value bytes :=
      Nat.le_of_not_lt fun hlt => hwide ((hbytes.value_lt_iff hfive).1 hlt)
    have hread := u30_whole hrest hbytes hfive
    rw [if_pos (Nat.lt_of_not_le hlow)] at hread
    have herror := hchecked.refused bytes tail hrest hbytes hfive (Nat.le_trans (by decide) hlarge)
    exact nomatch hread.symm.trans herror
  · intro v s' hread
    obtain ⟨bytes, hrest, hposition, hbytes, hfive, hvalue, hlt⟩ := exists_whole_of_u30 hread
    refine ⟨bytes, hrest, hposition, hbytes, ?_, hlt⟩
    rcases h bytes s'.rest hrest hbytes hfive with hnarrow | hlarge
    · rw [hvalue, Nat.mod_eq_of_lt ((hbytes.value_lt_iff hfive).2 hnarrow)]
    · exact absurd hlt (Nat.not_lt.2 (hvalue ▸ hlarge))
  · intro bytes tail hrest hbytes hfive hlarge
    have hkept : 0x40000000 ≤ Varint.value bytes % 0x100000000 := by
      rcases h bytes tail hrest hbytes hfive with hnarrow | hkept
      · rwa [Nat.mod_eq_of_lt ((hbytes.value_lt_iff hfive).2 hnarrow)]
      · exact hkept
    rw [u30_whole hrest hbytes hfive, if_neg (Nat.not_lt.2 hkept)]
  · intro bytes tail hrest hbytes hfive
    have herror := varintFrom_open hbytes 0 0 s.position tail
    rw [hfive, ← hrest] at herror
    exact u30_of_error herror

/-- Thirty-two bits that are all set. -/
def allSet : List UInt8 :=
  [0xff, 0xff, 0xff, 0xff, 0x0f]

theorem allSet_is_refused :
    0x40000000 ≤ Varint.value allSet ∧ RangeChecked (.ofBytes allSet) ∧
      u30 (.ofBytes allSet) = .error (.invalidU30 0) ⟨5, []⟩ := by
  have hwhole : Whole allSet := ⟨[0xff, 0xff, 0xff, 0xff], 0x0f, rfl, by simp [Open], by decide⟩
  have hlarge : 0x40000000 ≤ Varint.value allSet := by decide
  have hchecked : RangeChecked (.ofBytes allSet) := by
    refine (u30_checks_lowest_bits _).1.2 fun bytes tail hrest _ _ => .inl fun b hb => ?_
    obtain ⟨hfive, _⟩ := List.getElem?_eq_some_iff.1 hb
    have hfifth : (bytes ++ tail)[4]? = bytes[4]? := List.getElem?_append_left hfive
    rw [← hfifth, ← hrest] at hb
    obtain rfl : 0x0f = b := Option.some.inj hb
    decide
  exact ⟨hlarge, hchecked, hchecked.refused allSet [] rfl hwhole (by decide) hlarge⟩

/-- The thirty-third bit and no other. -/
def oneAbove : List UInt8 :=
  [0x80, 0x80, 0x80, 0x80, 0x10]

/-- A number with the thirty-third bit set is read as what is left of it. -/
theorem oneAbove_is_read_as_zero :
    Whole oneAbove ∧ oneAbove.length ≤ 5 ∧ Varint.value oneAbove = 0x100000000 ∧
      u30 (.ofBytes oneAbove) = .ok 0 ⟨5, []⟩ ∧ ¬ RangeChecked (.ofBytes oneAbove) := by
  have hwhole : Whole oneAbove := ⟨[0x80, 0x80, 0x80, 0x80], 0x10, rfl, by simp [Open], by decide⟩
  have hvalue : Varint.value oneAbove = 0x100000000 := by decide
  have hread : u30 (.ofBytes oneAbove) = .ok 0 ⟨5, []⟩ := rfl
  refine ⟨hwhole, by decide, hvalue, hread, fun hchecked => ?_⟩
  have herror := hchecked.refused oneAbove [] rfl hwhole (by decide) (by rw [hvalue]; decide)
  exact nomatch hread.symm.trans herror

end Decode

end MovieVm.Bytecode
