import MovieVm.Proofs.Utf8

/-!
# Lossy reading of UTF-8

What a text encodes is read back without a loss, and a text that is read without a loss byte for byte has
the bytes of its characters.
-/

namespace MovieVm.Text

/-! ## Characters of several bytes -/

namespace Lead

variable {n : Nat}

theorem toNat_ofNat_add {k : Nat} (h : n + k < 256) : (UInt8.ofNat (n + k)).toNat = n + k := by
  rw [UInt8.toNat_ofNat']
  omega

theorem ofByte?_two (hlow : 2 ≤ n) (hhigh : n < 32) :
    ofByte? (UInt8.ofNat (n + 192)) = some ⟨1, 0x80, 0xbf, n⟩ := by
  have hb : (UInt8.ofNat (n + 192)).toNat = n + 192 := toNat_ofNat_add (by omega)
  simp only [ofByte?, UInt8.lt_iff_toNat_lt, ← UInt8.toNat_inj, hb, UInt8.reduceToNat]
  rw [if_neg (by omega), if_neg (by omega), if_pos (by omega), Nat.add_sub_cancel]

theorem ofByte?_three (h : n < 16) : ofByte? (UInt8.ofNat (n + 224)) =
    some ⟨2, if n = 0 then 0xa0 else 0x80, if n = 13 then 0x9f else 0xbf, n⟩ := by
  have hb : (UInt8.ofNat (n + 224)).toNat = n + 224 := toNat_ofNat_add (by omega)
  simp only [ofByte?, UInt8.lt_iff_toNat_lt, ← UInt8.toNat_inj, hb, UInt8.reduceToNat]
  rw [if_neg (by omega), if_neg (by omega), if_neg (by omega)]
  split
  · rename_i hzero
    obtain rfl : n = 0 := by omega
    rfl
  · split
    · rename_i hthirteen
      obtain rfl : n = 13 := by omega
      rfl
    · rw [if_pos (by omega), if_neg (by omega), if_neg (by omega), Nat.add_sub_cancel]

theorem ofByte?_four (h : n < 5) : ofByte? (UInt8.ofNat (n + 240)) =
    some ⟨3, if n = 0 then 0x90 else 0x80, if n = 4 then 0x8f else 0xbf, n⟩ := by
  match n, h with
  | 0, _ | 1, _ | 2, _ | 3, _ | 4, _ => rfl

end Lead

theorem decodeLossy_single {n : Nat} (h : n < 128) (rest : List UInt8) :
    decodeLossy none (UInt8.ofNat n :: rest) = Char.ofNat n :: decodeLossy none rest := by
  have hb : (UInt8.ofNat n).toNat = n := Lead.toNat_ofNat_add (k := 0) (by omega)
  have hlead : Lead.ofByte? (UInt8.ofNat n) = some ⟨0, 0x80, 0xbf, n⟩ := by
    simp only [Lead.ofByte?, UInt8.lt_iff_toNat_lt, hb, UInt8.reduceToNat]
    rw [if_pos h]
  simp [decodeLossy, hlead]

theorem decodeLossy_lead {b : UInt8} {lead : Lead} (hlead : Lead.ofByte? b = some lead)
    (hfollow : lead.follow ≠ 0) (rest : List UInt8) :
    decodeLossy none (b :: rest) = decodeLossy (some lead) rest := by
  simp [decodeLossy, hlead, hfollow]

section

variable {low high : UInt8} {value n : Nat}

/-- A byte that continues a character adds six bits to it. -/
theorem decodeLossy_follow (follow : Nat) (hn : n < 64) (hlow : low.toNat ≤ n + 128)
    (hhigh : n + 128 ≤ high.toNat) (rest : List UInt8) :
    decodeLossy (some ⟨follow, low, high, value⟩) (UInt8.ofNat (n + 128) :: rest) =
      if follow = 1 then Char.ofNat (value * 64 + n) :: decodeLossy none rest
      else decodeLossy (some ⟨follow - 1, 0x80, 0xbf, value * 64 + n⟩) rest := by
  have hb : (UInt8.ofNat (n + 128)).toNat = n + 128 := Lead.toNat_ofNat_add (by omega)
  generalize UInt8.ofNat (n + 128) = b at hb
  have htakes : (some ⟨follow, low, high, value⟩ : Option Lead).filter (·.takes b) =
      some ⟨follow, low, high, value⟩ := by
    simp only [Lead.takes, Option.filter_eq_some_iff, Bool.and_eq_true, decide_eq_true_eq,
      UInt8.le_iff_toNat_le, hb, true_and]
    exact ⟨hlow, hhigh⟩
  rw [decodeLossy, htakes, hb, Nat.add_sub_cancel]

theorem decodeLossy_more (follow : Nat) (hn : n < 64) (hlow : low.toNat ≤ n + 128)
    (hhigh : n + 128 ≤ high.toNat) (rest : List UInt8) :
    decodeLossy (some ⟨follow + 2, low, high, value⟩) (UInt8.ofNat (n + 128) :: rest) =
      decodeLossy (some ⟨follow + 1, 0x80, 0xbf, value * 64 + n⟩) rest := by
  rw [decodeLossy_follow _ hn hlow hhigh, if_neg (by omega)]
  rfl

theorem decodeLossy_last (hn : n < 64) (hlow : low.toNat ≤ n + 128) (hhigh : n + 128 ≤ high.toNat)
    (rest : List UInt8) :
    decodeLossy (some ⟨1, low, high, value⟩) (UInt8.ofNat (n + 128) :: rest) =
      Char.ofNat (value * 64 + n) :: decodeLossy none rest := by
  rw [decodeLossy_follow _ hn hlow hhigh, if_pos rfl]

/-- The range of all bytes that continue a character. -/
theorem follow_range (hn : n < 64) : (0x80 : UInt8).toNat ≤ n + 128 ∧ n + 128 ≤ (0xbf : UInt8).toNat := by
  simp only [UInt8.reduceToNat]
  omega

end

/-! ## Texts -/

theorem decodeLossy_encodeChar (c : Char) (rest : List UInt8) :
    decodeLossy none (String.utf8EncodeChar c ++ rest) = c :: decodeLossy none rest := by
  have hvalid : c.toNat < 0xd800 ∨ 0xdfff < c.toNat ∧ c.toNat < 0x110000 := c.valid
  -- The first byte has the highest bits, and six more come with each byte that follows.
  have hbits : ∀ {v}, v = c.toNat → Char.ofNat v = c := fun h => h ▸ Char.ofNat_toNat c
  have hsix : ∀ v, v % 64 < 64 := fun v => Nat.mod_lt v (by omega)
  have hrange : ∀ v, (0x80 : UInt8).toNat ≤ v % 64 + 128 ∧ v % 64 + 128 ≤ (0xbf : UInt8).toNat :=
    fun v => follow_range (hsix v)
  rw [String.utf8EncodeChar.eq_1, Char.toNat_val]
  split
  · rw [List.singleton_append, decodeLossy_single (by omega), hbits rfl]
  · split
    · rw [List.cons_append, decodeLossy_lead (Lead.ofByte?_two (by omega) (by omega)) (by simp),
        List.singleton_append, decodeLossy_last (hsix _) (hrange _).1 (hrange _).2, hbits (by omega)]
    · split
      · -- The range of the second byte leaves out overlong forms and surrogates.
        have hlow : (if c.toNat / 4096 % 16 = 0 then (0xa0 : UInt8) else 0x80).toNat ≤
            c.toNat / 64 % 64 + 128 := by
          split <;> simp only [UInt8.reduceToNat] <;> omega
        have hhigh : c.toNat / 64 % 64 + 128 ≤
            (if c.toNat / 4096 % 16 = 13 then (0x9f : UInt8) else 0xbf).toNat := by
          split <;> simp only [UInt8.reduceToNat] <;> omega
        rw [List.cons_append, decodeLossy_lead (Lead.ofByte?_three (by omega)) (by simp), List.cons_append,
          decodeLossy_more _ (hsix _) hlow hhigh, List.singleton_append,
          decodeLossy_last (hsix _) (hrange _).1 (hrange _).2, hbits (by omega)]
      · have hlow : (if c.toNat / 262144 % 8 = 0 then (0x90 : UInt8) else 0x80).toNat ≤
            c.toNat / 4096 % 64 + 128 := by
          split <;> simp only [UInt8.reduceToNat] <;> omega
        have hhigh : c.toNat / 4096 % 64 + 128 ≤
            (if c.toNat / 262144 % 8 = 4 then (0x8f : UInt8) else 0xbf).toNat := by
          split <;> simp only [UInt8.reduceToNat] <;> omega
        rw [List.cons_append, decodeLossy_lead (Lead.ofByte?_four (by omega)) (by simp), List.cons_append,
          decodeLossy_more _ (hsix _) hlow hhigh, List.cons_append,
          decodeLossy_more _ (hsix _) (hrange _).1 (hrange _).2, List.singleton_append,
          decodeLossy_last (hsix _) (hrange _).1 (hrange _).2, hbits (by omega)]

theorem toUtf8_eq_flatMap (s : String) : toUtf8 s = s.toList.flatMap String.utf8EncodeChar := by
  conv => lhs; rw [← String.ofList_toList (s := s)]
  rw [toUtf8_eq, String.toByteArray_ofList, List.utf8Encode, List.data_toByteArray]

theorem decodeLossy_flatMap (cs : List Char) : decodeLossy none (cs.flatMap String.utf8EncodeChar) = cs := by
  induction cs with
  | nil => rfl
  | cons c cs ih => rw [List.flatMap_cons, decodeLossy_encodeChar, ih]

/-- What a text encodes is read back as that text. -/
theorem ofUtf8Lossy_toUtf8 (s : String) : ofUtf8Lossy (toUtf8 s) = s := by
  rw [ofUtf8Lossy, toUtf8_eq_flatMap, decodeLossy_flatMap, String.ofList_toList]

/-! ## Reading without a loss -/

/-- No more characters are read than there are bytes, the lead byte of a pending one included. -/
theorem length_decodeLossy (pending : Option Lead) (bytes : List UInt8) :
    (decodeLossy pending bytes).length ≤ bytes.length + pending.isSome.toNat := by
  fun_induction decodeLossy pending bytes with
  | case1 pending h => simp [h]
  | case2 pending h => simp
  | case3 pending b rest lead hfilter value _ ih =>
    simp only [Option.isSome_none, Bool.toNat_false, List.length_cons] at ih ⊢
    omega
  | case4 pending b rest lead hfilter value _ ih =>
    obtain ⟨hpending, -⟩ := Option.filter_eq_some_iff.1 hfilter
    simp only [hpending, Option.isSome_some, Bool.toNat_true, List.length_cons] at ih ⊢
    omega
  | case5 pending b rest hfilter ihnone ihsome =>
    have hreplaced : (if pending.isSome = true then [replacementChar] else []).length =
        pending.isSome.toNat := by
      cases pending <;> rfl
    rw [List.length_append, hreplaced, List.length_cons]
    simp only [Option.isSome_none, Option.isSome_some, Bool.toNat_false, Bool.toNat_true] at ihnone ihsome
    split
    · simp only [List.length_cons]
      omega
    · rename_i lead _
      split
      · simp only [List.length_cons]
        omega
      · have := ihsome lead
        omega

/-- A character of several bytes leaves fewer characters than bytes, or a replacement. -/
theorem length_of_pending {lead : Lead} {rest : List UInt8}
    (hkept : replacementChar ∉ decodeLossy (some lead) rest) :
    (decodeLossy (some lead) rest).length ≤ rest.length := by
  cases rest with
  | nil => simp [decodeLossy] at hkept
  | cons b rest =>
    have hnone := length_decodeLossy none rest
    have hsome := fun lead => length_decodeLossy (some lead) rest
    simp only [Option.isSome_none, Option.isSome_some, Bool.toNat_false, Bool.toNat_true] at hnone hsome
    cases hfilter : (some lead).filter (·.takes b) with
    | none => simp [decodeLossy, hfilter] at hkept
    | some lead =>
      simp only [decodeLossy, hfilter, List.length_cons]
      split
      · simp only [List.length_cons]
        omega
      · exact hsome _

theorem ofByte?_follow_zero {b : UInt8} {lead : Lead} (hlead : Lead.ofByte? b = some lead)
    (hfollow : lead.follow = 0) : b.toNat < 128 ∧ lead.value = b.toNat := by
  unfold Lead.ofByte? at hlead
  simp only [UInt8.lt_iff_toNat_lt, UInt8.reduceToNat] at hlead
  repeat' split at hlead
  all_goals try cases hlead
  all_goals simp_all

/-- A text that is read from as many bytes, and without a replacement, has one byte for each character. -/
theorem bytes_of_decodeLossy {bytes : List UInt8} (hlength : (decodeLossy none bytes).length = bytes.length)
    (hkept : replacementChar ∉ decodeLossy none bytes) :
    bytes = (decodeLossy none bytes).map fun c => UInt8.ofNat c.toNat := by
  induction bytes with
  | nil => rfl
  | cons b rest ih =>
    simp only [decodeLossy, Option.filter_none, Option.isSome_none, Bool.false_eq_true, if_false,
      List.nil_append] at hlength hkept ⊢
    split at hlength
    · simp_all
    · rename_i lead hlead
      simp only [hlead] at hkept ⊢
      by_cases hfollow : lead.follow = 0
      · obtain ⟨hb, hvalue⟩ := ofByte?_follow_zero hlead hfollow
        simp only [hfollow, if_true, hvalue] at hlength hkept ⊢
        have hascii : ∀ n < 128, (Char.ofNat n).toNat = n := by decide
        rw [List.map_cons, hascii _ hb, UInt8.ofNat_toNat, ← ih (by simpa using hlength)
          (fun hmem => hkept (List.mem_cons_of_mem _ hmem))]
      · simp only [hfollow, if_false] at hlength hkept
        have hfewer := length_of_pending hkept
        simp only [List.length_cons] at hlength
        omega

/-- Only the bytes of a text without replacements, one for each character, are read as that text. -/
theorem eq_of_ofUtf8Lossy {bytes : List UInt8} {s : String} (h : ofUtf8Lossy bytes = s)
    (hlength : s.toList.length = bytes.length) (hkept : replacementChar ∉ s.toList) :
    bytes = s.toList.map fun c => UInt8.ofNat c.toNat := by
  have hread : decodeLossy none bytes = s.toList := by
    rw [← h, ofUtf8Lossy, String.toList_ofList]
  rw [← hread] at hlength hkept ⊢
  exact bytes_of_decodeLossy hlength hkept

end MovieVm.Text
