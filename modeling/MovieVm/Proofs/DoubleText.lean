import MovieVm.Decimal.Layout
import MovieVm.Proofs.Numeral
import MovieVm.Proofs.Shortest

/-!
# Doubles read back

Whatever the layout, the digits of a double and its exponent are read as a decimal in its rounding interval,
and so as the double itself.
-/

namespace MovieVm.Decimal

open Bytecode.Assembly

/-! ## The value of digits -/

theorem digitsValue_append (acc : Nat) (front back : List Char) :
    digitsValue acc (front ++ back) = digitsValue (digitsValue acc front) back :=
  List.foldl_append ..

theorem digitsValue_zeros (acc k : Nat) :
    digitsValue acc (List.replicate k '0') = Nat.pow 10 k * acc := by
  induction k generalizing acc with
  | zero => simp [digitsValue]
  | succ k ih =>
    have hzero : digitValue '0' = 0 := by decide
    have hstep : digitsValue acc (List.replicate (k + 1) '0') =
        digitsValue (10 * acc) (List.replicate k '0') := by
      simp [digitsValue, List.replicate_succ, hzero]
    rw [hstep, ih, Nat.pow_eq, Nat.pow_eq, Nat.pow_succ, Nat.mul_assoc]

/-! ## Whole part, fraction and exponent -/

/-- What may follow the digits of a number. -/
def EndsDigits (rest : List Char) : Prop :=
  ∀ c, rest.head? = some c → c.isDigit = false

theorem takeWhile_digits {digits rest : List Char} (h : ∀ c ∈ digits, c.isDigit) (hrest : EndsDigits rest) :
    (digits ++ rest).takeWhile Char.isDigit = digits ∧ (digits ++ rest).dropWhile Char.isDigit = rest := by
  rw [List.takeWhile_append_of_pos h, List.dropWhile_append_of_pos h]
  cases rest with
  | nil => simp
  | cons c rest =>
    have hc := hrest c rfl
    simp [hc]

variable {whole fraction tail : List Char} {e : Int}

/-- A number with a point is read as the digits of both of its parts. -/
theorem readMagnitude?_point (negative : Bool) (hwhole : ∀ c ∈ whole, c.isDigit) (hne : whole ≠ [])
    (hfraction : ∀ c ∈ fraction, c.isDigit) (htail : EndsDigits tail) (he : readExponent? tail = some e) :
    readMagnitude? negative (whole ++ '.' :: (fraction ++ tail)) =
      some (Double.ofDecimal negative (digitsValue 0 (whole ++ fraction)) (e - fraction.length)) := by
  have hpoint : EndsDigits ('.' :: (fraction ++ tail)) := by
    intro c hc
    obtain rfl := Option.some.inj hc
    decide
  obtain ⟨htake, hdrop⟩ := takeWhile_digits hwhole hpoint
  obtain ⟨htake', hdrop'⟩ := takeWhile_digits hfraction htail
  simp [readMagnitude?, htake, hdrop, splitFraction, htake', hdrop', he, hne]

theorem readMagnitude?_whole (negative : Bool) (hwhole : ∀ c ∈ whole, c.isDigit) (hne : whole ≠ [])
    (htail : EndsDigits tail) (hpoint : tail.head? ≠ some '.') (he : readExponent? tail = some e) :
    readMagnitude? negative (whole ++ tail) =
      some (Double.ofDecimal negative (digitsValue 0 whole) e) := by
  obtain ⟨htake, hdrop⟩ := takeWhile_digits hwhole htail
  have hsplit : splitFraction tail = ([], tail) := by
    unfold splitFraction
    split
    · exact absurd rfl hpoint
    · rfl
  simp [readMagnitude?, htake, hdrop, hsplit, he, hne]

theorem toList_toString_of_nonneg {n : Int} (h : 0 ≤ n) :
    (toString n).toList = Nat.toDigits 10 n.toNat := by
  rw [Int.toString_eq_repr, Int.repr_eq_if, if_pos h, Nat.toList_repr]

theorem toList_toString_of_neg {n : Int} (h : n < 0) :
    (toString n).toList = '-' :: Nat.toDigits 10 (-n).toNat := by
  rw [Int.toString_eq_repr, Int.repr_eq_if, if_neg (by omega), String.toList_append, Nat.toList_repr]
  rfl

/-- An exponent that is written is read, with a sign before it or without. -/
theorem readExponent?_toString (point : Int) (signs : Bool) :
    readExponent? ('e' :: ((if signs && 0 < point then "+" else "").toList ++ (toString (point - 1)).toList)) =
      some (point - 1) := by
  have hplus : "+".toList = ['+'] := by decide
  have hblank : "".toList = [] := by decide
  rcases Int.lt_or_le (point - 1) 0 with hneg | hpos
  · have hsign : (signs && decide (0 < point)) = false := by
      simp
      omega
    rw [hsign, toList_toString_of_neg hneg, if_neg (by decide), hblank]
    simp [readExponent?, readDigits?_toDigits]
    omega
  · -- A sign stands before a positive point only, and a negative exponent has its own.
    rw [toList_toString_of_nonneg hpos]
    split
    · simp [hplus, readExponent?, readDigits?_toDigits]
      omega
    · obtain ⟨c, rest, hdigits, hc⟩ := exists_toDigits_eq_cons (point - 1).toNat
      have hnoplus : c ≠ '+' := fun heq => absurd (heq ▸ hc) (by decide)
      have hnominus : c ≠ '-' := fun heq => absurd (heq ▸ hc) (by decide)
      have hread := readDigits?_toDigits (point - 1).toNat
      rw [hdigits] at hread ⊢
      simp [hblank, readExponent?, hnoplus, hnominus, hread]
      omega

theorem endsDigits_exponent (rest : List Char) : EndsDigits ('e' :: rest) := by
  intro c hc
  obtain rfl := Option.some.inj hc
  decide

/-! ## Digits and point -/

variable {x : Double} (l : Layout)

theorem isDigit_zeros {n : Nat} : ∀ c ∈ List.replicate n '0', c.isDigit := by
  intro c hc
  rw [List.eq_of_mem_replicate hc]
  decide

theorem forall_isDigit_append {front back : List Char} (hfront : ∀ c ∈ front, c.isDigit)
    (hback : ∀ c ∈ back, c.isDigit) : ∀ c ∈ front ++ back, c.isDigit :=
  fun c hc => (List.mem_append.1 hc).elim (hfront c) (hback c)

theorem endsDigits_nil : EndsDigits [] := by
  intro c hc
  cases hc

theorem readExponent?_nil : readExponent? [] = some 0 := rfl

theorem toList_zeros (n : Nat) : (zeros n).toList = List.replicate n '0' :=
  String.toList_ofList ..

section

variable {digits : List Char} {point : Int} (negative : Bool)

/-- The text is read as the decimal that the digits came from, or as one with more zeros. -/
def ReadsScaled (digits : List Char) (point : Int) (negative : Bool) (text : List Char) : Prop :=
  ∃ k : Nat, readMagnitude? negative text =
    some (Double.ofDecimal negative (Nat.pow 10 k * digitsValue 0 digits) (point - digits.length - k))

theorem ReadsScaled.of_eq {text : List Char} {n : Nat} {exponent : Int} (k : Nat)
    (h : readMagnitude? negative text = some (Double.ofDecimal negative n exponent))
    (hn : n = Nat.pow 10 k * digitsValue 0 digits) (hexponent : exponent = point - digits.length - k) :
    ReadsScaled digits point negative text := by
  subst hn hexponent
  exact ⟨k, h⟩

variable (hdigits : ∀ c ∈ digits, c.isDigit) (hne : digits ≠ [])

include hdigits

theorem readsScaled_fraction (hpoint : point ≤ 0) :
    ReadsScaled digits point negative ("0." ++ zeros (-point).toNat ++ String.ofList digits).toList := by
  have hfraction : ∀ c ∈ List.replicate (-point).toNat '0' ++ digits, c.isDigit :=
    forall_isDigit_append isDigit_zeros hdigits
  have hwhole : ∀ c ∈ ['0'], c.isDigit := by simp
  have htext : ("0." ++ zeros (-point).toNat ++ String.ofList digits).toList =
      ['0'] ++ '.' :: (List.replicate (-point).toNat '0' ++ digits ++ []) := by
    have hzero : "0.".toList = ['0', '.'] := by decide
    simp [hzero, toList_zeros]
  rw [htext]
  refine .of_eq negative 0
    (readMagnitude?_point negative hwhole (by simp) hfraction endsDigits_nil readExponent?_nil) ?_ ?_
  · have hzero : digitsValue 0 ['0'] = 0 := by decide
    -- Zeros in front do not count, whether before the point or behind it.
    rw [digitsValue_append, digitsValue_append, hzero, digitsValue_zeros, Nat.mul_zero, Nat.pow_eq,
      Nat.pow_zero, Nat.one_mul]
  · rw [List.length_append, List.length_replicate]
    omega

include hne

theorem readsScaled_whole (hpoint : 0 < point) (hlength : digits.length ≤ point.toNat) :
    ReadsScaled digits point negative (String.ofList digits ++ zeros (point.toNat - digits.length) ++
      if l.keepsPoint then ".0" else "").toList := by
  have hpadded : ∀ c ∈ digits ++ List.replicate (point.toNat - digits.length) '0', c.isDigit :=
    forall_isDigit_append hdigits isDigit_zeros
  have hpaddedNe : digits ++ List.replicate (point.toNat - digits.length) '0' ≠ [] := by simp [hne]
  -- With a point there is one zero more than the point asks for.
  cases l.keepsPoint with
  | true =>
    have htext : (String.ofList digits ++ zeros (point.toNat - digits.length) ++
        if true = true then ".0" else "").toList =
        digits ++ List.replicate (point.toNat - digits.length) '0' ++
          '.' :: (List.replicate 1 '0' ++ []) := by
      have hzero : ".0".toList = ['.', '0'] := by decide
      simp [hzero, toList_zeros]
    rw [htext]
    refine .of_eq negative (point.toNat - digits.length + 1)
      (readMagnitude?_point negative hpadded hpaddedNe isDigit_zeros endsDigits_nil readExponent?_nil) ?_ ?_
    · rw [digitsValue_append, digitsValue_append, digitsValue_zeros, digitsValue_zeros, Nat.pow_eq,
        Nat.pow_eq, Nat.pow_eq, ← Nat.mul_assoc, ← Nat.pow_add, Nat.add_comm 1]
    · rw [List.length_replicate]
      omega
  | false =>
    have htext : (String.ofList digits ++ zeros (point.toNat - digits.length) ++
        if false = true then ".0" else "").toList =
        digits ++ List.replicate (point.toNat - digits.length) '0' ++ [] := by
      simp [toList_zeros]
    rw [htext]
    refine .of_eq negative (point.toNat - digits.length)
      (readMagnitude?_whole negative hpadded hpaddedNe endsDigits_nil (by simp) readExponent?_nil) ?_ ?_
    · rw [digitsValue_append, digitsValue_zeros]
    · omega

theorem readsScaled_split (hpoint : 0 < point) (hlength : point.toNat < digits.length) :
    ReadsScaled digits point negative (String.ofList (digits.take point.toNat) ++ "." ++
      String.ofList (digits.drop point.toNat)).toList := by
  have htake : ∀ c ∈ digits.take point.toNat, c.isDigit :=
    fun c hc => hdigits c (List.mem_of_mem_take hc)
  have hdrop : ∀ c ∈ digits.drop point.toNat, c.isDigit :=
    fun c hc => hdigits c (List.mem_of_mem_drop hc)
  have htakeNe : digits.take point.toNat ≠ [] := by
    simp only [ne_eq, List.take_eq_nil_iff, not_or]
    exact ⟨by omega, hne⟩
  have htext : (String.ofList (digits.take point.toNat) ++ "." ++
      String.ofList (digits.drop point.toNat)).toList =
      digits.take point.toNat ++ '.' :: (digits.drop point.toNat ++ []) := by
    have hdot : ".".toList = ['.'] := by decide
    simp [hdot]
  rw [htext]
  refine .of_eq negative 0
    (readMagnitude?_point negative htake htakeNe hdrop endsDigits_nil readExponent?_nil) ?_ ?_
  · rw [List.take_append_drop, Nat.pow_eq, Nat.pow_zero, Nat.one_mul]
  · rw [List.length_drop]
    omega

theorem readsScaled_positional : ReadsScaled digits point negative (l.positional digits point).toList := by
  unfold Layout.positional
  simp only
  split
  · rename_i hpoint
    exact readsScaled_fraction negative hdigits hpoint
  · rename_i hpoint
    split
    · rename_i hlength
      exact readsScaled_whole l negative hdigits hne (Int.not_le.1 hpoint) hlength
    · rename_i hlength
      exact readsScaled_split negative hdigits hne (Int.not_le.1 hpoint) (Nat.not_le.1 hlength)

end

/-- The digits of a scientific text are read as the decimal they came from. -/
theorem readMagnitude?_scientific (negative : Bool) {digits : List Char} (hdigits : ∀ c ∈ digits, c.isDigit)
    (hne : digits ≠ []) (point : Int) :
    readMagnitude? negative (l.scientific digits point).toList =
      some (Double.ofDecimal negative (digitsValue 0 digits) (point - digits.length)) := by
  have hexponent := readExponent?_toString point l.signsExponent
  have htail := endsDigits_exponent
    ((if l.signsExponent && 0 < point then "+" else "").toList ++ (toString (point - 1)).toList)
  have hmark : "e".toList = ['e'] := by decide
  unfold Layout.scientific
  cases digits with
  | nil => exact absurd rfl hne
  | cons first rest =>
    obtain ⟨hfirst, hrest⟩ := List.forall_mem_cons.1 hdigits
    have hwhole : ∀ c ∈ [first], c.isDigit := by simpa using hfirst
    -- A single digit has no point behind it.
    cases rest with
    | nil =>
      have hread := readMagnitude?_whole negative hwhole (by simp) htail (by simp) hexponent
      simp only [String.toList_append, String.toList_ofList, hmark, List.cons_append,
        List.nil_append] at hread ⊢
      rw [hread]
      rfl
    | cons second rest =>
      have hread := readMagnitude?_point negative hwhole (by simp) hrest htail hexponent
      simp only [String.toList_append, String.toList_ofList, hmark, List.append_assoc, List.cons_append,
        List.nil_append] at hread ⊢
      rw [hread]
      congr 2
      simp only [List.length_cons]
      omega

/-! ## Doubles -/

theorem readMagnitude?_magnitudeText (negative : Bool) (hfinite : x.isFinite = true) (hzero : x.isZero = false) :
    readMagnitude? negative (l.magnitudeText x).toList =
      some (Double.ofMagnitude negative x.magnitude) := by
  obtain ⟨hne, hholds⟩ := shortest_holds hfinite hzero l.tie
  unfold Layout.magnitudeText
  simp only [Nat.toString_eq_repr, Nat.toList_repr]
  generalize shortest x l.tie = d at hne hholds ⊢
  split
  · -- The text may have more zeros than the shortest digits, and is the same decimal all the same.
    obtain ⟨k, hread⟩ : ReadsScaled _ (d.exponent + (Nat.toDigits 10 d.digits).length) negative _ :=
      readsScaled_positional l negative isDigit_toDigits Nat.toDigits_ne_nil
    have hscaled : (Interval.ofDouble x).Holds (Nat.pow 10 k * d.digits) (d.exponent - k) := by
      rw [Interval.holds_mul_pow, Int.sub_add_cancel]
      exact hholds
    have hscaledNe : Nat.pow 10 k * d.digits ≠ 0 :=
      Nat.mul_ne_zero (Nat.ne_of_gt (Nat.pow_pos (by decide))) hne
    rw [hread, digitsValue_toDigits, Int.add_sub_cancel,
      ofDecimal_of_holds hfinite hzero hscaledNe hscaled]
  · rw [readMagnitude?_scientific l negative isDigit_toDigits Nat.toDigits_ne_nil, digitsValue_toDigits,
      Int.add_sub_cancel, ofDecimal_of_holds hfinite hzero hne hholds]

/-- A magnitude that is read begins with no sign. -/
theorem head?_of_readMagnitude? {negative : Bool} {body : List Char} {y : Double}
    (h : readMagnitude? negative body = some y) (sign : Char) (hsign : sign = '+' ∨ sign = '-') :
    body.head? ≠ some sign := by
  intro hhead
  obtain ⟨rest, rfl⟩ := List.head?_eq_some_iff.1 hhead
  rcases hsign with rfl | rfl
  · have hdigit : '+'.isDigit = false := by decide
    simp [readMagnitude?, splitFraction, hdigit] at h
  · have hdigit : '-'.isDigit = false := by decide
    simp [readMagnitude?, splitFraction, hdigit] at h

theorem readDouble?_magnitude {body : List Char} {magnitude : Nat} (negative : Bool)
    (h : ∀ negative, readMagnitude? negative body = some (Double.ofMagnitude negative magnitude)) :
    readDouble? ((if negative then "-" else "").toList ++ body) =
      some (Double.ofMagnitude negative magnitude) := by
  have hminus : "-".toList = ['-'] := by decide
  have hblank : "".toList = [] := by decide
  cases negative with
  | true => simp [hminus, readDouble?, h]
  | false =>
    -- Without a sign in the text the reader must not find one.
    have hplus := head?_of_readMagnitude? (h false) '+' (.inl rfl)
    have hdash := head?_of_readMagnitude? (h false) '-' (.inr rfl)
    rw [if_neg (by decide), hblank, List.nil_append, readDouble?.eq_def]
    split
    rename_i hsign
    split at hsign
    · exact absurd rfl hplus
    · exact absurd rfl hdash
    · obtain ⟨rfl, rfl⟩ := Prod.mk.inj hsign
      rw [h]

theorem readDouble?_infinity (negative : Bool) :
    readDouble? ((if negative then "-" else "").toList ++ "inf".toList) =
      some (Double.ofMagnitude negative Double.infinityMagnitude) := by
  cases negative <;> decide

/-- The text of a double is read as that double, unless it is NaN. -/
theorem readDouble?_text (hinfinity : l.infinityText = "inf") (h : x.isNaN = false) :
    readDouble? (l.text x).toList = some x := by
  have hsame := Double.ofMagnitude_magnitude x
  unfold Layout.text
  simp only [h, Bool.false_eq_true, if_false]
  by_cases hinfinite : x.isInfinite = true
  · have hmagnitude : x.magnitude = Double.infinityMagnitude := of_decide_eq_true hinfinite
    rw [if_pos hinfinite, hinfinity, String.toList_append, readDouble?_infinity, ← hmagnitude, hsame]
  · rw [if_neg hinfinite]
    have hfinite : x.isFinite = true := by
      simp only [Double.isNaN, Double.isInfinite, Double.isFinite, decide_eq_false_iff_not,
        decide_eq_true_eq] at h hinfinite ⊢
      omega
    -- Zero has no digits to be shortened, and its sign is all there is to keep.
    by_cases hzero : x.isZero = true
    · have hmagnitude : x.magnitude = 0 := of_decide_eq_true hzero
      have hread : ∀ negative, readMagnitude? negative (if l.keepsPoint then "0.0" else "0").toList =
          some (Double.ofMagnitude negative 0) := by
        intro negative
        cases l.keepsPoint <;> cases negative <;> rfl
      rw [if_pos hzero, String.toList_append, readDouble?_magnitude _ hread, ← hmagnitude, hsame]
    · rw [if_neg hzero, String.toList_append, readDouble?_magnitude _ fun negative =>
        readMagnitude?_magnitudeText l negative hfinite (by simpa using hzero), hsame]

theorem readDouble?_literal (h : x.isNaN = false) : readDouble? (Layout.literal.text x).toList = some x :=
  readDouble?_text Layout.literal rfl h

/-! ## Doubles as pieces of a line -/

theorem isSolid_toString {n : Int} : ∀ c ∈ (toString n).toList, isSolid c := by
  intro c hc
  rcases Int.lt_or_le n 0 with hneg | hpos
  · rw [toList_toString_of_neg hneg] at hc
    rcases List.mem_cons.1 hc with rfl | hc
    · decide
    · exact isSolid_of_isDigit (isDigit_toDigits c hc)
  · rw [toList_toString_of_nonneg hpos] at hc
    exact isSolid_of_isDigit (isDigit_toDigits c hc)

theorem isSolid_positional {digits : List Char} (h : ∀ c ∈ digits, c.isDigit) (point : Int) :
    ∀ c ∈ (l.positional digits point).toList, isSolid c := by
  have hdigits : ∀ c ∈ digits, isSolid c := fun c hc => isSolid_of_isDigit (h c hc)
  have hzeros : ∀ n, ∀ c ∈ (zeros n).toList, isSolid c := by
    intro n c hc
    rw [zeros, String.toList_ofList] at hc
    exact isSolid_of_isDigit (isDigit_zeros c hc)
  have hstart : ∀ c ∈ "0.".toList, isSolid c := List.all_eq_true.1 (by decide)
  have hpoint : ∀ c ∈ ".".toList, isSolid c := List.all_eq_true.1 (by decide)
  have hend : ∀ c ∈ (if l.keepsPoint then ".0" else "").toList, isSolid c := by
    cases l.keepsPoint <;> exact List.all_eq_true.1 (by decide)
  unfold Layout.positional
  simp only
  split
  · simpa only [String.toList_append, String.toList_ofList, List.forall_mem_append] using
      ⟨⟨hstart, hzeros _⟩, hdigits⟩
  · split
    · simpa only [String.toList_append, String.toList_ofList, List.forall_mem_append] using
        ⟨⟨hdigits, hzeros _⟩, hend⟩
    · simpa only [String.toList_append, String.toList_ofList, List.forall_mem_append] using
        ⟨⟨fun c hc => hdigits c (List.mem_of_mem_take hc), hpoint⟩,
          fun c hc => hdigits c (List.mem_of_mem_drop hc)⟩

theorem isSolid_scientific {digits : List Char} (h : ∀ c ∈ digits, c.isDigit) (point : Int) :
    ∀ c ∈ (l.scientific digits point).toList, isSolid c := by
  have hdigits : ∀ c ∈ digits, isSolid c := fun c hc => isSolid_of_isDigit (h c hc)
  have hmark : ∀ c ∈ "e".toList, isSolid c := List.all_eq_true.1 (by decide)
  have hpoint : isSolid '.' := by decide
  have hsign : ∀ c ∈ (if l.signsExponent && 0 < point then "+" else "").toList, isSolid c := by
    split <;> exact List.all_eq_true.1 (by decide)
  unfold Layout.scientific
  simp only [String.toList_append, List.forall_mem_append]
  refine ⟨⟨⟨?_, hmark⟩, hsign⟩, isSolid_toString⟩
  split
  · obtain ⟨hfirst, hrest⟩ := List.forall_mem_cons.1 hdigits
    rw [String.toList_ofList]
    exact List.forall_mem_cons.2 ⟨hfirst, List.forall_mem_cons.2 ⟨hpoint, hrest⟩⟩
  · rw [String.toList_ofList]
    exact hdigits

/-- The literal of a double is one piece of a line. -/
theorem piece_literal (x : Double) : Piece (Layout.literal.text x).toList := by
  have hne : (Layout.literal.text x).toList ≠ [] := by
    cases hnan : x.isNaN with
    | true => simp [Layout.text, hnan, Layout.literal]
    | false =>
      intro hnil
      -- An empty text would not be read as a double, and this one is.
      have hread := readDouble?_literal hnan
      rw [hnil] at hread
      exact absurd hread (by simp [readDouble?, readMagnitude?, wordMagnitude?, splitFraction])
  refine .solid hne ?_
  have hsign : ∀ c ∈ (if x.isNegative then "-" else "").toList, isSolid c := by
    cases x.isNegative <;> exact List.all_eq_true.1 (by decide)
  have hinfinity : ∀ c ∈ "inf".toList, isSolid c := List.all_eq_true.1 (by decide)
  have hzero : ∀ c ∈ "0.0".toList, isSolid c := List.all_eq_true.1 (by decide)
  unfold Layout.text
  simp only
  split
  · exact List.all_eq_true.1 (by decide)
  · split
    · simpa only [String.toList_append, List.forall_mem_append] using ⟨hsign, hinfinity⟩
    · split
      · simpa only [String.toList_append, List.forall_mem_append] using ⟨hsign, hzero⟩
      · rw [String.toList_append, List.forall_mem_append]
        refine ⟨hsign, ?_⟩
        unfold Layout.magnitudeText
        simp only [Nat.toString_eq_repr, Nat.toList_repr]
        split
        · exact isSolid_positional Layout.literal isDigit_toDigits _
        · exact isSolid_scientific Layout.literal isDigit_toDigits _

end MovieVm.Decimal
