import MovieVm.Proofs.Rounding

/-!
# Shortest digits round back

The shortest digits of a double are in its rounding interval: each grid that is tried yields a point of the
interval or none, and the finest of the grids is finer than the interval is wide.
-/

namespace MovieVm.Decimal

/-! ## Decimals in an interval -/

/-- The decimal `digits * 10 ^ exponent` lies in the interval. -/
def Interval.Holds (i : Interval) (digits : Nat) (exponent : Int) : Prop :=
  i.has (digits * (quartersOfPower exponent).1) (quartersOfPower exponent).2 = true

variable {i : Interval} {digits : Nat} {exponent : Int} {tie : Tie} {d : Digits}

theorem quartersOfPower_eq (exponent : Int) : quartersOfPower exponent =
    (Nat.pow 10 exponent.toNat <<< 1076, Nat.pow 10 (-exponent).toNat) := by
  unfold quartersOfPower
  split
  · have hnone : (-exponent).toNat = 0 := by omega
    rw [hnone]
  · have hnone : exponent.toNat = 0 := by omega
    rw [hnone]

theorem den_quartersOfPower_pos (exponent : Int) : 0 < (quartersOfPower exponent).2 := by
  rw [quartersOfPower_eq]
  exact Nat.pow_pos (by decide)

theorem num_quartersOfPower_pos (exponent : Int) : 0 < (quartersOfPower exponent).1 := by
  rw [quartersOfPower_eq]
  generalize 1076 = places
  rw [Nat.shiftLeft_eq]
  exact Nat.mul_pos (Nat.pow_pos (by decide)) (Nat.two_pow_pos _)

theorem quartersOfPower_add (exponent : Int) (k : Nat) :
    Nat.pow 10 k * (quartersOfPower exponent).1 * (quartersOfPower (exponent + k)).2 =
      (quartersOfPower (exponent + k)).1 * (quartersOfPower exponent).2 := by
  rw [quartersOfPower_eq, quartersOfPower_eq]
  -- The power of two is kept from being evaluated.
  generalize 1076 = places
  have hsum : k + exponent.toNat + (-(exponent + k)).toNat = (exponent + k).toNat + (-exponent).toNat := by
    omega
  have hpow := congrArg (10 ^ ·) hsum
  simp only [Nat.pow_add] at hpow
  simp only [Nat.shiftLeft_eq, Nat.pow_eq]
  rw [← Nat.mul_assoc, Nat.mul_right_comm, hpow, Nat.mul_right_comm]

theorem Interval.has_mul_right {k num den : Nat} (hk : 0 < k) :
    i.has (num * k) (den * k) = i.has num den := by
  unfold Interval.has
  simp only [← Nat.mul_assoc, Nat.mul_le_mul_right_iff hk, Nat.mul_lt_mul_right hk]

/-- Equal fractions lie in the same intervals. -/
theorem Interval.has_congr {num den num' den' : Nat} (hden : 0 < den) (hden' : 0 < den')
    (h : num * den' = num' * den) : i.has num den = i.has num' den' := by
  rw [← Interval.has_mul_right hden', h, Nat.mul_comm den, Interval.has_mul_right hden]

/-- A power of ten may stand in the digits or in the exponent. -/
theorem Interval.holds_mul_pow (k : Nat) :
    i.Holds (Nat.pow 10 k * digits) exponent ↔ i.Holds digits (exponent + k) := by
  have hsame : Nat.pow 10 k * digits * (quartersOfPower exponent).1 * (quartersOfPower (exponent + k)).2 =
      digits * (quartersOfPower (exponent + k)).1 * (quartersOfPower exponent).2 := by
    rw [Nat.mul_assoc digits, ← quartersOfPower_add, Nat.mul_comm _ digits, Nat.mul_assoc digits,
      Nat.mul_assoc digits]
  have hcongr := Interval.has_congr (i := i) (den_quartersOfPower_pos _) (den_quartersOfPower_pos _) hsame
  unfold Interval.Holds
  rw [hcongr]

theorem Digits.holds_stripZeros (fuel : Nat) :
    i.Holds (d.stripZeros fuel).digits (d.stripZeros fuel).exponent ↔ i.Holds d.digits d.exponent := by
  -- Each zero goes from the digits into the exponent.
  induction fuel generalizing d with
  | zero => rfl
  | succ fuel ih =>
    unfold Digits.stripZeros
    split
    · rename_i hzero
      have hdigits : Nat.pow 10 1 * (d.digits / 10) = d.digits := by
        rw [Nat.pow_eq, Nat.pow_one]
        omega
      have hmoved : i.Holds (Nat.pow 10 1 * (d.digits / 10)) d.exponent ↔
          i.Holds (d.digits / 10) (d.exponent + 1) := Interval.holds_mul_pow 1
      rw [hdigits] at hmoved
      exact ih.trans hmoved.symm
    · rfl

theorem Digits.stripZeros_ne_zero (fuel : Nat) (h : d.digits ≠ 0) : (d.stripZeros fuel).digits ≠ 0 := by
  induction fuel generalizing d with
  | zero => exact h
  | succ fuel ih =>
    unfold Digits.stripZeros
    split
    · exact ih (d := ⟨d.digits / 10, d.exponent + 1⟩) (by simp only; omega)
    · exact h

/-! ## Grids -/

/-- What a grid yields lies in the interval. -/
theorem onGrid?_holds (h : onGrid? i exponent tie = some d) :
    d.digits ≠ 0 ∧ i.Holds d.digits d.exponent := by
  unfold onGrid? at h
  simp only at h
  split at h
  · rename_i hboth
    simp only [Bool.and_eq_true, decide_eq_true_eq] at hboth
    obtain ⟨⟨hne, hbelow⟩, habove⟩ := hboth
    obtain rfl := Option.some.inj h
    simp only
    split
    · exact ⟨Nat.succ_ne_zero _, habove⟩
    · exact ⟨hne, hbelow⟩
  · split at h
    · rename_i hbelow
      simp only [Bool.and_eq_true, decide_eq_true_eq] at hbelow
      obtain rfl := Option.some.inj h
      exact hbelow
    · split at h
      · rename_i habove
        obtain rfl := Option.some.inj h
        exact ⟨Nat.succ_ne_zero _, habove⟩
      · cases h

/-- A grid has a point in the interval that is finer than the upper half of it. -/
theorem exists_onGrid? (hlow : i.low ≤ i.value)
    (hfine : i.value * (quartersOfPower exponent).2 + (quartersOfPower exponent).1 <
      i.high * (quartersOfPower exponent).2) : ∃ d, onGrid? i exponent tie = some d := by
  have hnum := num_quartersOfPower_pos exponent
  have hle := Nat.mul_le_mul_right (quartersOfPower exponent).2 hlow
  -- The point right above the value is still below the upper bound.
  have habove : i.has ((i.value * (quartersOfPower exponent).2 / (quartersOfPower exponent).1 + 1) *
      (quartersOfPower exponent).1) (quartersOfPower exponent).2 = true := by
    have hover := Nat.lt_mul_div_succ (i.value * (quartersOfPower exponent).2) hnum
    have hnear := Nat.div_mul_le_self (i.value * (quartersOfPower exponent).2) (quartersOfPower exponent).1
    rw [Nat.mul_add_one, Nat.mul_comm (quartersOfPower exponent).1] at hover
    rw [Nat.add_one_mul]
    unfold Interval.has
    split <;> simp only [Bool.and_eq_true, decide_eq_true_eq] <;> omega
  unfold onGrid?
  simp only [habove, Bool.and_true, if_true]
  split
  · exact ⟨_, rfl⟩
  · exact ⟨_, rfl⟩

/-- The first grid that yields something is found, unless the fuel ends before. -/
theorem onGrid?_firstGrid {fuel n : Nat} (hn : n < fuel)
    (h : ∃ d, onGrid? i (exponent - n) tie = some d) :
    ∃ e, onGrid? i e tie = some (firstGrid i tie fuel exponent) := by
  induction fuel generalizing n exponent with
  | zero => cases hn
  | succ fuel ih =>
    unfold firstGrid
    cases hgrid : onGrid? i exponent tie with
    | some d => exact ⟨exponent, hgrid⟩
    | none =>
      -- Each grid that yields nothing brings the one that does a step nearer.
      cases n with
      | zero =>
        obtain ⟨d, hd⟩ := h
        rw [Int.natCast_zero, Int.sub_zero, hgrid] at hd
        cases hd
      | succ n =>
        have hexponent : exponent - (n + 1 : Nat) = exponent - 1 - n := by omega
        rw [hexponent] at h
        exact ih (Nat.lt_of_succ_lt_succ hn) h

/-! ## The leading digit -/

/-- Two fractions that are close to the logarithm of two, from below and from above. -/
theorem pow_ten_le {e k : Nat} (h : 196 * e ≤ 59 * k) : Nat.pow 10 e ≤ Nat.pow 2 k := by
  have hroot : 10 ^ 59 ≤ 2 ^ 196 := by decide
  have hpow : (10 ^ e) ^ 196 ≤ (2 ^ k) ^ 196 :=
    calc (10 ^ e) ^ 196 = 10 ^ (196 * e) := by rw [← Nat.pow_mul, Nat.mul_comm]
      _ ≤ 10 ^ (59 * k) := Nat.pow_le_pow_right (by decide) h
      _ = (10 ^ 59) ^ k := Nat.pow_mul ..
      _ ≤ (2 ^ 196) ^ k := Nat.pow_le_pow_left hroot k
      _ = (2 ^ k) ^ 196 := by rw [← Nat.pow_mul, ← Nat.pow_mul, Nat.mul_comm]
  exact (Nat.pow_le_pow_iff_left (by decide)).1 hpow

theorem le_pow_ten {e k : Nat} (h : 28 * k ≤ 93 * e) : Nat.pow 2 k ≤ Nat.pow 10 e := by
  have hroot : 2 ^ 93 ≤ 10 ^ 28 := by decide
  have hpow : (2 ^ k) ^ 93 ≤ (10 ^ e) ^ 93 :=
    calc (2 ^ k) ^ 93 = (2 ^ 93) ^ k := by rw [← Nat.pow_mul, ← Nat.pow_mul, Nat.mul_comm]
      _ ≤ (10 ^ 28) ^ k := Nat.pow_le_pow_left hroot k
      _ = 10 ^ (28 * k) := (Nat.pow_mul ..).symm
      _ ≤ 10 ^ (93 * e) := Nat.pow_le_pow_right (by decide) h
      _ = (10 ^ e) ^ 93 := by rw [← Nat.pow_mul, Nat.mul_comm]
  exact (Nat.pow_le_pow_iff_left (by decide)).1 hpow

/-- A power of ten is at most the value, when its exponent is less than the estimate by two. -/
theorem quartersOfPower_le_of_log {value : Nat} (hvalue : value ≠ 0) (hsmall : value.log2 < 2101)
    (hexponent : exponent = ((value.log2 : Int) - 1076) * 30103 / 100000 - 1) :
    (quartersOfPower exponent).1 ≤ value * (quartersOfPower exponent).2 := by
  have hlog : 2 ^ value.log2 ≤ value := Nat.log2_self_le hvalue
  rw [quartersOfPower_eq]
  generalize hplaces : 1076 = places
  simp only [Nat.shiftLeft_eq, Nat.pow_eq]
  -- A value of at least one, and then one that is less.
  rcases Nat.le_total places value.log2 with hmore | hless
  · have hpower : 10 ^ exponent.toNat ≤ 2 ^ (value.log2 - places) := pow_ten_le (by omega)
    have hsplit : 2 ^ (value.log2 - places) * 2 ^ places = 2 ^ value.log2 := by
      rw [← Nat.pow_add, Nat.sub_add_cancel hmore]
    calc 10 ^ exponent.toNat * 2 ^ places
        ≤ 2 ^ (value.log2 - places) * 2 ^ places := Nat.mul_le_mul_right _ hpower
      _ = 2 ^ value.log2 := hsplit
      _ ≤ value := hlog
      _ ≤ value * 10 ^ (-exponent).toNat := Nat.le_mul_of_pos_right _ (Nat.pow_pos (by decide))
  · have hnone : exponent.toNat = 0 := by omega
    have hpower : 2 ^ (places - value.log2) ≤ 10 ^ (-exponent).toNat := le_pow_ten (by omega)
    have hsplit : 2 ^ value.log2 * 2 ^ (places - value.log2) = 2 ^ places := by
      rw [← Nat.pow_add, Nat.add_sub_cancel' hless]
    calc 10 ^ exponent.toNat * 2 ^ places
        = 2 ^ value.log2 * 2 ^ (places - value.log2) := by rw [hnone, Nat.pow_zero, Nat.one_mul, hsplit]
      _ ≤ value * 10 ^ (-exponent).toNat := Nat.mul_le_mul hlog hpower

/-- The power of ten of the leading digit is at most the value. -/
theorem quartersOfPower_leadingExponent (hvalue : i.value ≠ 0) (hsmall : i.value.log2 < 2101) :
    (quartersOfPower (leadingExponent i)).1 ≤ i.value * (quartersOfPower (leadingExponent i)).2 := by
  unfold leadingExponent
  simp only
  split
  · rename_i hle
    simpa using hle
  · split
    · rename_i hle
      simpa using hle
    · exact quartersOfPower_le_of_log hvalue hsmall (by omega)

/-! ## The shortest digits -/

variable {x : Double}

theorem log2_value_lt (hfinite : x.isFinite = true) (hzero : x.isZero = false) :
    (Interval.ofDouble x).value ≠ 0 ∧ (Interval.ofDouble x).value.log2 < 2101 := by
  have hpos := Double.significand_pos hzero
  have hlt := x.significand_lt
  have hscale := Double.scale_lt hfinite
  have hvalue : (Interval.ofDouble x).value = 4 * x.significand * 2 ^ x.scale := Nat.shiftLeft_eq ..
  have hne : (Interval.ofDouble x).value ≠ 0 := by
    rw [hvalue]
    exact Nat.mul_ne_zero (by omega) (Nat.ne_of_gt (Nat.two_pow_pos _))
  -- 53 bits and two more for the quarters, on the greatest scale.
  refine ⟨hne, (Nat.log2_lt hne).2 ?_⟩
  calc (Interval.ofDouble x).value
      = 4 * x.significand * 2 ^ x.scale := hvalue
    _ < 2 ^ 55 * 2 ^ x.scale := Nat.mul_lt_mul_of_pos_right (by omega) (Nat.two_pow_pos _)
    _ = 2 ^ (55 + x.scale) := (Nat.pow_add ..).symm
    _ ≤ 2 ^ 2101 := Nat.pow_le_pow_right (by decide) (by omega)

/-- Seventeen places after the leading digit the grid is finer than half the spacing of doubles. -/
theorem fine_enough (hfinite : x.isFinite = true) (hzero : x.isZero = false) :
    (Interval.ofDouble x).value *
          (quartersOfPower (leadingExponent (Interval.ofDouble x) - (17 : Nat))).2 +
        (quartersOfPower (leadingExponent (Interval.ofDouble x) - (17 : Nat))).1 <
      (Interval.ofDouble x).high *
        (quartersOfPower (leadingExponent (Interval.ofDouble x) - (17 : Nat))).2 := by
  obtain ⟨hvalue, hsmall⟩ := log2_value_lt hfinite hzero
  have hlead := quartersOfPower_leadingExponent hvalue hsmall
  generalize leadingExponent (Interval.ofDouble x) = leading at hlead ⊢
  have hgrids := quartersOfPower_add (leading - (17 : Nat)) 17
  rw [Int.sub_add_cancel] at hgrids
  have hden := den_quartersOfPower_pos leading
  have hden' := den_quartersOfPower_pos (leading - (17 : Nat))
  generalize quartersOfPower (leading - (17 : Nat)) = fine at hgrids hden' ⊢
  -- The significand has at most 53 bits, and half its last place is more than a 10¹⁷th of the value.
  have hcross : Nat.pow 10 17 * fine.1 ≤ (Interval.ofDouble x).value * fine.2 := by
    refine Nat.le_of_mul_le_mul_right ?_ hden
    calc Nat.pow 10 17 * fine.1 * (quartersOfPower leading).2
        = (quartersOfPower leading).1 * fine.2 := hgrids
      _ ≤ (Interval.ofDouble x).value * (quartersOfPower leading).2 * fine.2 := Nat.mul_le_mul_right _ hlead
      _ = (Interval.ofDouble x).value * fine.2 * (quartersOfPower leading).2 := Nat.mul_right_comm ..
  have hplace : 0 < fine.2 <<< x.scale := by
    rw [Nat.shiftLeft_eq]
    exact Nat.mul_pos hden' (Nat.two_pow_pos _)
  have hmost := Nat.mul_le_mul_right (fine.2 <<< x.scale) (Nat.le_of_lt_succ x.significand_lt)
  have hpow : Nat.pow 10 17 = 100000000000000000 := by decide
  simp only [Interval.ofDouble, Double.shiftLeft_mul, Nat.add_mul, Nat.mul_assoc, hpow] at hcross ⊢
  omega

/-- The shortest digits are not zero, and lie in the interval of their double. -/
theorem shortest_holds (hfinite : x.isFinite = true) (hzero : x.isZero = false) (tie : Tie) :
    (shortest x tie).digits ≠ 0 ∧
      (Interval.ofDouble x).Holds (shortest x tie).digits (shortest x tie).exponent := by
  have hlow : (Interval.ofDouble x).low ≤ (Interval.ofDouble x).value := by
    simp only [Interval.ofDouble, Nat.shiftLeft_eq]
    exact Nat.mul_le_mul_right _ (Nat.sub_le ..)
  have hfine : 17 < 18 := by decide
  obtain ⟨e, hgrid⟩ := onGrid?_firstGrid hfine (exists_onGrid? hlow (fine_enough hfinite hzero))
  obtain ⟨hne, hholds⟩ := onGrid?_holds hgrid
  exact ⟨Digits.stripZeros_ne_zero 20 hne, (Digits.holds_stripZeros 20).2 hholds⟩

/-! ## Rounding decimals -/

theorem Interval.bounds_of_has {num den : Nat} (h : i.has num den = true) :
    i.low * den ≤ num ∧ num ≤ i.high * den := by
  unfold Interval.has at h
  split at h <;> simp only [Bool.and_eq_true, decide_eq_true_eq] at h <;> omega

theorem Interval.bounds_of_holds (h : i.Holds digits exponent) :
    i.low * Nat.pow 10 (-exponent).toNat ≤ digits * (Nat.pow 10 exponent.toNat <<< 1076) ∧
      digits * (Nat.pow 10 exponent.toNat <<< 1076) ≤ i.high * Nat.pow 10 (-exponent).toNat := by
  have hbounds := Interval.bounds_of_has h
  rwa [quartersOfPower_eq] at hbounds

/-- Decimals in the interval of a double are not beyond the greatest exponent. -/
theorem exponent_le_of_holds (hfinite : x.isFinite = true) (hdigits : digits ≠ 0)
    (h : (Interval.ofDouble x).Holds digits exponent) : exponent + digits.log2 / 4 ≤ 400 := by
  have hlt := x.significand_lt
  have hscale := Double.scale_lt hfinite
  have hsigned : exponent = (exponent.toNat : Int) - ((-exponent).toNat : Int) := by omega
  have hhigh := (Interval.bounds_of_holds h).2
  -- The limit has a name, so that powers of it are not evaluated.
  obtain ⟨limit, hlimit⟩ : ∃ limit, limit = 400 := ⟨_, rfl⟩
  generalize hplaces : 1076 = places at hhigh
  simp only [Nat.shiftLeft_eq, Nat.pow_eq] at hhigh
  generalize exponent.toNat = up at hsigned hhigh
  generalize (-exponent).toNat = down at hsigned hhigh
  have hfirst : 10 ^ (digits.log2 / 4) ≤ digits :=
    Nat.le_trans (pow_ten_le (by omega)) (Nat.log2_self_le hdigits)
  have hbound : (Interval.ofDouble x).high < 10 ^ limit * 2 ^ places := by
    calc (Interval.ofDouble x).high
        = (4 * x.significand + 2) * 2 ^ x.scale := Nat.shiftLeft_eq ..
      _ < 2 ^ 55 * 2 ^ x.scale := Nat.mul_lt_mul_of_pos_right (by omega) (Nat.two_pow_pos _)
      _ = 2 ^ (55 + x.scale) := (Nat.pow_add ..).symm
      _ ≤ 2 ^ (3 * limit + places) := Nat.pow_le_pow_right (by decide) (by omega)
      _ = 2 ^ (3 * limit) * 2 ^ places := Nat.pow_add ..
      _ ≤ 10 ^ limit * 2 ^ places := Nat.mul_le_mul_right _ (le_pow_ten (by omega))
  have hpower : 10 ^ (digits.log2 / 4 + up) < 10 ^ (limit + down) := by
    refine Nat.lt_of_mul_lt_mul_right (a := 2 ^ places) ?_
    calc 10 ^ (digits.log2 / 4 + up) * 2 ^ places
        = 10 ^ (digits.log2 / 4) * (10 ^ up * 2 ^ places) := by rw [Nat.pow_add, Nat.mul_assoc]
      _ ≤ digits * (10 ^ up * 2 ^ places) := Nat.mul_le_mul_right _ hfirst
      _ ≤ (Interval.ofDouble x).high * 10 ^ down := hhigh
      _ < 10 ^ limit * 2 ^ places * 10 ^ down :=
        Nat.mul_lt_mul_of_pos_right hbound (Nat.pow_pos (by decide))
      _ = 10 ^ (limit + down) * 2 ^ places := by rw [Nat.pow_add, Nat.mul_right_comm]
  have hexponents := (Nat.pow_lt_pow_iff_right (by decide)).1 hpower
  omega

/-- Nor are they beyond the least exponent. -/
theorem le_exponent_of_holds (hzero : x.isZero = false) (h : (Interval.ofDouble x).Holds digits exponent) :
    -400 ≤ exponent + digits.log2 / 3 := by
  have hpos := Double.significand_pos hzero
  have hsigned : exponent = (exponent.toNat : Int) - ((-exponent).toNat : Int) := by omega
  have hlow := (Interval.bounds_of_holds h).1
  obtain ⟨limit, hlimit⟩ : ∃ limit, limit = 400 := ⟨_, rfl⟩
  generalize hplaces : 1076 = places at hlow
  simp only [Nat.shiftLeft_eq, Nat.pow_eq] at hlow
  generalize exponent.toNat = up at hsigned hlow
  generalize (-exponent).toNat = down at hsigned hlow
  have hten : 0 < 10 := by decide
  have hlast : digits < 10 ^ (digits.log2 / 3 + 1) :=
    Nat.lt_of_lt_of_le Nat.lt_log2_self (le_pow_ten (by omega))
  -- The lower bound is a number of units, and not zero.
  have hbound : 1 ≤ (Interval.ofDouble x).low := by
    simp only [Interval.ofDouble, Nat.shiftLeft_eq]
    refine Nat.mul_pos ?_ (Nat.two_pow_pos _)
    split <;> omega
  have hunit : 2 ^ places ≤ 10 ^ limit := le_pow_ten (by omega)
  have hpower : 10 ^ down < 10 ^ (digits.log2 / 3 + 1 + up + limit) := by
    calc 10 ^ down
        ≤ (Interval.ofDouble x).low * 10 ^ down := Nat.le_mul_of_pos_left _ hbound
      _ ≤ digits * (10 ^ up * 2 ^ places) := hlow
      _ < 10 ^ (digits.log2 / 3 + 1) * (10 ^ up * 2 ^ places) :=
        Nat.mul_lt_mul_of_pos_right hlast (Nat.mul_pos (Nat.pow_pos hten) (Nat.two_pow_pos _))
      _ ≤ 10 ^ (digits.log2 / 3 + 1) * (10 ^ up * 10 ^ limit) :=
        Nat.mul_le_mul_left _ (Nat.mul_le_mul_left _ hunit)
      _ = 10 ^ (digits.log2 / 3 + 1 + up + limit) := by
        rw [Nat.pow_add _ _ limit, Nat.pow_add _ _ up, Nat.mul_assoc]
  have hexponents := (Nat.pow_lt_pow_iff_right (by decide)).1 hpower
  omega

/-- A decimal in the interval of a double is read as that double. -/
theorem ofDecimal_of_holds (hfinite : x.isFinite = true) (hzero : x.isZero = false) (hdigits : digits ≠ 0)
    (h : (Interval.ofDouble x).Holds digits exponent) (negative : Bool) :
    Double.ofDecimal negative digits exponent = Double.ofMagnitude negative x.magnitude := by
  have hmost := exponent_le_of_holds hfinite hdigits h
  have hleast := le_exponent_of_holds hzero h
  have hden := den_quartersOfPower_pos exponent
  -- The reader counts in units and the interval in quarters of them.
  have hunits : 4 * ((digits * Nat.pow 10 exponent.toNat) <<< 1074) =
      digits * (quartersOfPower exponent).1 := by
    have hplaces : 1076 = 1074 + 2 := rfl
    rw [quartersOfPower_eq, hplaces]
    generalize 1074 = places
    rw [Nat.shiftLeft_succ, Nat.shiftLeft_succ, Nat.shiftLeft_eq, Nat.shiftLeft_eq, ← Nat.mul_assoc 2,
      Nat.mul_left_comm digits, Nat.mul_assoc digits]
  have hhas : (Interval.ofDouble x).has (4 * ((digits * Nat.pow 10 exponent.toNat) <<< 1074))
      (quartersOfPower exponent).2 = true := by
    rw [hunits]
    exact h
  have hround := Double.ofUnits_eq hfinite hden hhas negative
  rw [quartersOfPower_eq] at hround
  rw [Double.ofDecimal, if_neg hdigits, if_neg (by omega), if_neg (by omega)]
  split
  · have hnone : (-exponent).toNat = 0 := by omega
    rw [hnone] at hround
    exact hround
  · have hnone : exponent.toNat = 0 := by omega
    rw [hnone, Nat.pow_eq, Nat.pow_zero, Nat.mul_one] at hround
    exact hround

end MovieVm.Decimal
