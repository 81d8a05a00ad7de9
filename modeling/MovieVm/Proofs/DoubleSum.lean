import MovieVm.Double.Arithmetic
import MovieVm.Proofs.FrameRate
import MovieVm.Schedule.Basic

/-!
# Moving a time forward

Rounding keeps the order of numbers, so a span that is added to a time never leads to an earlier time, nor to
anything but a time.
-/

namespace MovieVm.Double

/-! ## Rounding keeps the order -/

theorem div_le_roundHalfEven (num den : Nat) : num / den ≤ roundHalfEven num den := by
  unfold roundHalfEven
  dsimp only
  split <;> omega

theorem roundHalfEven_le (num den : Nat) : roundHalfEven num den ≤ num / den + 1 := by
  unfold roundHalfEven
  dsimp only
  split <;> omega

theorem roundHalfEven_mono {a b : Nat} (h : a ≤ b) (den : Nat) :
    roundHalfEven a den ≤ roundHalfEven b den := by
  have hquotient : a / den ≤ b / den := Nat.div_le_div_right h
  rcases Nat.eq_or_lt_of_le hquotient with heq | hlt
  · -- With one whole part for both, whatever takes the smaller up takes the larger up.
    have hrest : a % den ≤ b % den := by
      have ha := Nat.div_add_mod a den
      have hb := Nat.div_add_mod b den
      rw [heq] at ha
      omega
    unfold roundHalfEven
    rw [heq]
    simp only [Bool.or_eq_true, Bool.and_eq_true, decide_eq_true_eq]
    split <;> split <;> omega
  · have hlow := roundHalfEven_le a den
    have hhigh := div_le_roundHalfEven b den
    omega

/-- The magnitude of a whole number of units, before it is cut off at infinity. -/
def unitsMagnitude (n : Nat) : Nat :=
  shiftFor n * 0x10000000000000 + roundHalfEven n (1 <<< shiftFor n)

theorem ofUnits_one (negative : Bool) (n : Nat) :
    ofUnits negative n 1 = ofMagnitude negative (min (unitsMagnitude n) infinityMagnitude) := by
  simp only [ofUnits, unitsMagnitude, Nat.div_one]

/-- A number has no more than 53 bits above its shift. -/
theorem div_shift_lt (n : Nat) : n / 1 <<< shiftFor n < 0x20000000000000 := by
  rw [Nat.one_shiftLeft, Nat.div_lt_iff_lt_mul (Nat.two_pow_pos _)]
  by_cases hn : n = 0
  · subst hn
    exact Nat.mul_pos (by decide) (Nat.two_pow_pos _)
  · have hlog : n.log2 < 53 + shiftFor n := by
      unfold shiftFor
      omega
    have hlt := (Nat.log2_lt hn).1 hlog
    rwa [Nat.pow_add] at hlt

theorem le_div_shift {n : Nat} (h : shiftFor n ≠ 0) : 0x10000000000000 ≤ n / 1 <<< shiftFor n := by
  have hlog : 52 + shiftFor n ≤ n.log2 := by
    unfold shiftFor at h ⊢
    omega
  have hn : n ≠ 0 := by
    rintro rfl
    exact h rfl
  rw [Nat.one_shiftLeft, Nat.le_div_iff_mul_le (Nat.two_pow_pos _)]
  have hle := (Nat.le_log2 hn).1 hlog
  rwa [Nat.pow_add] at hle

theorem shiftFor_mono {m n : Nat} (h : m ≤ n) : shiftFor m ≤ shiftFor n := by
  have hlog : m.log2 ≤ n.log2 := by
    by_cases hm : m = 0
    · subst hm
      exact Nat.zero_le _
    · have hle := Nat.log2_self_le hm
      exact (Nat.le_log2 (by omega)).2 (Nat.le_trans hle h)
  unfold shiftFor
  omega

theorem unitsMagnitude_mono {m n : Nat} (h : m ≤ n) : unitsMagnitude m ≤ unitsMagnitude n := by
  unfold unitsMagnitude
  rcases Nat.eq_or_lt_of_le (shiftFor_mono h) with heq | hlt
  · rw [heq]
    exact Nat.add_le_add_left (roundHalfEven_mono h _) _
  · -- The next shift begins where the largest quotient of this one is carried.
    have hsmall := roundHalfEven_le m (1 <<< shiftFor m)
    have hbits := div_shift_lt m
    have hlarge := div_le_roundHalfEven n (1 <<< shiftFor n)
    have hleast := le_div_shift (Nat.ne_of_gt (Nat.zero_lt_of_lt hlt))
    omega

/-! ## Sums -/

/-- A time of the virtual clock is a number, possibly infinite, without a negative sign. -/
structure IsTime (x : Double) : Prop where
  sign : x.isNegative = false
  number : x.isNaN = false

variable {x y d : Double}

theorem IsTime.key_eq (h : x.IsTime) : x.key = x.magnitude := by
  simp [key, h.sign]

theorem IsTime.totalKey_eq (h : x.IsTime) : x.totalKey = x.key := by
  simp [key, totalKey, h.sign]

/-- Times that are level are the same. -/
theorem IsTime.eq_of_key_eq (hx : x.IsTime) (hy : y.IsTime) (h : x.key = y.key) : x = y := by
  rw [hx.key_eq, hy.key_eq, Int.natCast_inj] at h
  rw [← x.ofMagnitude_magnitude, ← y.ofMagnitude_magnitude, hx.sign, hy.sign, h]

theorem IsTime.max_eq (hx : x.IsTime) (hy : y.IsTime) (h : x.key ≤ y.key) : x.max y = y := by
  unfold Double.max
  simp only [hx.number, hy.number, Bool.false_eq_true, if_false]
  split
  · rfl
  · exact hx.eq_of_key_eq hy (by omega)

theorem magnitude_ofMagnitude {n : Nat} (h : n ≤ infinityMagnitude) :
    (ofMagnitude false n).magnitude = n := by
  have hlt : n < 9223372036854775808 := Nat.lt_of_le_of_lt h (by decide)
  have hsign : (0x8000000000000000 : UInt64).toNat = 9223372036854775808 := rfl
  simp only [magnitude, ofMagnitude, Bool.false_eq_true, if_false, UInt64.toNat_mod, UInt64.toNat_ofNat',
    hsign]
  omega

theorem isTime_ofMagnitude {n : Nat} (h : n ≤ infinityMagnitude) : (ofMagnitude false n).IsTime where
  sign := by
    have hlt : n < 9223372036854775808 := Nat.lt_of_le_of_lt h (by decide)
    have hsign : (0x8000000000000000 : UInt64).toNat = 9223372036854775808 := rfl
    simp only [isNegative, ofMagnitude, Bool.false_eq_true, if_false, decide_eq_false_iff_not,
      UInt64.le_iff_toNat_le, UInt64.toNat_ofNat']
    omega
  number := by
    rw [isNaN, magnitude_ofMagnitude h]
    exact decide_eq_false (Nat.not_lt.2 h)

/-- A span has no negative sign, unless it is a zero. -/
theorem IsSpan.sign (h : d.IsSpan) : d.isNegative = false ∨ d.isZero = true := by
  cases hsign : d.isNegative
  · exact .inl rfl
  · have hkey := h.2
    simp only [key, hsign, if_true] at hkey
    exact .inr (decide_eq_true (by omega))

theorem IsSpan.sign_of_isInfinite (h : d.IsSpan) (hinfinite : d.isInfinite = true) :
    d.isNegative = false := by
  rcases h.sign with hsign | hzero
  · exact hsign
  · have hmagnitude : d.magnitude = infinityMagnitude := of_decide_eq_true hinfinite
    exact absurd ((of_decide_eq_true hzero).symm.trans hmagnitude) (by decide)

theorem absUnits_of_isZero (h : d.isZero = true) : d.absUnits = 0 := by
  have hmagnitude : d.magnitude = 0 := of_decide_eq_true h
  simp [absUnits, significand, hmagnitude]

theorem IsSpan.units_eq (h : d.IsSpan) : d.units = d.absUnits := by
  rcases h.sign with hsign | hzero
  · simp [units, hsign]
  · simp [units, absUnits_of_isZero hzero]

theorem IsTime.isSpan (h : x.IsTime) : x.IsSpan :=
  ⟨h.number, by rw [h.key_eq]; exact Int.natCast_nonneg _⟩

theorem IsTime.isFinite (h : x.IsTime) (hfinite : x.isInfinite = false) : x.isFinite = true := by
  have hnumber := of_decide_eq_false h.number
  have hbounded := of_decide_eq_false hfinite
  exact decide_eq_true (by omega)

theorem IsTime.abs_eq (h : x.IsTime) : x.abs = x := by
  rw [← ofMagnitude_false_magnitude, ← h.sign, ofMagnitude_magnitude]

/-- The finite sum of a time and a span is rounded from the sum of their units. -/
theorem IsTime.add_eq (hx : x.IsTime) (hd : d.IsSpan) (hfinite : x.isInfinite = false)
    (hspan : d.isInfinite = false) :
    x.add d = ofMagnitude false (min (unitsMagnitude (x.absUnits + d.absUnits)) infinityMagnitude) := by
  have hunits : x.units + d.units = ((x.absUnits + d.absUnits : Nat) : Int) := by
    rw [hx.isSpan.units_eq, hd.units_eq, Int.natCast_add]
  unfold add
  simp only [hx.number, hd.1, hfinite, hspan, hx.sign, hunits, Bool.false_and, Bool.or_self,
    Bool.false_eq_true, if_false]
  split
  · rename_i hsum
    rw [Int.natCast_eq_zero.1 hsum]
    rfl
  · have hsign : decide (((x.absUnits + d.absUnits : Nat) : Int) < 0) = false :=
      decide_eq_false (Int.not_lt.2 (Int.natCast_nonneg _))
    rw [hsign, Int.natAbs_natCast, ofUnits_one]

/-- A time that is moved forward by a span is a time, and not an earlier one. -/
theorem IsTime.add_span (hx : x.IsTime) (hd : d.IsSpan) : (x.add d).IsTime ∧ x.key ≤ (x.add d).key := by
  cases hinfinite : x.isInfinite
  · cases hspan : d.isInfinite
    · -- Both are finite, and a finite time is rounded to itself.
      have hself : x = ofMagnitude false (min (unitsMagnitude x.absUnits) infinityMagnitude) := by
        rw [← ofUnits_one, ofUnits_absUnits (hx.isFinite hinfinite), hx.abs_eq]
      have htime := isTime_ofMagnitude (Nat.min_le_right (unitsMagnitude (x.absUnits + d.absUnits)) _)
      have hmagnitude := congrArg magnitude hself
      rw [magnitude_ofMagnitude (Nat.min_le_right _ _)] at hmagnitude
      rw [hx.add_eq hd hinfinite hspan]
      refine ⟨htime, ?_⟩
      rw [hx.key_eq, htime.key_eq, magnitude_ofMagnitude (Nat.min_le_right _ _), hmagnitude]
      have hmono := unitsMagnitude_mono (Nat.le_add_right x.absUnits d.absUnits)
      omega
    · -- No time is later than infinity.
      have hadd : x.add d = d := by simp [add, hx.number, hd.1, hinfinite, hspan]
      have hmagnitude : d.magnitude = infinityMagnitude := of_decide_eq_true hspan
      have htime : d.IsTime := ⟨hd.sign_of_isInfinite hspan, hd.1⟩
      have hbounded := of_decide_eq_false hx.number
      rw [hadd, hx.key_eq, htime.key_eq, hmagnitude]
      exact ⟨htime, by omega⟩
  · -- An infinite time stays what it is.
    have hadd : x.add d = x := by
      cases hspan : d.isInfinite
      · simp [add, hx.number, hd.1, hinfinite, hspan]
      · simp [add, hx.number, hd.1, hinfinite, hspan, hx.sign, hd.sign_of_isInfinite hspan]
    rw [hadd]
    exact ⟨hx, Int.le_refl _⟩

end MovieVm.Double
