import MovieVm.Decimal.Shortest

/-!
# Rounding back

Every quotient in the interval of a double is rounded to that double. Below a power of two the interval
crosses into the finer spacing of the doubles before it, from where the quotient carries into the exponent.
-/

namespace MovieVm.Double

/-! ## Parts of a double -/

theorem significand_eq (x : Double) :
    x.scale * 0x10000000000000 + x.significand = x.magnitude := by
  unfold scale significand
  split <;> omega

theorem significand_lt (x : Double) : x.significand < 0x20000000000000 := by
  unfold significand
  split <;> omega

theorem le_significand {x : Double} (h : x.scale ≠ 0) : 0x10000000000000 ≤ x.significand := by
  unfold scale at h
  unfold significand
  split <;> omega

theorem significand_pos {x : Double} (h : x.isZero = false) : 0 < x.significand := by
  simp only [isZero, decide_eq_false_iff_not] at h
  unfold significand
  split <;> omega

theorem scale_lt {x : Double} (h : x.isFinite = true) : x.scale < 2046 := by
  have hlt : x.magnitude < 0x7ff0000000000000 := of_decide_eq_true h
  unfold scale
  omega

/-- A double is its sign and its magnitude. -/
theorem ofMagnitude_magnitude (x : Double) : ofMagnitude x.isNegative x.magnitude = x := by
  obtain ⟨bits⟩ := x
  have hlt : bits.toNat < 18446744073709551616 := bits.toNat_lt
  simp only [ofMagnitude, isNegative, magnitude, UInt64.le_iff_toNat_le, UInt64.toNat_mod]
  congr 1
  apply UInt64.toNat_inj.1
  simp only [decide_eq_true_eq]
  have hsign : (0x8000000000000000 : UInt64).toNat = 9223372036854775808 := rfl
  rw [hsign, UInt64.toNat_ofNat']
  split <;> omega

/-! ## Rounding to a whole number -/

/-- A quotient is rounded to `n` when it is at most a half from it, and less than a half if `n` is odd. -/
theorem roundHalfEven_eq {num den n : Nat} (hden : 0 < den) (hlow : 2 * (n * den) ≤ 2 * num + den)
    (hhigh : 2 * num ≤ 2 * (n * den) + den)
    (htie : n % 2 = 1 → 2 * (n * den) ≠ 2 * num + den ∧ 2 * num ≠ 2 * (n * den) + den) :
    roundHalfEven num den = n := by
  have hdivision : den * (num / den) + num % den = num := Nat.div_add_mod num den
  have hrest : num % den < den := Nat.mod_lt num hden
  unfold roundHalfEven
  generalize num / den = quotient at hdivision ⊢
  generalize num % den = rest at hdivision hrest ⊢
  rw [Nat.mul_comm] at hdivision
  -- The whole part is `n`, or the number before it.
  have hle : quotient ≤ n := by
    refine Nat.le_of_lt_succ (Nat.lt_of_mul_lt_mul_right (a := den) ?_)
    rw [Nat.succ_eq_add_one, Nat.add_one_mul n]
    omega
  have hge : n ≤ quotient + 1 := by
    refine Nat.le_of_lt_succ (Nat.lt_of_mul_lt_mul_right (a := den) ?_)
    rw [Nat.succ_eq_add_one, Nat.add_one_mul (quotient + 1), Nat.add_one_mul quotient]
    omega
  rcases Nat.eq_or_lt_of_le hle with rfl | hlt
  · -- Half above an even number stays; half above an odd one is excluded by the tie.
    have hstays : ¬ (den < 2 * rest ∨ 2 * rest = den ∧ quotient % 2 = 1) := by
      rintro (hmore | ⟨hhalf, hodd⟩)
      · omega
      · have hne := (htie hodd).2
        omega
    rw [if_neg]
    simpa only [Bool.or_eq_true, Bool.and_eq_true, decide_eq_true_eq] using hstays
  · -- The quotient is below `n`, so its rest is at least a half.
    obtain rfl : n = quotient + 1 := by omega
    rw [Nat.add_one_mul quotient] at hlow hhigh htie
    have hrises : den < 2 * rest ∨ 2 * rest = den ∧ quotient % 2 = 1 := by
      rcases Nat.lt_or_ge den (2 * rest) with hmore | hhalf
      · exact .inl hmore
      · refine .inr ⟨by omega, ?_⟩
        rcases Nat.mod_two_eq_zero_or_one quotient with heven | hodd
        · have hne := (htie (by omega)).1
          omega
        · exact hodd
    rw [if_pos]
    simpa only [Bool.or_eq_true, Bool.and_eq_true, decide_eq_true_eq] using hrises

theorem shiftFor_eq {n shift : Nat} (hlow : shift = 0 ∨ 1 <<< (52 + shift) ≤ n)
    (hhigh : n < 1 <<< (53 + shift)) : shiftFor n = shift := by
  rw [Nat.shiftLeft_eq, Nat.one_mul] at hlow hhigh
  unfold shiftFor
  by_cases hn : n = 0
  · subst hn
    rcases hlow with rfl | hlow
    · rfl
    · exact absurd hlow (Nat.not_le.2 (Nat.two_pow_pos _))
  · have hlog : n.log2 < 53 + shift := (Nat.log2_lt hn).2 hhigh
    rcases hlow with rfl | hlow
    · omega
    · have hle : 52 + shift ≤ n.log2 := (Nat.le_log2 hn).2 hlow
      omega

/-! ## Rounding to a double -/

open Decimal

theorem shiftLeft_mul (a s den : Nat) : (a <<< s) * den = a * (den <<< s) := by
  rw [Nat.shiftLeft_eq, Nat.shiftLeft_eq, Nat.mul_assoc, Nat.mul_comm den]

/-- The bounds of the interval, in the place of the last bit. -/
structure Bounds (x : Double) (num place : Nat) : Prop where
  low : 2 * (x.significand * place) ≤ 2 * num + place
  high : 2 * num ≤ 2 * (x.significand * place) + place
  narrow : x.significand = 0x10000000000000 → x.scale ≠ 0 → 4 * (x.significand * place) ≤ 4 * num + place
  tie : x.significand % 2 = 1 →
    2 * (x.significand * place) ≠ 2 * num + place ∧ 2 * num ≠ 2 * (x.significand * place) + place

theorem bounds_of_has {x : Double} {num den : Nat}
    (h : (Interval.ofDouble x).has (4 * num) den = true) : Bounds x num (den <<< x.scale) := by
  have hquarters : ∀ less, (4 * x.significand - less) * (den <<< x.scale) =
      4 * (x.significand * (den <<< x.scale)) - less * (den <<< x.scale) := by
    intro less
    rw [Nat.sub_mul, Nat.mul_assoc]
  have hmore : (4 * x.significand + 2) * (den <<< x.scale) =
      4 * (x.significand * (den <<< x.scale)) + 2 * (den <<< x.scale) := by
    rw [Nat.add_mul, Nat.mul_assoc]
  unfold Interval.has Interval.ofDouble at h
  simp only [shiftLeft_mul, hquarters, hmore] at h
  -- An odd significand has an open interval, and is not that of a power of two.
  by_cases heven : x.significand % 2 = 0
  · simp only [heven, decide_true, if_true, Bool.and_eq_true, decide_eq_true_eq] at h
    obtain ⟨hlow, hhigh⟩ := h
    refine ⟨?_, by omega, fun hleast hscale => ?_, by omega⟩
    · split at hlow <;> omega
    · rw [if_pos ⟨hleast, hscale⟩] at hlow
      omega
  · have hleast : x.significand ≠ 0x10000000000000 := by omega
    simp only [heven, hleast, decide_false, Bool.false_and, Bool.false_eq_true, if_false,
      Bool.and_eq_true, decide_eq_true_eq] at h
    obtain ⟨hlow, hhigh⟩ := h
    exact ⟨by omega, by omega, fun h => absurd h hleast, by omega⟩

/-- The shift is the scale, as long as a quotient does not go below the power of two. -/
theorem shiftFor_div {num den shift : Nat} (hden : 0 < den)
    (hlow : shift = 0 ∨ 0x10000000000000 * (den <<< shift) ≤ num)
    (hhigh : num < 0x20000000000000 * (den <<< shift)) : shiftFor (num / den) = shift := by
  have hplaces : ∀ k, (1 <<< (k + shift)) * den = 2 ^ k * (den <<< shift) := by
    intro k
    rw [shiftLeft_mul, Nat.one_mul, Nat.shiftLeft_eq, Nat.shiftLeft_eq, Nat.pow_add, Nat.mul_left_comm]
  refine shiftFor_eq (hlow.imp_right fun hle => ?_) ?_
  · rw [Nat.le_div_iff_mul_le hden, hplaces]
    exact hle
  · rw [Nat.div_lt_iff_lt_mul hden, hplaces]
    exact hhigh

/-- What lies in the interval of a double is rounded to it. -/
theorem ofUnits_eq {x : Double} {num den : Nat} (hfinite : x.isFinite = true) (hden : 0 < den)
    (h : (Interval.ofDouble x).has (4 * num) den = true) (negative : Bool) :
    ofUnits negative num den = ofMagnitude negative x.magnitude := by
  obtain ⟨hlow, hhigh, hnarrow, htie⟩ := bounds_of_has h
  have hfits : min x.magnitude infinityMagnitude = x.magnitude :=
    Nat.min_eq_left (Nat.le_of_lt (of_decide_eq_true hfinite))
  have hmagnitude := x.significand_eq
  have hpositive : ∀ shift, 0 < den <<< shift := by
    intro shift
    rw [Nat.shiftLeft_eq]
    exact Nat.mul_pos hden (Nat.two_pow_pos _)
  have hmost := Nat.mul_le_mul_right (den <<< x.scale) (Nat.le_of_lt_succ x.significand_lt)
  -- Either the quotient is rounded at the scale of the double, or it lies below a power of two.
  by_cases hsame : x.scale = 0 ∨ 0x10000000000000 * (den <<< x.scale) ≤ num
  · have hshift : shiftFor (num / den) = x.scale := by
      refine shiftFor_div hden hsame ?_
      have hplace := hpositive x.scale
      omega
    have hround : roundHalfEven num (den <<< x.scale) = x.significand :=
      roundHalfEven_eq (hpositive _) hlow hhigh htie
    rw [ofUnits, hshift, hround, hmagnitude, hfits]
  · obtain ⟨hscale, hbelow⟩ := not_or.1 hsame
    -- Only at the least significand does the interval reach below the power of two.
    have hleast : x.significand = 0x10000000000000 := by
      refine Nat.le_antisymm (Nat.le_of_not_lt fun hmore => ?_) (le_significand hscale)
      have hplaces := Nat.mul_le_mul_right (den <<< x.scale) hmore
      have hplace := hpositive x.scale
      omega
    obtain ⟨finer, hfiner⟩ := Nat.exists_eq_add_one_of_ne_zero hscale
    have hhalf : den <<< x.scale = 2 * (den <<< finer) := by
      rw [hfiner, Nat.shiftLeft_succ]
    have hproduct : 2 * x.significand * (den <<< finer) = x.significand * (den <<< x.scale) := by
      rw [hhalf, Nat.mul_assoc, Nat.mul_left_comm]
    have hnear := hnarrow hleast hscale
    have hplaces : x.significand * (den <<< x.scale) = 0x10000000000000 * (den <<< x.scale) := by
      rw [hleast]
    have hshift : shiftFor (num / den) = finer := by
      refine shiftFor_div hden (.inr ?_) ?_ <;> omega
    have hround : roundHalfEven num (den <<< finer) = 2 * x.significand := by
      refine roundHalfEven_eq (hpositive finer) ?_ ?_ fun hodd => ?_ <;> omega
    -- Rounding up at the finer scale carries into the exponent, and gives the same magnitude.
    have hcarry : finer * 0x10000000000000 + 2 * x.significand = x.magnitude := by
      rw [← hmagnitude, hfiner, Nat.two_mul, Nat.add_one_mul finer, hleast, Nat.add_assoc]
    rw [ofUnits, hshift, hround, hcarry, hfits]

end MovieVm.Double
