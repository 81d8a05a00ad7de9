import MovieVm.Movie.Draft
import MovieVm.Proofs.Rounding

/-!
# Frame rates read back

A frame rate is stored in 256ths. One that is a whole number of them, and not too large, is read back as it
is, except that a negative zero loses its sign.
-/

namespace MovieVm

namespace Double

open Decimal

/-- A double lies in its own rounding interval. -/
theorem has_absUnits (x : Double) : (Interval.ofDouble x).has (4 * x.absUnits) 1 = true := by
  have hvalue : 4 * x.absUnits = (4 * x.significand) <<< x.scale := by
    rw [absUnits, Nat.shiftLeft_eq, Nat.shiftLeft_eq, Nat.mul_assoc]
  have hplace := Nat.two_pow_pos x.scale
  rw [hvalue, Interval.has, Interval.ofDouble]
  simp only [Nat.shiftLeft_eq, Nat.mul_one]
  by_cases heven : x.significand % 2 = 0
  · rw [if_pos (decide_eq_true heven), Bool.and_eq_true, decide_eq_true_eq, decide_eq_true_eq]
    exact ⟨Nat.mul_le_mul_right _ (Nat.sub_le _ _), Nat.mul_le_mul_right _ (Nat.le_add_right _ _)⟩
  · -- An odd significand is not zero, so there is room below it.
    rw [if_neg (by simpa using heven), Bool.and_eq_true, decide_eq_true_eq, decide_eq_true_eq]
    refine ⟨Nat.mul_lt_mul_of_pos_right ?_ hplace, Nat.mul_lt_mul_of_pos_right (by omega) hplace⟩
    split <;> omega

theorem ofMagnitude_false_magnitude (x : Double) : ofMagnitude false x.magnitude = x.abs :=
  congrArg Double.mk UInt64.ofNat_toNat

/-- A finite double is rounded to itself. -/
theorem ofUnits_absUnits {x : Double} (h : x.isFinite = true) : ofUnits false x.absUnits 1 = x.abs := by
  rw [ofUnits_eq h Nat.one_pos x.has_absUnits, ofMagnitude_false_magnitude]

theorem isNaN_of_isFinite {x : Double} (h : x.isFinite = true) : x.isNaN = false := by
  have hlt : x.magnitude < infinityMagnitude := of_decide_eq_true h
  exact decide_eq_false (by omega)

theorem isInfinite_of_isFinite {x : Double} (h : x.isFinite = true) : x.isInfinite = false := by
  have hlt : x.magnitude < infinityMagnitude := of_decide_eq_true h
  exact decide_eq_false (by omega)

end Double

namespace Movie

/-- A frame rate that can be stored: a whole number of 256ths. -/
structure Fixed (x : Double) (n : Nat) : Prop where
  finite : x.isFinite = true
  bound : n ≤ 65535
  parts : 256 * x.units = n * (Double.unitsPerOne : Int)

variable {x : Double} {n : Nat}

theorem unitsPerOne_pos : 0 < Double.unitsPerOne := by
  have hshift : ∀ k, 0 < 1 <<< k := by
    intro k
    rw [Nat.shiftLeft_eq, Nat.one_mul]
    exact Nat.two_pow_pos k
  exact hshift 1074

/-- Below zero there is only the negative zero. -/
theorem Fixed.absUnits (h : Fixed x n) :
    256 * x.absUnits = n * Double.unitsPerOne ∧ (x.isNegative = true → n = 0) := by
  have hparts := h.parts
  have hone := unitsPerOne_pos
  rw [Double.units, ← Int.natCast_mul] at hparts
  generalize Double.unitsPerOne = one at hparts hone ⊢
  split at hparts
  · have hzero : n * one = 0 := by omega
    refine ⟨by omega, fun _ => ?_⟩
    exact (Nat.mul_eq_zero.1 hzero).resolve_right (Nat.ne_of_gt hone)
  · rename_i hpositive
    exact ⟨by omega, fun hnegative => absurd hnegative hpositive⟩

theorem Fixed.rate_eq (h : Fixed x n) : Draft.rate x = n := by
  obtain ⟨hunits, hsign⟩ := h.absUnits
  have hbound := h.bound
  have hone := unitsPerOne_pos
  unfold Draft.rate
  rw [Double.isNaN_of_isFinite h.finite, Double.isInfinite_of_isFinite h.finite, Bool.false_or]
  cases hnegative : x.isNegative with
  | true => exact (hsign hnegative).symm
  | false =>
    generalize Double.unitsPerOne = one at hunits hone ⊢
    have hhalves : 512 * x.absUnits + one = 2 * one * n + one := by
      rw [Nat.mul_assoc, Nat.mul_comm one]
      omega
    have hquotient : (512 * x.absUnits + one) / (2 * one) = n := by
      rw [hhalves, Nat.mul_add_div (by omega), Nat.div_eq_of_lt (by omega), Nat.add_zero]
    simp only [hquotient, Bool.false_eq_true, if_false]
    omega

theorem Fixed.fixedPoint_eq (h : Fixed x n) : Reader.fixedPoint n = x.abs := by
  have hshift : ∀ k, 256 * (n <<< k) = n * (1 <<< (k + 8)) := by
    intro k
    rw [Nat.shiftLeft_eq, Nat.shiftLeft_eq, Nat.pow_add, Nat.one_mul, Nat.mul_left_comm, Nat.mul_comm 256]
  have hparts : 256 * (n <<< 1066) = n * Double.unitsPerOne := hshift 1066
  have hsame : n <<< 1066 = x.absUnits :=
    Nat.eq_of_mul_eq_mul_left (by decide) (hparts.trans h.absUnits.1.symm)
  rw [Reader.fixedPoint, hsame, Double.ofUnits_absUnits h.finite]

end Movie

end MovieVm
