import MovieVm.Decimal.Reading
import MovieVm.Proofs.Lines

/-!
# Whole numbers read back

The decimal digits of a whole number are read as that number, with a sign where there is one.
-/

namespace MovieVm.Decimal

open Bytecode.Assembly

theorem digitsValue_toDigits (n : Nat) : digitsValue 0 (Nat.toDigits 10 n) = n :=
  Nat.ofDigitChars_ten_toDigits

theorem isDigit_toDigits {n : Nat} : ∀ c ∈ Nat.toDigits 10 n, c.isDigit :=
  fun _ hc => Nat.isDigit_of_mem_toDigits (by decide) (by decide) hc

theorem readDigits?_toDigits (n : Nat) : readDigits? (Nat.toDigits 10 n) = some n := by
  have hall : (Nat.toDigits 10 n).all Char.isDigit = true := List.all_eq_true.2 isDigit_toDigits
  simp [readDigits?, Nat.toDigits_ne_nil, hall, digitsValue_toDigits]

/-- The first digit of a number is no sign. -/
theorem exists_toDigits_eq_cons (n : Nat) : ∃ c rest, Nat.toDigits 10 n = c :: rest ∧ c.isDigit := by
  obtain ⟨c, rest, h⟩ := List.exists_cons_of_ne_nil (Nat.toDigits_ne_nil (n := n) (b := 10))
  exact ⟨c, rest, h, isDigit_toDigits c (h ▸ List.mem_cons_self)⟩

theorem readNat?_toDigits {n bound : Nat} (h : n < bound) :
    readNat? bound (Nat.toDigits 10 n) = some n := by
  obtain ⟨c, rest, hdigits, hc⟩ := exists_toDigits_eq_cons n
  have hplus : c ≠ '+' := fun heq => absurd (heq ▸ hc) (by decide)
  have hread := readDigits?_toDigits n
  rw [hdigits] at hread ⊢
  simp [readNat?, hplus, hread, h]

theorem readInt32?_toDigits {n : Nat} (h : n ≤ 2147483647) :
    readInt32? (Nat.toDigits 10 n) = some (Int32.ofInt n) := by
  obtain ⟨c, rest, hdigits, hc⟩ := exists_toDigits_eq_cons n
  have hplus : c ≠ '+' := fun heq => absurd (heq ▸ hc) (by decide)
  have hminus : c ≠ '-' := fun heq => absurd (heq ▸ hc) (by decide)
  have hread := readDigits?_toDigits n
  rw [hdigits] at hread ⊢
  simp [readInt32?, hplus, hminus, hread]
  omega

theorem readInt32?_neg_toDigits {n : Nat} (h : n ≤ 2147483648) :
    readInt32? ('-' :: Nat.toDigits 10 n) = some (Int32.ofInt (-n)) := by
  simp [readInt32?, readDigits?_toDigits]
  omega

theorem readInt32?_toString (n : Int32) : readInt32? (toString n.toInt).toList = some n := by
  have hlow : -2147483648 ≤ n.toInt := n.minValue_le_toInt
  have hhigh : n.toInt ≤ 2147483647 := n.toInt_le
  rw [Int.toString_eq_repr, Int.repr_eq_if]
  -- The least number has a magnitude that is no number itself, so the sign is read with it.
  split
  · rename_i hpos
    rw [Nat.toList_repr, readInt32?_toDigits (by omega), Int.toNat_of_nonneg hpos, Int32.ofInt_toInt]
  · rename_i hneg
    rw [String.toList_append, Nat.toList_repr]
    have hread := readInt32?_neg_toDigits (n := (-n.toInt).toNat) (by omega)
    rw [Int.toNat_of_nonneg (by omega), Int.neg_neg, Int32.ofInt_toInt] at hread
    exact hread

/-! ## Numbers as pieces of a line -/

theorem isSolid_of_isDigit {c : Char} (h : c.isDigit) : isSolid c :=
  isSolid_of_isBareChar (by simp [Bytecode.isBareChar, Char.isAlphanum, h])

theorem piece_toDigits (n : Nat) : Piece (Nat.toDigits 10 n) :=
  .solid Nat.toDigits_ne_nil fun c hc => isSolid_of_isDigit (isDigit_toDigits c hc)

theorem newline_not_mem_toDigits (n : Nat) : '\n' ∉ Nat.toDigits 10 n :=
  (piece_toDigits n).oneLine

theorem piece_toString_int (n : Int) : Piece (toString n).toList := by
  rw [Int.toString_eq_repr, Int.repr_eq_if]
  split
  · rw [Nat.toList_repr]
    exact piece_toDigits _
  · rw [String.toList_append, Nat.toList_repr]
    exact .append (.word (by decide) (by decide)) (piece_toDigits _)

end MovieVm.Decimal
