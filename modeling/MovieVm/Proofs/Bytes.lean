import Mathlib.Algebra.Group.Nat.Defs
import MovieVm.Source

/-!
# Numbers and their bytes
-/

namespace MovieVm

/-- Bytes hold the lowest part of a number. -/
theorem ofLittleEndian_mod (width n : Nat) : ofLittleEndian (littleEndian width n) = n % 256 ^ width := by
  induction width generalizing n with
  | zero => simp [littleEndian, ofLittleEndian, Nat.mod_one]
  | succ width ih =>
    have hpow : 256 ^ (width + 1) = 256 * 256 ^ width := by rw [Nat.pow_succ, Nat.mul_comm]
    rw [littleEndian, ofLittleEndian, ih, UInt8.toNat_ofNat', hpow, Nat.mod_mul]

/-- Bytes can be read from the highest on as well. -/
theorem foldl_reverse (bytes : List UInt8) :
    bytes.reverse.foldl (fun n b => 256 * n + b.toNat) 0 = ofLittleEndian bytes := by
  induction bytes with
  | nil => rfl
  | cons b bytes ih =>
    rw [List.reverse_cons, List.foldl_append, ih, ofLittleEndian, Nat.add_comm]
    rfl

end MovieVm
