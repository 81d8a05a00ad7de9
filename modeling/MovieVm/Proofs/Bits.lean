import Mathlib.Algebra.Group.Int.Defs
import Mathlib.Algebra.Group.Nat.Defs
import MovieVm.Bits
import MovieVm.Source

/-!
# Bits read back

Numbers and their bits, from the most or the least significant bit on, and bits packed into bytes.
-/

namespace MovieVm.Bits

variable {width n : Nat} {bits : List Bool}

/-! ## The most significant bit first -/

@[simp] theorem length_mostFirst (width n : Nat) : (mostFirst width n).length = width := by
  induction width with
  | zero => rfl
  | succ width ih => simp [mostFirst, ih]

/-- A fold that goes on from a number has that number in front. -/
theorem foldl_ofMostFirst (bits : List Bool) (start : Nat) :
    bits.foldl (fun n b => 2 * n + b.toNat) start = start * 2 ^ bits.length + ofMostFirst bits := by
  induction bits generalizing start with
  | nil => simp [ofMostFirst]
  | cons b bits ih =>
    have hhead : ofMostFirst (b :: bits) = (2 * 0 + b.toNat) * 2 ^ bits.length + ofMostFirst bits :=
      ih (2 * 0 + b.toNat)
    have hstart : 2 * start * 2 ^ bits.length = start * 2 ^ (bits.length + 1) := by
      rw [Nat.pow_succ, Nat.mul_comm 2, Nat.mul_assoc, Nat.mul_comm 2]
    rw [List.foldl_cons, ih, hhead, List.length_cons, Nat.add_mul, hstart, Nat.mul_zero, Nat.zero_add,
      Nat.add_assoc]

theorem ofMostFirst_cons (b : Bool) (bits : List Bool) :
    ofMostFirst (b :: bits) = b.toNat * 2 ^ bits.length + ofMostFirst bits := by
  have hfold : ofMostFirst (b :: bits) = (2 * 0 + b.toNat) * 2 ^ bits.length + ofMostFirst bits :=
    foldl_ofMostFirst bits (2 * 0 + b.toNat)
  rwa [Nat.mul_zero, Nat.zero_add] at hfold

theorem ofMostFirst_mostFirst (width n : Nat) : ofMostFirst (mostFirst width n) = n % 2 ^ width := by
  induction width with
  | zero => simp [mostFirst, ofMostFirst, Nat.mod_one]
  | succ width ih =>
    rw [mostFirst, ofMostFirst_cons, length_mostFirst, ih, Nat.mod_pow_succ, Nat.toNat_testBit, Nat.mul_comm,
      Nat.add_comm]

theorem ofMostFirst_lt (bits : List Bool) : ofMostFirst bits < 2 ^ bits.length := by
  induction bits with
  | nil => exact Nat.one_pos
  | cons b bits ih =>
    have hb := b.toNat_le
    have hhead : b.toNat * 2 ^ bits.length ≤ 1 * 2 ^ bits.length := Nat.mul_le_mul_right _ hb
    rw [ofMostFirst_cons, List.length_cons, Nat.pow_succ]
    omega

theorem mostFirst_congr {m n width : Nat} (h : ∀ i < width, m.testBit i = n.testBit i) :
    mostFirst width m = mostFirst width n := by
  induction width with
  | zero => rfl
  | succ width ih =>
    rw [mostFirst, mostFirst, h width (Nat.lt_succ_self width), ih]
    intro i hi
    exact h i (Nat.lt_succ_of_lt hi)

theorem mostFirst_ofMostFirst (bits : List Bool) : mostFirst bits.length (ofMostFirst bits) = bits := by
  induction bits with
  | nil => rfl
  | cons b bits ih =>
    have hbits := ofMostFirst_lt bits
    have htop : (ofMostFirst (b :: bits)).testBit bits.length = b := by
      rw [ofMostFirst_cons, Nat.mul_comm, Nat.testBit_two_pow_mul_add _ hbits, if_neg (Nat.lt_irrefl _),
        Nat.sub_self]
      cases b <;> rfl
    have hlower : mostFirst bits.length (ofMostFirst (b :: bits)) = bits := by
      rw [ofMostFirst_cons]
      refine (mostFirst_congr ?_).trans ih
      intro i hi
      rw [Nat.mul_comm, Nat.testBit_two_pow_mul_add _ hbits, if_pos hi]
    rw [List.length_cons, mostFirst, htop, hlower]

/-- The highest bits of a number are those of its quotient. -/
theorem take_mostFirst (high low n : Nat) : (mostFirst (high + low) n).take high = mostFirst high (n / 2 ^ low) := by
  induction high with
  | zero => rw [List.take_zero, mostFirst]
  | succ high ih =>
    rw [Nat.succ_add, mostFirst, mostFirst, List.take_succ_cons, ih, Nat.testBit_div_two_pow]

/-! ## Packing -/

theorem length_toBytes (bits : List Bool) : (toBytes bits).length = (bits.length + 7) / 8 := by
  fun_induction toBytes bits with
  | case1 => rfl
  | case2 a rest first padded ih =>
    rw [List.length_cons, ih, List.length_drop, List.length_cons]
    omega

theorem ofBytes_cons (b : UInt8) (bytes : List UInt8) :
    ofBytes (b :: bytes) = mostFirst 8 b.toNat ++ ofBytes bytes := rfl

/-- Packed bits are read back with zeros behind them, up to a whole byte. -/
theorem ofBytes_toBytes (bits : List Bool) :
    ∃ zeros, ofBytes (toBytes bits) = bits ++ List.replicate zeros false := by
  fun_induction toBytes bits with
  | case1 => exact ⟨0, rfl⟩
  | case2 a rest first padded ih =>
    obtain ⟨zeros, hrest⟩ := ih
    have hlength : padded.length = 8 := by
      simp only [padded, first, List.length_append, List.length_replicate, List.length_cons, List.length_take]
      omega
    have hbyte : mostFirst 8 (UInt8.ofNat (ofMostFirst padded)).toNat = padded := by
      have hlt := ofMostFirst_lt padded
      rw [hlength] at hlt
      rw [UInt8.toNat_ofNat', Nat.mod_eq_of_lt hlt, ← hlength, mostFirst_ofMostFirst]
    rw [ofBytes_cons, hbyte, hrest]
    by_cases hlong : 7 ≤ rest.length
    · refine ⟨zeros, ?_⟩
      have hfull : 8 - first.length = 0 := by
        simp only [first, List.length_cons, List.length_take]
        omega
      simp only [padded, hfull, List.replicate_zero, List.append_nil, first, List.cons_append]
      rw [← List.append_assoc, List.take_append_drop]
    · refine ⟨8 - first.length + zeros, ?_⟩
      have hdrop : rest.drop 7 = [] := List.drop_eq_nil_of_le (by omega)
      have htake : rest.take 7 = rest := List.take_of_length_le (by omega)
      simp only [padded, first, hdrop, htake, List.nil_append, List.append_assoc,
        List.replicate_append_replicate]

/-! ## Two's complement -/

/-- A number is read back from its lowest bits in two's complement, if there is room for it. -/
theorem signed_mostFirst {width : Nat} {v : Int} (hlow : -(2 ^ width : Nat) ≤ v) (hhigh : v < (2 ^ width : Nat)) :
    signed (mostFirst (width + 1) (v % (2 ^ (width + 1) : Nat)).toNat) = v := by
  have hdouble : 2 ^ (width + 1) = 2 * 2 ^ width := by rw [Nat.pow_succ, Nat.mul_comm]
  rw [mostFirst, signed, length_mostFirst, ofMostFirst_mostFirst, Nat.shiftLeft_eq, Nat.one_mul]
  generalize hm : (v % (2 ^ (width + 1) : Nat)).toNat = m
  -- A negative number stands for the one that is a power of two more.
  have hvalue : (m : Int) = if v < 0 then v + (2 * 2 ^ width : Nat) else v := by
    have hpositive := Nat.two_pow_pos width
    rw [← hm, hdouble]
    split
    · rw [← Int.add_emod_right, Int.emod_eq_of_lt (by omega) (by omega), Int.toNat_of_nonneg (by omega)]
    · rw [Int.emod_eq_of_lt (by omega) (by omega), Int.toNat_of_nonneg (by omega)]
  have hsplit : m % 2 ^ (width + 1) = m % 2 ^ width + 2 ^ width * (m.testBit width).toNat := by
    rw [Nat.mod_pow_succ, Nat.toNat_testBit]
  have hrest := Nat.mod_lt m (Nat.two_pow_pos width)
  rw [hdouble] at hsplit
  clear hm hdouble
  generalize 2 ^ width = place at *
  rw [Nat.mod_eq_of_lt (show m < 2 * place by split at hvalue <;> omega)] at hsplit
  cases hsign : m.testBit width with
  | false =>
    rw [hsign, Bool.toNat_false, Nat.mul_zero] at hsplit
    simp only [Bool.false_eq_true, if_false]
    split at hvalue <;> omega
  | true =>
    rw [hsign, Bool.toNat_true, Nat.mul_one] at hsplit
    simp only [if_true]
    split at hvalue <;> omega

/-! ## The least significant bit first -/

@[simp] theorem length_leastFirst (width n : Nat) : (leastFirst width n).length = width := by
  induction width generalizing n with
  | zero => rfl
  | succ width ih => simp [leastFirst, ih]

theorem ofLeastFirst_leastFirst (width n : Nat) : ofLeastFirst (leastFirst width n) = n % 2 ^ width := by
  induction width generalizing n with
  | zero => simp [leastFirst, ofLeastFirst, Nat.mod_one]
  | succ width ih =>
    have hdouble : 2 ^ (width + 1) = 2 * 2 ^ width := by rw [Nat.pow_succ, Nat.mul_comm]
    rw [leastFirst, ofLeastFirst, ih, Nat.toNat_testBit, Nat.pow_zero, Nat.div_one, hdouble, Nat.mod_mul]

/-- The lowest bits of a number are its rest and then the bits of its quotient. -/
theorem leastFirst_add (low high n : Nat) :
    leastFirst (low + high) n = leastFirst low n ++ leastFirst high (n / 2 ^ low) := by
  induction low generalizing n with
  | zero => simp [leastFirst]
  | succ low ih =>
    rw [Nat.succ_add, leastFirst, ih, leastFirst, List.cons_append, Nat.div_div_eq_div_mul, Nat.pow_succ,
      Nat.mul_comm 2]

/-- The bits of a number depend on no higher bits. -/
theorem leastFirst_mod (width n : Nat) : leastFirst width (n % 2 ^ width) = leastFirst width n := by
  induction width generalizing n with
  | zero => rfl
  | succ width ih =>
    have hdouble : 2 ^ (width + 1) = 2 * 2 ^ width := by rw [Nat.pow_succ, Nat.mul_comm]
    have hlowest : (n % 2 ^ (width + 1)).testBit 0 = n.testBit 0 := by
      rw [Nat.testBit_mod_two_pow, decide_eq_true (Nat.succ_pos width), Bool.true_and]
    rw [leastFirst, leastFirst, hlowest, hdouble, Nat.mod_mul_right_div_self, ih]

/-- The bytes of a number, the lowest first, have its bits in their order. -/
theorem flatMap_littleEndian (width n : Nat) :
    (littleEndian width n).flatMap (fun b => leastFirst 8 b.toNat) = leastFirst (8 * width) n := by
  induction width generalizing n with
  | zero => rfl
  | succ width ih =>
    have hbyte : n / 256 = n / 2 ^ 8 := rfl
    rw [littleEndian, List.flatMap_cons, hbyte, ih, Nat.mul_succ, Nat.add_comm, leastFirst_add,
      UInt8.toNat_ofNat', leastFirst_mod]

end MovieVm.Bits
