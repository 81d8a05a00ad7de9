import MovieVm.Proofs.GuardedTags
import MovieVm.Proofs.HeaderBounds

/-!
# Bounds read under guard

The reader of packed bits, with the places that it reads at and the distances that it shifts by. No bytes make it
trap.
-/

namespace MovieVm

/-! ## Single bits -/

namespace Bits

theorem getElem?_mostFirst {width n i : Nat} (h : i < width) :
    (mostFirst width n)[i]? = some (n.testBit (width - 1 - i)) := by
  induction width generalizing i with
  | zero => omega
  | succ width ih =>
    cases i with
    | zero => rfl
    | succ i =>
      rw [mostFirst, List.getElem?_cons_succ, ih (by omega), Nat.add_sub_cancel, Nat.sub_sub, Nat.add_comm 1]

/-- The bits of a byte stand at eight places, from the most significant one on. -/
theorem getElem?_ofBytes {bytes : List UInt8} {b : UInt8} {place : Nat} (h : bytes[place / 8]? = some b) :
    (ofBytes bytes)[place]? = some (b.toNat.testBit (7 - place % 8)) := by
  induction bytes generalizing place with
  | nil => cases h
  | cons first rest ih =>
    rw [ofBytes_cons]
    by_cases hfirst : place < 8
    · have hquotient : place / 8 = 0 := by omega
      have hplace : place % 8 = place := by omega
      rw [hquotient, List.getElem?_cons_zero] at h
      obtain rfl := Option.some.inj h
      rw [List.getElem?_append_left (by rwa [length_mostFirst]), getElem?_mostFirst hfirst, hplace]
    · obtain ⟨later, rfl⟩ := Nat.exists_eq_add_of_le (Nat.le_of_not_lt hfirst)
      have hquotient : (8 + later) / 8 = later / 8 + 1 := by omega
      have hplace : (8 + later) % 8 = later % 8 := by omega
      rw [hquotient, List.getElem?_cons_succ] at h
      rw [List.getElem?_append_right (by rw [length_mostFirst]; omega), length_mostFirst, Nat.add_sub_cancel_left, ih h,
        hplace]

/-- The bits from a place on begin with a bit of the byte that the place is in. -/
theorem drop_ofBytes {bytes : List UInt8} {b : UInt8} {place : Nat} (h : bytes[place / 8]? = some b) :
    (ofBytes bytes).drop place = b.toNat.testBit (7 - place % 8) :: (ofBytes bytes).drop (place + 1) := by
  obtain ⟨hthere, hbit⟩ := List.getElem?_eq_some_iff.1 (getElem?_ofBytes h)
  rw [List.drop_eq_getElem_cons hthere, hbit]

theorem drop_ofBytes_of_none {bytes : List UInt8} {place : Nat} (h : bytes[place / 8]? = none) :
    (ofBytes bytes).drop place = [] := by
  have hlength := List.getElem?_eq_none_iff.1 h
  exact List.drop_eq_nil_of_le (by rw [length_ofBytes]; omega)

end Bits

namespace Movie

open Guarded

/-! ## Fields of bits -/

namespace GuardedReader

/-- Reads `count` bits more of a word. Places count bits here, and the data bytes. -/
def bits : (count value : Nat) → GuardedReader Nat
  | 0, value => return value
  | count + 1, value => do
    let c ← cursor
    -- The place in the file is computed whether there is a byte or not.
    let place ← guarded (Guard.add c.base (c.position / 8))
    match Guard.index c.data (c.position / 8) with
    | none => fail (.truncated place)
    | some b =>
      let distance ← guarded (Guard.shift 8 (← guarded (Guard.sub 7 (c.position % 8))))
      seek (← guarded (Guard.add c.position 1))
      bits count ((value <<< 1) % 2 ^ 32 + (b.toNat >>> distance) % 2)

/-- A number in two's complement: its sign is moved to that of a word and comes back with the other bits. -/
def signedBits (count : Nat) : GuardedReader Int := do
  if count = 0 then return 0
  let raw ← bits count 0
  let distance ← guarded (Guard.shift 32 (← guarded (Guard.sub 32 count)))
  return (((raw <<< distance) % 2 ^ 32 : Nat) : Int).bmod (2 ^ 32) / 2 ^ distance

def rect : GuardedReader Rect := do
  let width ← bits 5 0
  let xMin ← signedBits width
  let xMax ← signedBits width
  let yMin ← signedBits width
  let yMax ← signedBits width
  return ⟨xMin, xMax, yMin, yMax⟩

/-! ## No trap -/

theorem split?_cons (count : Nat) (b : Bool) (bits : List Bool) :
    Rect.split? (count + 1) (b :: bits) = (Rect.split? count bits).map fun (field, rest) => (b :: field, rest) := by
  simp only [Rect.split?, List.length_cons, Nat.add_lt_add_iff_right]
  split <;> rfl

theorem length_of_split? {count : Nat} {bits field rest : List Bool} (h : Rect.split? count bits = some (field, rest)) :
    count ≤ bits.length ∧ field.length = count ∧ rest = bits.drop count := by
  rw [Rect.split?] at h
  split at h
  · cases h
  · rename_i hlong
    obtain ⟨rfl, rfl⟩ := Prod.mk.inj (Option.some.inj h)
    exact ⟨Nat.le_of_not_lt hlong, List.length_take_of_le (Nat.le_of_not_lt hlong), rfl⟩

variable {c : Cursor} {count value : Nat}

/-- One bit more of a word that has room for it. -/
theorem push_bit (b : UInt8) (place : Nat) (hvalue : (value + 1) * 2 ^ (count + 1) ≤ 2 ^ 32) :
    (value <<< 1) % 2 ^ 32 + (b.toNat >>> place) % 2 = 2 * value + (b.toNat.testBit place).toNat ∧
      (2 * value + (b.toNat.testBit place).toNat + 1) * 2 ^ count ≤ 2 ^ 32 := by
  have hbit := (b.toNat.testBit place).toNat_le
  have hdouble : (value + 1) * 2 ^ (count + 1) = (2 * (value + 1)) * 2 ^ count := by
    rw [Nat.pow_succ, Nat.mul_comm (2 ^ count), ← Nat.mul_assoc, Nat.mul_comm (value + 1)]
  rw [hdouble] at hvalue
  have hword : 2 * (value + 1) ≤ 2 ^ 32 := Nat.le_trans (Nat.le_mul_of_pos_right _ (Nat.two_pow_pos count)) hvalue
  constructor
  · rw [Nat.toNat_testBit, Nat.shiftRight_eq_div_pow, Nat.shiftLeft_eq, Nat.mod_eq_of_lt (by omega), Nat.pow_one,
      Nat.mul_comm]
  · exact Nat.le_trans (Nat.mul_le_mul_right _ (by omega)) hvalue

/-- One step reads the bit at the place and goes on behind it. -/
theorem bits_succ {b : UInt8} (hbyte : c.data[c.position / 8]? = some b) (hroom : c.base + 8 * c.data.length < 2 ^ 63)
    (hvalue : (value + 1) * 2 ^ (count + 1) ≤ 2 ^ 32) :
    bits (count + 1) value c =
      bits count (2 * value + (b.toNat.testBit (7 - c.position % 8)).toNat) (c.seek (c.position + 1)) := by
  have hlt := (List.getElem?_eq_some_iff.1 hbyte).1
  rw [bits, cursor_bind_apply, Guard.add_eq (by omega), guarded_some_bind, Guard.index, hbyte]
  dsimp only
  rw [Guard.sub_eq (by omega), guarded_some_bind, Guard.shift_eq (by omega), guarded_some_bind,
    Guard.add_eq (by omega), guarded_some_bind, seek_bind_apply, (push_bit b (7 - c.position % 8) hvalue).1]

/-- A field of bits as it is read bit by bit. -/
theorem bits_eq (hplace : c.position ≤ 8 * c.data.length) (hroom : c.base + 8 * c.data.length < 2 ^ 63)
    (hvalue : (value + 1) * 2 ^ count ≤ 2 ^ 32) :
    bits count value c = some (match Rect.split? count ((Bits.ofBytes c.data).drop c.position) with
      | some (field, _) => .ok (value * 2 ^ count + Bits.ofMostFirst field, c.seek (c.position + count))
      | none => .error (.truncated (c.base + c.data.length))) := by
  -- The bits that are still to come have room in the word behind those of the value, so none is ever shifted out.
  induction count generalizing c value with
  | zero =>
    change some (Except.ok (value, c)) = some (Except.ok (value * 2 ^ 0 + 0, c))
    rw [Nat.pow_zero, Nat.mul_one, Nat.add_zero]
  | succ count ih =>
    cases hbyte : c.data[c.position / 8]? with
    | none =>
      have hlength := List.getElem?_eq_none_iff.1 hbyte
      have hend : c.position / 8 = c.data.length := by omega
      rw [bits, cursor_bind_apply, Guard.add_eq (by omega), guarded_some_bind, Guard.index, hbyte,
        Bits.drop_ofBytes_of_none hbyte, hend]
      rfl
    | some b =>
      have hlt := (List.getElem?_eq_some_iff.1 hbyte).1
      have hnext : (c.seek (c.position + 1)).position ≤ 8 * (c.seek (c.position + 1)).data.length := by
        change c.position + 1 ≤ 8 * c.data.length
        omega
      rw [bits_succ hbyte hroom hvalue, ih hnext hroom (push_bit b _ hvalue).2, Bits.drop_ofBytes hbyte, split?_cons]
      simp only [Cursor.seek]
      cases hsplit : Rect.split? count ((Bits.ofBytes c.data).drop (c.position + 1)) with
      | none => rfl
      | some parts =>
        obtain ⟨field, rest⟩ := parts
        have hword : (2 * value + (b.toNat.testBit (7 - c.position % 8)).toNat) * 2 ^ count + Bits.ofMostFirst field =
            value * 2 ^ (count + 1) + Bits.ofMostFirst (b.toNat.testBit (7 - c.position % 8) :: field) := by
          rw [Bits.ofMostFirst_cons, (length_of_split? hsplit).2.1, Nat.add_mul, Nat.pow_succ, Nat.add_assoc,
            Nat.mul_comm 2, Nat.mul_assoc, Nat.mul_comm 2]
        change some (Except.ok (_, Cursor.mk c.data c.base (c.position + 1 + count))) =
          some (Except.ok (_, Cursor.mk c.data c.base (c.position + (count + 1))))
        rw [hword, Nat.add_assoc, Nat.add_comm 1]

theorem bmod_of_unsigned {n : Nat} (h : n < 2 ^ 31) : ((n % 2 ^ 32 : Nat) : Int).bmod (2 ^ 32) = n := by
  rw [Int.bmod_def]
  split <;> omega

theorem bmod_of_signed {n : Nat} (h : n < 2 ^ 31) :
    (((2 ^ 31 + n) % 2 ^ 32 : Nat) : Int).bmod (2 ^ 32) = (n : Int) - (2 ^ 31 : Nat) := by
  rw [Int.bmod_def]
  split <;> omega

/-- The sign of a word takes off twice what it counts for. -/
theorem extend_sign {field : List Bool} {count : Nat} (hlength : field.length = count) (hpositive : 0 < count)
    (hword : count ≤ 32) :
    (((Bits.ofMostFirst field <<< (32 - count)) % 2 ^ 32 : Nat) : Int).bmod (2 ^ 32) / 2 ^ (32 - count) =
      Bits.signed field := by
  obtain _ | ⟨sign, rest⟩ := field
  · exact absurd hlength (Nat.ne_of_lt hpositive)
  · rw [List.length_cons] at hlength
    obtain ⟨distance, hdistance⟩ := Nat.exists_eq_add_of_le hword
    -- The field is moved up until its sign stands at the highest place of the word.
    have hpow : 2 ^ rest.length * 2 ^ distance = 2 ^ 31 := by
      rw [← Nat.pow_add]
      exact congrArg (2 ^ ·) (by omega)
    have hlow : Bits.ofMostFirst rest * 2 ^ distance < 2 ^ 31 := by
      rw [← hpow]
      exact Nat.mul_lt_mul_of_pos_right (Bits.ofMostFirst_lt rest) (Nat.two_pow_pos distance)
    have hshift : 32 - count = distance := by omega
    have hnonzero : (2 ^ distance : Int) ≠ 0 := Int.ne_of_gt (Int.pow_pos (by decide))
    rw [hshift, Bits.signed, Bits.ofMostFirst_cons, Nat.shiftLeft_eq, Nat.shiftLeft_eq, Nat.one_mul, Nat.add_mul,
      Nat.mul_assoc, hpow]
    cases sign with
    | false =>
      have hword : (((false.toNat * 2 ^ 31 + Bits.ofMostFirst rest * 2 ^ distance) % 2 ^ 32 : Nat) : Int).bmod
          (2 ^ 32) = (Bits.ofMostFirst rest : Int) * 2 ^ distance := by
        rw [Bool.toNat_false, Nat.zero_mul, Nat.zero_add, bmod_of_unsigned hlow]
        push_cast
        rfl
      rw [hword, Int.mul_ediv_cancel _ hnonzero]
      simp
    | true =>
      have hword : (((true.toNat * 2 ^ 31 + Bits.ofMostFirst rest * 2 ^ distance) % 2 ^ 32 : Nat) : Int).bmod
          (2 ^ 32) = ((Bits.ofMostFirst rest : Int) - (2 ^ rest.length : Nat)) * 2 ^ distance := by
        rw [Bool.toNat_true, Nat.one_mul, bmod_of_signed hlow, ← hpow, Int.sub_mul]
        push_cast
        rfl
      rw [hword, Int.mul_ediv_cancel _ hnonzero]
      simp

/-- A coordinate of no bits is zero; the others are words with a sign. -/
theorem signedBits_eq (hplace : c.position ≤ 8 * c.data.length) (hroom : c.base + 8 * c.data.length < 2 ^ 63)
    (hword : count ≤ 31) :
    signedBits count c = some (match Rect.split? count ((Bits.ofBytes c.data).drop c.position) with
      | some (field, _) => .ok (Bits.signed field, c.seek (c.position + count))
      | none => .error (.truncated (c.base + c.data.length))) := by
  rw [signedBits]
  by_cases hzero : count = 0
  · subst hzero
    rfl
  · have hvalue : (0 + 1) * 2 ^ count ≤ 2 ^ 32 := by
      rw [Nat.zero_add, Nat.one_mul]
      exact Nat.pow_le_pow_right (by decide) (by omega)
    rw [if_neg hzero, bind_apply, bits_eq hplace hroom hvalue]
    cases hsplit : Rect.split? count ((Bits.ofBytes c.data).drop c.position) with
    | none => rfl
    | some parts =>
      obtain ⟨field, rest⟩ := parts
      dsimp only
      rw [Guard.sub_eq (by omega), guarded_some_bind, Guard.shift_eq (by omega), guarded_some_bind, Nat.zero_mul,
        Nat.zero_add, extend_sign (length_of_split? hsplit).2.1 (by omega) (by omega)]
      rfl

/-! ### Rectangles -/

/-- A guarded reader has read what bits hold, or has come to their end. -/
inductive Unpacks {α : Type} (stop : Nat) : Option α → Option (Except Fault (α × Cursor)) → Prop where
  | ok (a : α) (c : Cursor) : Unpacks stop (some a) (some (.ok (a, c)))
  | error : Unpacks stop none (some (.error (.truncated stop)))

variable {α : Type}

theorem le_of_split? {field rest : List Bool} (hplace : c.position ≤ 8 * c.data.length)
    (hsplit : Rect.split? count ((Bits.ofBytes c.data).drop c.position) = some (field, rest)) :
    c.position + count ≤ 8 * c.data.length ∧ rest = (Bits.ofBytes c.data).drop (c.position + count) := by
  obtain ⟨hlong, -, hrest⟩ := length_of_split? hsplit
  rw [List.length_drop, Bits.length_ofBytes] at hlong
  rw [List.drop_drop] at hrest
  exact ⟨by omega, hrest⟩

/-- A coordinate is unpacked, and then what follows it. -/
theorem Unpacks.signed_bind {bits : List Bool} {next : List Bool × List Bool → Option α}
    {k : Int → GuardedReader α} (hbits : bits = (Bits.ofBytes c.data).drop c.position)
    (hplace : c.position ≤ 8 * c.data.length) (hroom : c.base + 8 * c.data.length < 2 ^ 63) (hword : count ≤ 31)
    (h : ∀ field rest, rest = (Bits.ofBytes c.data).drop (c.position + count) →
      c.position + count ≤ 8 * c.data.length →
      Unpacks (c.base + c.data.length) (next (field, rest)) (k (Bits.signed field) (c.seek (c.position + count)))) :
    Unpacks (c.base + c.data.length) (Rect.split? count bits >>= next) ((signedBits count >>= k) c) := by
  subst hbits
  rw [bind_apply, signedBits_eq hplace hroom hword]
  cases hsplit : Rect.split? count ((Bits.ofBytes c.data).drop c.position) with
  | none => exact .error
  | some parts =>
    obtain ⟨hplace', hrest⟩ := le_of_split? hplace hsplit
    exact h parts.1 parts.2 hrest hplace'

theorem unpacks_rect {data : List UInt8} {base : Nat} (hroom : base + 8 * data.length < 2 ^ 63) :
    Unpacks (base + data.length) (Rect.ofBits? (Bits.ofBytes data)) (rect ⟨data, base, 0⟩) := by
  have hbits : bits 5 0 ⟨data, base, 0⟩ = _ := bits_eq (Nat.zero_le _) hroom (by decide)
  rw [rect, bind_apply, hbits, Rect.ofBits?]
  cases hsplit : Rect.split? 5 (Bits.ofBytes data) with
  | none =>
    rw [List.drop_zero, hsplit]
    exact .error
  | some parts =>
    obtain ⟨hplace, hrest⟩ := le_of_split? (c := ⟨data, base, 0⟩) (Nat.zero_le _) hsplit
    -- Five bits hold no number above 31, so no coordinate is wider than a word.
    have hfield := (length_of_split? hsplit).2.1
    have hwidth := Bits.ofMostFirst_lt parts.1
    have hword : Bits.ofMostFirst parts.1 ≤ 31 := by
      rw [hfield] at hwidth
      omega
    rw [List.drop_zero, hsplit]
    dsimp only [Option.bind_eq_bind, Option.bind_some]
    rw [Nat.zero_mul, Nat.zero_add]
    refine Unpacks.signed_bind (c := ⟨data, base, _⟩) hrest hplace hroom hword fun xMin _ hrest hplace => ?_
    refine Unpacks.signed_bind (c := ⟨data, base, _⟩) hrest hplace hroom hword fun xMax _ hrest hplace => ?_
    refine Unpacks.signed_bind (c := ⟨data, base, _⟩) hrest hplace hroom hword fun yMin _ hrest hplace => ?_
    refine Unpacks.signed_bind (c := ⟨data, base, _⟩) hrest hplace hroom hword fun yMax _ hrest hplace => ?_
    exact .ok _ _

theorem rect_of_decode {data : List UInt8} {base : Nat} {bounds : Rect} (hroom : base + 8 * data.length < 2 ^ 63)
    (h : Rect.decode data base = .ok bounds) : ∃ c, rect ⟨data, base, 0⟩ = some (.ok (bounds, c)) := by
  have hunpacks := unpacks_rect hroom
  rw [Rect.decode] at h
  generalize Rect.ofBits? (Bits.ofBytes data) = result at hunpacks h
  generalize rect ⟨data, base, 0⟩ = out at hunpacks
  cases hunpacks with
  | ok a c =>
    obtain rfl := Except.ok.inj h
    exact ⟨c, rfl⟩
  | error => cases h

end GuardedReader

end Movie

end MovieVm
