import MovieVm.Movie.Rect
import MovieVm.Proofs.Bits

/-!
# Rectangles read back

A rectangle whose coordinates fit into 31 bits is read back from its encoding, and the first byte of the
encoding tells how long it is.
-/

namespace MovieVm.Movie.Rect

/-! ## Widths -/

/-- The coordinates can be written. -/
def Fits (r : Rect) : Prop :=
  ∀ n ∈ r.coordinates, -2 ^ 30 ≤ n ∧ n < 2 ^ 30

instance (r : Rect) : Decidable r.Fits :=
  inferInstanceAs (Decidable (∀ n ∈ r.coordinates, _))

theorem lt_two_pow_digits (n : Nat) : n < 2 ^ digits n := by
  unfold digits
  split
  · omega
  · exact Nat.lt_log2_self

theorem digits_le {n width : Nat} (h : n < 2 ^ width) : digits n ≤ width := by
  unfold digits
  split
  · exact Nat.zero_le _
  · rename_i hn
    exact (Nat.log2_lt hn).2 h

theorem signedWidth_le {n : Int} (hlow : -2 ^ 30 ≤ n) (hhigh : n < 2 ^ 30) : signedWidth n ≤ 31 := by
  have hdigits : digits (if 0 ≤ n then n.toNat else (-n - 1).toNat) ≤ 30 := by
    apply digits_le
    split <;> omega
  unfold signedWidth
  omega

theorem bounds_of_signedWidth {n : Int} {width : Nat} (h : signedWidth n ≤ width + 1) :
    -(2 ^ width : Nat) ≤ n ∧ n < (2 ^ width : Nat) := by
  have hroom : ∀ m, 1 + digits m ≤ width + 1 → m < 2 ^ width := by
    intro m hm
    exact Nat.lt_of_lt_of_le (lt_two_pow_digits m) (Nat.pow_le_pow_right (by decide) (by omega))
  unfold signedWidth at h
  split at h
  · have hlt := hroom _ h
    omega
  · have hlt := hroom _ h
    omega

variable {r : Rect}

theorem width_pos (r : Rect) : 0 < r.width := by
  simp only [width, coordinates, List.map_cons, List.map_nil, List.foldl_cons, List.foldl_nil]
  omega

theorem width_le (r : Rect) : r.width ≤ 31 :=
  Nat.min_le_left _ _

/-- No coordinate of a rectangle that can be written is too wide. -/
theorem signedWidth_le_width (h : r.Fits) {n : Int} (hn : n ∈ r.coordinates) : signedWidth n ≤ r.width := by
  have hfits : ∀ m ∈ r.coordinates, signedWidth m ≤ 31 := fun m hm => signedWidth_le (h m hm).1 (h m hm).2
  simp only [coordinates, List.forall_mem_cons] at hfits
  simp only [coordinates, List.mem_cons, List.not_mem_nil, or_false] at hn
  simp only [width, coordinates, List.map_cons, List.map_nil, List.foldl_cons, List.foldl_nil]
  rcases hn with rfl | rfl | rfl | rfl <;> omega

/-! ## Reading back -/

theorem split?_append {n : Nat} {bits rest : List Bool} (h : bits.length = n) :
    split? n (bits ++ rest) = some (bits, rest) := by
  subst h
  simp [split?]

theorem length_field (width : Nat) (n : Int) : (field width n).length = width :=
  Bits.length_mostFirst _ _

theorem signed_field (h : r.Fits) {n : Int} (hn : n ∈ r.coordinates) : Bits.signed (field r.width n) = n := by
  obtain ⟨width, hwidth⟩ := Nat.exists_eq_add_one_of_ne_zero (Nat.ne_of_gt r.width_pos)
  have hfits := signedWidth_le_width h hn
  rw [hwidth] at hfits ⊢
  obtain ⟨hlow, hhigh⟩ := bounds_of_signedWidth hfits
  rw [field, Nat.shiftLeft_eq, Nat.one_mul]
  exact Bits.signed_mostFirst hlow hhigh

theorem toBits_eq (r : Rect) : r.toBits = Bits.mostFirst 5 r.width ++ (field r.width r.xMin ++
    (field r.width r.xMax ++ (field r.width r.yMin ++ (field r.width r.yMax ++ [])))) := rfl

theorem length_toBits (r : Rect) : r.toBits.length = 5 + 4 * r.width := by
  simp only [toBits_eq, List.length_append, length_field, Bits.length_mostFirst, List.length_nil]
  omega

theorem ofMostFirst_width (r : Rect) : Bits.ofMostFirst (Bits.mostFirst 5 r.width) = r.width := by
  have hwidth := r.width_le
  rw [Bits.ofMostFirst_mostFirst]
  omega

theorem ofBits?_toBits (h : r.Fits) (rest : List Bool) : ofBits? (r.toBits ++ rest) = some r := by
  have hsigned : ∀ n ∈ r.coordinates, Bits.signed (field r.width n) = n := fun n hn => signed_field h hn
  simp only [coordinates, List.forall_mem_cons] at hsigned
  obtain ⟨hxMin, hxMax, hyMin, hyMax, -⟩ := hsigned
  simp only [ofBits?, toBits_eq, List.append_assoc, split?_append (Bits.length_mostFirst _ _),
    split?_append (length_field _ _), ofMostFirst_width, Option.bind_eq_bind, Option.bind_some, hxMin, hxMax,
    hyMin, hyMax]
  rfl

/-- A rectangle is read back from its encoding. -/
theorem decode_encode (h : r.Fits) (base : Nat) : decode r.encode base = .ok r := by
  obtain ⟨zeros, hbits⟩ := Bits.ofBytes_toBytes r.toBits
  simp only [decode, encode, hbits, ofBits?_toBits h]

/-- The first byte of an encoding gives its size. -/
theorem head?_encode (r : Rect) : ∃ first, r.encode.head? = some first ∧ encodedSize first = r.encode.length := by
  obtain ⟨zeros, hbits⟩ := Bits.ofBytes_toBytes r.toBits
  have hlength : r.encode.length = (5 + 4 * r.width + 7) / 8 := by
    rw [encode, Bits.length_toBytes, length_toBits]
  cases hencode : r.encode with
  | nil =>
    rw [hencode, List.length_nil] at hlength
    omega
  | cons first rest =>
    refine ⟨first, rfl, ?_⟩
    -- The first five bits are the highest bits of the first byte.
    have hfirst : Bits.mostFirst 5 (first.toNat / 8) = Bits.mostFirst 5 r.width := by
      rw [← encode, hencode, Bits.ofBytes_cons, toBits_eq] at hbits
      have hfive := congrArg (List.take 5) hbits
      rw [List.append_assoc, List.take_append_of_le_length (by rw [Bits.length_mostFirst]; decide),
        List.take_left' (Bits.length_mostFirst _ _)] at hfive
      exact (Bits.take_mostFirst 5 3 first.toNat).symm.trans hfive
    have hwidth : first.toNat / 8 = r.width := by
      have hlt := first.toNat_lt
      rw [← ofMostFirst_width, ← hfirst, Bits.ofMostFirst_mostFirst]
      omega
    rw [encodedSize, hwidth, ← hlength, hencode]

end MovieVm.Movie.Rect
