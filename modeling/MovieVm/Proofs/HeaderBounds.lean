import MovieVm.Proofs.Rect
import MovieVm.Proofs.TagScan

/-!
# The bounds in a header

Any bytes are a rectangle, if only there are as many as the first of them says. What is read of them can be written
again, so a header that is all there is always read.
-/

namespace MovieVm

/-! ## Bits of any kind -/

namespace Bits

theorem length_ofBytes (bytes : List UInt8) : (ofBytes bytes).length = 8 * bytes.length := by
  induction bytes with
  | nil => rfl
  | cons b bytes ih =>
    rw [ofBytes_cons, List.length_append, length_mostFirst, ih, List.length_cons]
    omega

/-- The sign is one of the bits, so a number lies between the powers of two of the others. -/
theorem signed_bounds {bits : List Bool} {width : Nat} (h : bits.length ≤ width + 1) :
    -(2 ^ width : Nat) ≤ signed bits ∧ signed bits < (2 ^ width : Nat) := by
  cases bits with
  | nil =>
    have hpositive := Nat.two_pow_pos width
    rw [signed]
    omega
  | cons sign rest =>
    have hrest := ofMostFirst_lt rest
    have hroom : 2 ^ rest.length ≤ 2 ^ width := Nat.pow_le_pow_right (by decide) (Nat.le_of_succ_le_succ h)
    -- A sign that is set takes off more than the other bits can make up.
    rw [signed, Nat.shiftLeft_eq, Nat.one_mul]
    split <;> omega

end Bits

namespace Movie

/-! ## Rectangles of any bytes -/

namespace Rect

theorem split?_of_le {n : Nat} {bits : List Bool} (h : n ≤ bits.length) :
    split? n bits = some (bits.take n, bits.drop n) :=
  if_neg (Nat.not_lt.2 h)

/-- The width that bits begin with. -/
def givenWidth (bits : List Bool) : Nat :=
  Bits.ofMostFirst (bits.take 5)

theorem givenWidth_le (bits : List Bool) : givenWidth bits ≤ 31 := by
  have hlt := Bits.ofMostFirst_lt (bits.take 5)
  have hroom : 2 ^ (bits.take 5).length ≤ 2 ^ 5 := Nat.pow_le_pow_right (by decide) (List.length_take_le 5 bits)
  rw [givenWidth]
  omega

theorem givenWidth_ofBytes (first : UInt8) (rest : List UInt8) :
    givenWidth (Bits.ofBytes (first :: rest)) = first.toNat / 8 := by
  have hlt := first.toNat_lt
  have hfive : (Bits.ofBytes (first :: rest)).take 5 = Bits.mostFirst 5 (first.toNat / 8) := by
    rw [Bits.ofBytes_cons, List.take_append_of_le_length (by rw [Bits.length_mostFirst]; decide)]
    exact Bits.take_mostFirst 5 3 first.toNat
  rw [givenWidth, hfive, Bits.ofMostFirst_mostFirst]
  omega

/-- A field is read, and the bits for those behind it are left. -/
theorem exists_split? {n k : Nat} {bits : List Bool} (h : n + k ≤ bits.length) :
    ∃ field rest, split? n bits = some (field, rest) ∧ field.length = n ∧ k ≤ rest.length := by
  refine ⟨bits.take n, bits.drop n, split?_of_le (by omega), List.length_take_of_le (by omega), ?_⟩
  rw [List.length_drop]
  omega

/-- Four coordinates are read, and none of them is too large to be written. -/
theorem exists_ofBits? {bits : List Bool} (h : 5 + 4 * givenWidth bits ≤ bits.length) :
    ∃ r, ofBits? bits = some r ∧ r.Fits := by
  have hwidth := givenWidth_le bits
  have hfive : split? 5 bits = some (bits.take 5, bits.drop 5) := split?_of_le (by omega)
  -- The width is read from the bits themselves; from here on only its size matters.
  obtain ⟨width, hgiven⟩ : ∃ width, Bits.ofMostFirst (bits.take 5) = width := ⟨_, rfl⟩
  rw [givenWidth, hgiven] at h hwidth
  obtain ⟨xMin, _, hxMin, hxMinLength, hrest⟩ : ∃ field rest, split? width (bits.drop 5) = some (field, rest) ∧
      field.length = width ∧ width + (width + width) ≤ rest.length :=
    exists_split? (by rw [List.length_drop]; omega)
  obtain ⟨xMax, _, hxMax, hxMaxLength, hrest⟩ := exists_split? hrest
  obtain ⟨yMin, _, hyMin, hyMinLength, hrest⟩ := exists_split? hrest
  obtain ⟨yMax, _, hyMax, hyMaxLength, -⟩ := exists_split? (k := 0) hrest
  have hbounds : ∀ field : List Bool, field.length = width →
      -2 ^ 30 ≤ Bits.signed field ∧ Bits.signed field < 2 ^ 30 := by
    intro field hlength
    exact Bits.signed_bounds (hlength ▸ hwidth)
  refine ⟨⟨Bits.signed xMin, Bits.signed xMax, Bits.signed yMin, Bits.signed yMax⟩, ?_, ?_⟩
  · simp only [ofBits?, hfive, hgiven, hxMin, hxMax, hyMin, hyMax, Option.bind_eq_bind, Option.bind_some]
    rfl
  · simp only [Fits, coordinates, List.forall_mem_cons]
    exact ⟨hbounds _ hxMinLength, hbounds _ hxMaxLength, hbounds _ hyMinLength, hbounds _ hyMaxLength,
      List.forall_mem_nil _⟩

variable {bytes : List UInt8} {first : UInt8}

theorem encodedSize_pos (first : UInt8) : 0 < encodedSize first := by
  rw [encodedSize]
  omega

/-- As many bytes as the first one says hold a rectangle. -/
theorem exists_decode (hfirst : bytes.head? = some first) (hlong : encodedSize first ≤ bytes.length) :
    ∃ r : Rect, (∀ base, decode bytes base = .ok r) ∧ r.Fits := by
  obtain _ | ⟨b, rest⟩ := bytes
  · cases hfirst
  · obtain rfl := Option.some.inj hfirst
    have hbits : 5 + 4 * givenWidth (Bits.ofBytes (b :: rest)) ≤ (Bits.ofBytes (b :: rest)).length := by
      rw [givenWidth_ofBytes, Bits.length_ofBytes]
      rw [encodedSize] at hlong
      omega
    obtain ⟨r, hread, hfits⟩ := exists_ofBits? hbits
    refine ⟨r, fun base => ?_, hfits⟩
    rw [decode, hread]

theorem exists_decode_take (hfirst : bytes.head? = some first) (hlong : encodedSize first ≤ bytes.length) :
    ∃ r : Rect, (∀ base, decode (bytes.take (encodedSize first)) base = .ok r) ∧ r.Fits := by
  have hhead : (bytes.take (encodedSize first)).head? = some first := by
    rw [List.head?_take, if_neg (Nat.ne_of_gt (encodedSize_pos first)), hfirst]
  exact exists_decode hhead (Nat.le_of_eq (List.length_take_of_le hlong).symm)

/-- What follows an encoding is not looked at. -/
theorem decode_encode_append {r : Rect} (h : r.Fits) (more : List UInt8) (base : Nat) :
    decode (r.encode ++ more) base = .ok r := by
  obtain ⟨zeros, hbits⟩ := Bits.ofBytes_toBytes r.toBits
  have happend : Bits.ofBytes (r.encode ++ more) = r.toBits ++ (List.replicate zeros false ++ Bits.ofBytes more) := by
    rw [Bits.ofBytes, List.flatMap_append, ← Bits.ofBytes, ← Bits.ofBytes, encode, hbits, List.append_assoc]
  simp only [decode, happend, ofBits?_toBits h]

end Rect

/-! ## Headers -/

/-- A header that is all there is read, and its bounds can be written. -/
theorem Preamble.exists_readHeader (p : Preamble) {body : List UInt8} {first : UInt8}
    (hfirst : body.head? = some first) (hlong : Rect.encodedSize first + 4 ≤ body.length) :
    ∃ file : File, p.readHeader body = .ok (some (file, body.drop (Rect.encodedSize first + 4))) ∧
      file.header.bounds.Fits := by
  obtain ⟨r, hread, hfits⟩ := Rect.exists_decode_take hfirst (Nat.le_of_add_right_le hlong)
  refine ⟨p.openedFile (Rect.encodedSize first) body r, ?_, hfits⟩
  rw [readHeader_of_long hlong hfirst, hread]
  rfl

/-- A header is waited for or read, but never at fault. -/
theorem Preamble.readHeader_ne_error (p : Preamble) (body : List UInt8) (fault : Fault) :
    p.readHeader body ≠ .error fault := by
  intro herror
  have hthere : p.readHeader body ≠ .ok none := by simp [herror]
  obtain ⟨first, hfirst, hlong⟩ := long_of_readHeader hthere
  obtain ⟨file, hread, -⟩ := p.exists_readHeader hfirst hlong
  cases herror.symm.trans hread

namespace Rect

/-- A rectangle with coordinates of 31 bits is written in as many bytes as the first of them says, and read back from
them whatever follows. As many bytes as the first of them says are a rectangle with such coordinates, wherever they
stand, and writing that rectangle reproduces it. So a header of which all bytes have arrived is read, and none is ever
at fault. -/
theorem codec_is_exact :
    (∀ r : Rect, r.Fits →
        (∃ first, r.encode.head? = some first ∧ r.encode.length = encodedSize first) ∧
          ∀ more base, decode (r.encode ++ more) base = .ok r) ∧
      (∀ (bytes : List UInt8) (first : UInt8), bytes.head? = some first → encodedSize first ≤ bytes.length →
        ∃ r : Rect, (∀ base, decode (bytes.take (encodedSize first)) base = .ok r) ∧ r.Fits ∧
          ∀ more base, decode (r.encode ++ more) base = .ok r) ∧
      (∀ (p : Preamble) (bytes : List UInt8) (first : UInt8), bytes.head? = some first →
        encodedSize first + 4 ≤ bytes.length →
        ∃ file : File, p.readHeader bytes = .ok (some (file, bytes.drop (encodedSize first + 4)))) ∧
      ∀ (p : Preamble) bytes fault, p.readHeader bytes ≠ .error fault := by
  refine ⟨fun r hfits => ⟨?_, decode_encode_append hfits⟩, fun bytes first hfirst hlong => ?_,
    fun p bytes first hfirst hlong => ?_, Preamble.readHeader_ne_error⟩
  · obtain ⟨first, hfirst, hsize⟩ := r.head?_encode
    exact ⟨first, hfirst, hsize.symm⟩
  · obtain ⟨r, hread, hfits⟩ := exists_decode_take hfirst hlong
    exact ⟨r, hread, hfits, decode_encode_append hfits⟩
  · obtain ⟨file, hread, -⟩ := p.exists_readHeader hfirst hlong
    exact ⟨file, hread⟩

/-- The coordinates that are the widest to write. -/
def extremes : Rect :=
  ⟨-2 ^ 30, 2 ^ 30 - 1, -1, 0⟩

/-- A rectangle that ends in ones where its writer leaves zeros, and a frame rate and a number of frames. -/
def paddedHeader : List UInt8 :=
  [0x0f, 0xff, 0, 24, 1, 0, 7]

theorem codec_is_exact_at_extremes :
    extremes.Fits ∧ decode (extremes.encode ++ [0xff]) 8 = .ok extremes ∧
      paddedHeader.head? = some 0x0f ∧ encodedSize 0x0f + 4 ≤ paddedHeader.length ∧
      (∃ r : Rect, (∀ base, decode (paddedHeader.take (encodedSize 0x0f)) base = .ok r) ∧ r.Fits ∧
        ∀ more base, decode (r.encode ++ more) base = .ok r) ∧
      ∃ file : File, Preamble.readHeader ⟨false, 10, 14⟩ paddedHeader =
        .ok (some (file, paddedHeader.drop (encodedSize 0x0f + 4))) := by
  obtain ⟨hwritten, hread, hheaders, -⟩ := codec_is_exact
  have hfits : extremes.Fits := by decide
  have hfirst : paddedHeader.head? = some 0x0f := rfl
  have hlong : encodedSize 0x0f + 4 ≤ paddedHeader.length := by decide
  exact ⟨hfits, (hwritten extremes hfits).2 _ _, hfirst, hlong, hread _ _ hfirst (Nat.le_of_add_right_le hlong),
    hheaders _ _ _ hfirst hlong⟩

end Rect

end Movie

end MovieVm
