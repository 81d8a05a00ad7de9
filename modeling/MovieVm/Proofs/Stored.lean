import MovieVm.Deflate.Stored
import MovieVm.Proofs.Bits
import MovieVm.Proofs.Bytes
import MovieVm.Proofs.Success

/-!
# Stored blocks inflate

A stream of stored blocks inflates to the bytes that it stores.
-/

namespace MovieVm.Deflate

/-- The bits of bytes in the order of a stream. -/
def streamBits (bytes : List UInt8) : List Bool :=
  bytes.flatMap fun b => Bits.leastFirst 8 b.toNat

@[simp] theorem streamBits_append (a b : List UInt8) : streamBits (a ++ b) = streamBits a ++ streamBits b :=
  List.flatMap_append

theorem streamBits_cons (b : UInt8) (bytes : List UInt8) :
    streamBits (b :: bytes) = Bits.leastFirst 8 b.toNat ++ streamBits bytes := rfl

theorem streamBits_littleEndian (width n : Nat) : streamBits (littleEndian width n) = Bits.leastFirst (8 * width) n :=
  Bits.flatMap_littleEndian width n

theorem length_streamBits (bytes : List UInt8) : (streamBits bytes).length = 8 * bytes.length := by
  induction bytes with
  | nil => rfl
  | cons b bytes ih =>
    rw [streamBits_cons, List.length_append, ih, Bits.length_leastFirst, List.length_cons]
    omega

/-! ## Reading bits -/

namespace BitReader

theorem bits_append (given rest : List Bool) : bits given.length (given ++ rest) = .ok given rest := by
  induction given with
  | nil => rfl
  | cons b given ih =>
    have hbit : bit (b :: given ++ rest) = .ok b (given ++ rest) := rfl
    rw [List.length_cons, bits, EStateM.bind_of_ok hbit, EStateM.bind_of_ok ih]
    rfl

theorem number_append {width n : Nat} (h : n < 2 ^ width) (rest : List Bool) :
    number width (Bits.leastFirst width n ++ rest) = .ok n rest := by
  have hbits := bits_append (Bits.leastFirst width n) rest
  rw [Bits.length_leastFirst] at hbits
  rw [number, EStateM.bind_of_ok hbits, Bits.ofLeastFirst_leastFirst, Nat.mod_eq_of_lt h]
  rfl

theorem number_byte (b : UInt8) (rest : List Bool) :
    number 8 (Bits.leastFirst 8 b.toNat ++ rest) = .ok b.toNat rest :=
  number_append b.toNat_lt rest

/-- Behind whole bytes there is nothing to drop but what is left of the byte that was begun. -/
theorem align_append {begun rest : List Bool} (hbegun : begun.length < 8) (hrest : rest.length % 8 = 0) :
    align (begun ++ rest) = .ok ⟨⟩ rest := by
  have hdrop : (begun ++ rest).length % 8 = begun.length := by
    rw [List.length_append]
    omega
  change EStateM.Result.ok PUnit.unit ((begun ++ rest).drop ((begun ++ rest).length % 8)) = _
  rw [hdrop, List.drop_left]

end BitReader

open BitReader

namespace Inflate

/-! ## Items one after the other -/

/-- Reading items leads from one state of a stream to another. Each item has at least one bit. -/
inductive Unpacks : Inflate → Inflate → Prop where
  | refl (s : Inflate) : Unpacks s s
  | item {s t : Inflate} {phase : Phase} {output : Array UInt8} {bits : List Bool}
    (hitem : Inflate.item s.output s.phase s.bits = .ok (phase, output) bits)
    (hbits : bits.length < s.bits.length) (h : Unpacks ⟨phase, bits, output⟩ t) : Unpacks s t

theorem Unpacks.trans {s t u : Inflate} (h : Unpacks s t) (h' : Unpacks t u) : Unpacks s u := by
  induction h with
  | refl => exact h'
  | item hitem hbits _ ih => exact .item hitem hbits (ih h')

/-- An item that takes the first bits. -/
theorem Unpacks.next {phase phase' : Phase} {output output' : Array UInt8} {given rest : List Bool} {t : Inflate}
    (hitem : Inflate.item output phase (given ++ rest) = .ok (phase', output') rest) (hgiven : 0 < given.length)
    (h : Unpacks ⟨phase', rest, output'⟩ t) : Unpacks ⟨phase, given ++ rest, output⟩ t := by
  refine .item hitem ?_ h
  simp only [List.length_append]
  omega

/-- A run reads all items that lead to the end of the stream. -/
theorem Unpacks.run {s t : Inflate} (h : Unpacks s t) (hended : t.phase = .ended) {fuel : Nat}
    (hfuel : s.bits.length < fuel) : run fuel s = some t := by
  induction h generalizing fuel with
  | refl s =>
    cases fuel with
    | zero => exact absurd hfuel (Nat.not_lt_zero _)
    | succ fuel =>
      rw [Inflate.run, hended]
      rfl
  | item hitem hbits _ ih =>
    cases fuel with
    | zero => exact absurd hfuel (Nat.not_lt_zero _)
    | succ fuel =>
      rw [Inflate.run, hitem]
      exact ih hended (Nat.lt_of_lt_of_le hbits (Nat.le_of_lt_succ hfuel))

variable {output : Array UInt8} {rest : List Bool}

/-- The bytes of a stored block are taken one by one. -/
theorem unpacks_stored (isLast : Bool) (b : UInt8) (data : List UInt8) :
    Unpacks ⟨.stored isLast (data.length + 1), streamBits (b :: data) ++ rest, output⟩
      ⟨afterBlock isLast, rest, output ++ (b :: data).toArray⟩ := by
  induction data generalizing b output with
  | nil =>
    have hitem : Inflate.item output (.stored isLast 1) (Bits.leastFirst 8 b.toNat ++ rest) =
        .ok (afterBlock isLast, output.push b) rest := by
      rw [Inflate.item, EStateM.bind_of_ok (number_byte b _), UInt8.ofNat_toNat]
      rfl
    have houtput : output ++ [b].toArray = output.push b := by simp
    rw [streamBits_cons, streamBits, List.flatMap_nil, List.append_nil, houtput]
    exact .next hitem (by simp) (.refl _)
  | cons c data ih =>
    have hitem : Inflate.item output (.stored isLast (data.length + 2))
        (Bits.leastFirst 8 b.toNat ++ (streamBits (c :: data) ++ rest)) =
        .ok (.stored isLast (data.length + 1), output.push b) (streamBits (c :: data) ++ rest) := by
      have hmore : ¬ data.length + 2 ≤ 1 := by omega
      rw [Inflate.item, EStateM.bind_of_ok (number_byte b _), UInt8.ofNat_toNat, if_neg hmore]
      rfl
    have houtput : output ++ (b :: c :: data).toArray = output.push b ++ (c :: data).toArray := by simp
    rw [streamBits_cons, List.append_assoc, houtput]
    exact .next hitem (by simp) (ih c)

/-- A block that stores bytes. -/
def storedBlock (isLast : Bool) (data : List UInt8) : List UInt8 :=
  UInt8.ofNat isLast.toNat :: littleEndian 2 data.length ++ littleEndian 2 (maxBlock - data.length) ++ data

theorem item_block (isLast : Bool) (rest : List Bool) :
    Inflate.item output .block (isLast :: Bits.leastFirst 2 0 ++ rest) = .ok (.storedHeader isLast, output) rest := by
  have hbit : bit (isLast :: Bits.leastFirst 2 0 ++ rest) = .ok isLast (Bits.leastFirst 2 0 ++ rest) := rfl
  have hkind : number 2 (Bits.leastFirst 2 0 ++ rest) = .ok 0 rest := number_append (by decide) rest
  rw [Inflate.item, EStateM.bind_of_ok hbit, EStateM.bind_of_ok hkind]
  rfl

theorem item_storedHeader (isLast : Bool) {length : Nat} (hlength : length ≤ maxBlock)
    (hrest : rest.length % 8 = 0) :
    Inflate.item output (.storedHeader isLast) (List.replicate 5 false ++ (Bits.leastFirst 16 length ++
        (Bits.leastFirst 16 (maxBlock - length) ++ rest))) =
      .ok (if length = 0 then afterBlock isLast else .stored isLast length, output) rest := by
  have hmax : maxBlock = 65535 := rfl
  have halign : align (List.replicate 5 false ++ (Bits.leastFirst 16 length ++
      (Bits.leastFirst 16 (maxBlock - length) ++ rest))) =
      .ok ⟨⟩ (Bits.leastFirst 16 length ++ (Bits.leastFirst 16 (maxBlock - length) ++ rest)) := by
    apply align_append (by decide)
    simp only [List.length_append, Bits.length_leastFirst]
    omega
  have hsum : ¬ length + (maxBlock - length) ≠ 65535 := by omega
  rw [Inflate.item, EStateM.bind_of_ok halign, EStateM.bind_of_ok (number_append (by omega) _),
    EStateM.bind_of_ok (number_append (by omega) rest), if_neg hsum]
  rfl

/-- A block is taken as a whole. -/
theorem unpacks_storedBlock (isLast : Bool) {data : List UInt8} (hdata : data.length ≤ maxBlock)
    (hrest : rest.length % 8 = 0) :
    Unpacks ⟨.block, streamBits (storedBlock isLast data) ++ rest, output⟩
      ⟨afterBlock isLast, rest, output ++ data.toArray⟩ := by
  have hfirst : Bits.leastFirst 8 (UInt8.ofNat isLast.toNat).toNat =
      isLast :: Bits.leastFirst 2 0 ++ List.replicate 5 false := by
    cases isLast <;> decide
  have hbits : streamBits (storedBlock isLast data) ++ rest = isLast :: Bits.leastFirst 2 0 ++
      (List.replicate 5 false ++ (Bits.leastFirst 16 data.length ++
        (Bits.leastFirst 16 (maxBlock - data.length) ++ (streamBits data ++ rest)))) := by
    simp only [storedBlock, streamBits_cons, streamBits_append, streamBits_littleEndian, List.cons_append, hfirst,
      List.append_assoc]
  have hwhole : (streamBits data ++ rest).length % 8 = 0 := by
    rw [List.length_append, length_streamBits]
    omega
  rw [hbits]
  refine .next (item_block isLast _) (by simp) ?_
  refine .item (item_storedHeader isLast hdata hwhole) ?_ ?_
  · simp only [List.length_append, Bits.length_leastFirst, List.length_replicate]
    omega
  · cases data with
    | nil =>
      have hnone : output ++ ([] : List UInt8).toArray = output := Array.append_empty
      rw [hnone]
      exact .refl _
    | cons b data => exact unpacks_stored isLast b data

theorem storedBlocks_of_short {bytes : List UInt8} (h : bytes.length ≤ maxBlock) :
    storedBlocks bytes = storedBlock true bytes := by
  rw [storedBlocks, if_pos h, List.take_of_length_le h]
  rfl

theorem storedBlocks_of_long {bytes : List UInt8} (h : ¬ bytes.length ≤ maxBlock) :
    storedBlocks bytes = storedBlock false (bytes.take maxBlock) ++ storedBlocks (bytes.drop maxBlock) := by
  rw [storedBlocks, if_neg h]
  rfl

/-- All blocks are taken one after the other. -/
theorem unpacks_storedBlocks (bytes : List UInt8) (output : Array UInt8) (hrest : rest.length % 8 = 0) :
    Unpacks ⟨.block, streamBits (storedBlocks bytes) ++ rest, output⟩
      ⟨.checksum, rest, output ++ bytes.toArray⟩ := by
  by_cases hshort : bytes.length ≤ maxBlock
  · rw [storedBlocks_of_short hshort]
    exact unpacks_storedBlock true hshort hrest
  · have hblock : (bytes.take maxBlock).length ≤ maxBlock := List.length_take_le _ _
    have hmore : (streamBits (storedBlocks (bytes.drop maxBlock)) ++ rest).length % 8 = 0 := by
      rw [List.length_append, length_streamBits]
      omega
    have hsplit : bytes.toArray = (bytes.take maxBlock).toArray ++ (bytes.drop maxBlock).toArray := by
      rw [List.append_toArray, List.take_append_drop]
    rw [storedBlocks_of_long hshort, streamBits_append, List.append_assoc, hsplit, ← Array.append_assoc]
    exact (unpacks_storedBlock false hblock hmore).trans (unpacks_storedBlocks _ _ hrest)
termination_by bytes.length
decreasing_by
  have hmax : 0 < maxBlock := by decide
  rw [List.length_drop]
  omega

/-! ## The checksum -/

/-- The two sums with one more byte. -/
def addByte (sums : Nat × Nat) (b : UInt8) : Nat × Nat :=
  ((sums.1 + b.toNat) % 65521, (sums.2 + (sums.1 + b.toNat) % 65521) % 65521)

theorem checksum_eq (bytes : Array UInt8) :
    checksum bytes = 65536 * (bytes.toList.foldl addByte (1, 0)).2 + (bytes.toList.foldl addByte (1, 0)).1 := by
  rw [checksum, ← Array.foldl_toList]
  rfl

theorem foldl_addByte_lt (bytes : List UInt8) {sums : Nat × Nat} (hlow : sums.1 < 65521) (hhigh : sums.2 < 65521) :
    (bytes.foldl addByte sums).1 < 65521 ∧ (bytes.foldl addByte sums).2 < 65521 := by
  induction bytes generalizing sums with
  | nil => exact ⟨hlow, hhigh⟩
  | cons b bytes ih => exact ih (Nat.mod_lt _ (by decide)) (Nat.mod_lt _ (by decide))

theorem checksum_lt (bytes : Array UInt8) : checksum bytes < 256 ^ 4 := by
  have hstart : (1, 0).1 < 65521 ∧ (1, 0).2 < 65521 := by decide
  obtain ⟨hlow, hhigh⟩ := foldl_addByte_lt bytes.toList hstart.1 hstart.2
  rw [checksum_eq]
  omega

/-- Whole bytes are read one by one. -/
theorem mapM_number (bytes : List UInt8) (rest : List Bool) {items : List Nat} (h : items.length = bytes.length) :
    (items.mapM fun _ => number 8) (streamBits bytes ++ rest) = .ok (bytes.map UInt8.toNat) rest := by
  induction bytes generalizing items with
  | nil =>
    obtain rfl := List.eq_nil_of_length_eq_zero h
    rfl
  | cons b bytes ih =>
    obtain ⟨item, items, rfl⟩ := List.exists_cons_of_length_eq_add_one h
    rw [streamBits_cons, List.append_assoc, List.mapM_cons, EStateM.bind_of_ok (number_byte b _),
      EStateM.bind_of_ok (ih (Nat.succ.inj h))]
    rfl

theorem item_checksum (bytes : Array UInt8) :
    Inflate.item bytes .checksum (streamBits (littleEndian 4 (checksum bytes)).reverse) = .ok (.ended, bytes) [] := by
  have hlength : (littleEndian 4 (checksum bytes)).reverse.length = 4 := by simp [littleEndian]
  have hwhole : (streamBits (littleEndian 4 (checksum bytes)).reverse).length % 8 = 0 := by
    rw [length_streamBits]
    omega
  have halign : align (streamBits (littleEndian 4 (checksum bytes)).reverse) =
      .ok ⟨⟩ (streamBits (littleEndian 4 (checksum bytes)).reverse) :=
    @align_append [] _ (by decide) hwhole
  have hparts := mapM_number (littleEndian 4 (checksum bytes)).reverse []
    ((List.length_range (n := 4)).trans hlength.symm)
  rw [List.append_nil] at hparts
  rw [Inflate.item, EStateM.bind_of_ok halign, EStateM.bind_of_ok hparts, List.foldl_map, foldl_reverse,
    ofLittleEndian_mod, Nat.mod_eq_of_lt (checksum_lt bytes), if_pos rfl]
  rfl

theorem item_header (rest : List Bool) :
    Inflate.item output .header (streamBits [0x78, 0x01] ++ rest) = .ok (.block, output) rest := by
  rw [streamBits_cons, streamBits_cons, List.append_assoc, List.append_assoc, Inflate.item,
    EStateM.bind_of_ok (number_byte _ _), EStateM.bind_of_ok (number_byte _ _)]
  rfl

/-- A stream of stored blocks inflates to the bytes that it stores. -/
theorem push_store (bytes : List UInt8) : ∃ s, push {} (store bytes) = some (bytes, s) := by
  have hbits : streamBits (store bytes) = streamBits [0x78, 0x01] ++
      (streamBits (storedBlocks bytes) ++ streamBits (littleEndian 4 (checksum bytes.toArray)).reverse) := by
    simp only [store, streamBits_append, List.append_assoc]
  have htrailer : (streamBits (littleEndian 4 (checksum bytes.toArray)).reverse).length % 8 = 0 := by
    rw [length_streamBits]
    omega
  have hoff : (#[] : Array UInt8) ++ bytes.toArray = bytes.toArray := Array.empty_append
  have hblocks := unpacks_storedBlocks bytes #[] htrailer
  rw [hoff] at hblocks
  have hunpacks : Unpacks ⟨.header, streamBits (store bytes), #[]⟩ ⟨.ended, [], bytes.toArray⟩ := by
    rw [hbits]
    refine .next (item_header _) (by decide) (hblocks.trans (.item (item_checksum _) ?_ (.refl _)))
    simp only [length_streamBits, List.length_reverse, littleEndian, List.length_cons, List.length_nil]
    decide
  refine ⟨⟨.ended, [], bytes.toArray⟩, ?_⟩
  have hrun := hunpacks.run rfl (Nat.lt_succ_self _)
  rw [streamBits] at hrun
  simp only [push, List.nil_append, hrun]
  rfl

end Inflate

end MovieVm.Deflate
