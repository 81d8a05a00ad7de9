import MovieVm.Text.Utf8

/-!
# Reading back UTF-8

Bytes are the encoding of a text exactly when the strict reader returns that text.
-/

namespace MovieVm.Text

/-- The bytes of an array, one by one from index `i` on. -/
theorem toList_loop (b : ByteArray) (i : Nat) (read : List UInt8) :
    ByteArray.toList.loop b i read = read.reverse ++ b.data.toList.drop i := by
  fun_induction ByteArray.toList.loop b i read with
  | case1 i read h ih =>
    have hi : i < b.data.toList.length := h
    have hget : b.get! i = b.data.toList[i] := getElem!_pos b.data i h
    rw [ih, List.drop_eq_getElem_cons hi, hget]
    simp
  | case2 i read h =>
    have hi : b.data.toList.length ≤ i := Nat.le_of_not_lt h
    rw [List.drop_eq_nil_of_le hi, List.append_nil]

theorem toUtf8_eq (s : String) : toUtf8 s = s.toByteArray.data.toList := by
  simp [toUtf8, ByteArray.toList, toList_loop]

@[simp]
theorem length_toUtf8 (s : String) : (toUtf8 s).length = s.utf8ByteSize := by
  rw [toUtf8_eq]
  rfl

theorem ofUtf8?_eq_some {bytes : List UInt8} {s : String} :
    ofUtf8? bytes = some s ↔ bytes = toUtf8 s := by
  rw [toUtf8_eq]
  unfold ofUtf8? String.fromUTF8?
  constructor
  · intro h
    split at h
    · obtain rfl := Option.some.inj h
      simp [String.fromUTF8]
    · cases h
  · rintro rfl
    -- The bytes of a string are valid UTF-8 by the way in which strings are made.
    have hvalid : (ByteArray.mk s.toByteArray.data.toList.toArray).IsValidUTF8 := by
      simpa using s.isValidUTF8
    rw [dif_pos hvalid]
    exact congrArg some (String.toByteArray_inj.1 (by simp [String.fromUTF8]))

end MovieVm.Text
