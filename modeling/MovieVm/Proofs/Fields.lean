import MovieVm.Movie.Draft
import MovieVm.Proofs.Bytes
import MovieVm.Proofs.LossyUtf8
import MovieVm.Proofs.Primitive
import MovieVm.Proofs.Success

/-!
# Fields read back

A field that is written is read back, and the reader stops right behind it.
-/

namespace MovieVm.Movie

open Bytecode (length_littleEndian)

/-! ## Texts without zeros -/

theorem zero_not_mem_encodeChar {c : Char} (h : c ≠ '\x00') : 0 ∉ String.utf8EncodeChar c := by
  have hc : c.toNat ≠ 0 := by
    intro hzero
    apply h
    rw [← Char.ofNat_toNat c, hzero]
  have hvalid : c.toNat < 0xd800 ∨ 0xdfff < c.toNat ∧ c.toNat < 0x110000 := c.valid
  have hbyte : ∀ n, n < 256 → n ≠ 0 → (0 : UInt8) ≠ UInt8.ofNat n := by
    intro n hn hpositive hzero
    have hsame := congrArg UInt8.toNat hzero
    rw [UInt8.toNat_ofNat', Nat.mod_eq_of_lt hn] at hsame
    exact hpositive hsame.symm
  rw [String.utf8EncodeChar.eq_1, Char.toNat_val]
  repeat' split
  all_goals
    simp only [List.mem_cons, List.not_mem_nil, or_false, not_or]
    (repeat' apply And.intro) <;> exact hbyte _ (by omega) (by omega)

/-- Only the character of the zero byte has zeros in its bytes. -/
theorem zero_not_mem_toUtf8 {s : String} (h : '\x00' ∉ s.toList) : 0 ∉ Text.toUtf8 s := by
  rw [Text.toUtf8_eq_flatMap, List.mem_flatMap]
  rintro ⟨c, hc, hzero⟩
  have hne : c ≠ '\x00' := fun hsame => h (hsame ▸ hc)
  exact zero_not_mem_encodeChar hne hzero

namespace Content

/-- Nothing is left out of a text without zeros. -/
theorem terminated_eq {s : String} (h : '\x00' ∉ s.toList) : terminated s = Text.toUtf8 s ++ [0] := by
  have hzeros := zero_not_mem_toUtf8 h
  rw [terminated, List.filter_eq_self.2]
  intro b hb
  exact decide_eq_true fun hsame => hzeros (hsame ▸ hb)

end Content

/-! ## Readers -/

namespace Reader

theorem skip_append (given rest : List UInt8) (position : Nat) :
    Source.skip ⟨position, given ++ rest⟩ given.length = ⟨position + given.length, rest⟩ := by
  simp [Source.skip]

/-- A number of a fixed width is read back. -/
theorem number_append {width n : Nat} (h : n < 256 ^ width) (position : Nat) (rest : List UInt8) :
    number width ⟨position, littleEndian width n ++ rest⟩ = .ok n ⟨position + width, rest⟩ := by
  have hskip := skip_append (littleEndian width n) rest position
  have hread : ofLittleEndian ((littleEndian width n ++ rest).take width) = n := by
    rw [List.take_left' (length_littleEndian width n), ofLittleEndian_mod, Nat.mod_eq_of_lt h]
  rw [length_littleEndian] at hskip
  refine EStateM.bind_eq_ok.2 ⟨_, _, rfl, ?_⟩
  simp only [hskip]
  refine EStateM.bind_eq_ok.2 ⟨⟨⟩, ⟨position + width, rest⟩, rfl, ?_⟩
  exact EStateM.refuse_eq_ok.2 ⟨fun hne => hne rfl, EStateM.pure_eq_ok.2 ⟨hread, rfl⟩⟩

theorem bytes_append (given : List UInt8) (position : Nat) (rest : List UInt8) :
    bytes given.length ⟨position, given ++ rest⟩ = .ok given ⟨position + given.length, rest⟩ := by
  refine EStateM.bind_eq_ok.2 ⟨_, _, rfl, ?_⟩
  simp only [skip_append]
  refine EStateM.refuse_eq_ok.2 ⟨fun hne => hne rfl, ?_⟩
  refine EStateM.bind_eq_ok.2 ⟨⟨⟩, ⟨position + given.length, rest⟩, rfl, ?_⟩
  exact EStateM.pure_eq_ok.2 ⟨List.take_left, rfl⟩

/-- A text without zeros is read back. -/
theorem terminatedText_append {s : String} (h : '\x00' ∉ s.toList) (position : Nat) (rest : List UInt8) :
    terminatedText ⟨position, Content.terminated s ++ rest⟩ =
      .ok s ⟨position + (Content.terminated s).length, rest⟩ := by
  have hzeros := zero_not_mem_toUtf8 h
  have htext : (Content.terminated s ++ rest).takeWhile (· ≠ 0) = Text.toUtf8 s := by
    rw [Content.terminated_eq h, List.append_assoc, List.takeWhile_append_of_pos]
    · simp
    · intro b hb
      exact decide_eq_true fun hsame => hzeros (hsame ▸ hb)
  have hlength : (Text.toUtf8 s).length + 1 = (Content.terminated s).length := by
    rw [Content.terminated_eq h, List.length_append]
    rfl
  change EStateM.Result.ok (Text.ofUtf8Lossy ((Content.terminated s ++ rest).takeWhile (· ≠ 0)))
    (Source.skip ⟨position, Content.terminated s ++ rest⟩
      (((Content.terminated s ++ rest).takeWhile (· ≠ 0)).length + 1)) = _
  rw [htext, Text.ofUtf8Lossy_toUtf8, hlength, skip_append]

/-- The last number of some data. -/
theorem number_whole {width n : Nat} (h : n < 256 ^ width) (position : Nat) :
    number width ⟨position, littleEndian width n⟩ = .ok n ⟨position + width, []⟩ := by
  have hread := number_append h position []
  rwa [List.append_nil] at hread

theorem bytes_whole (given : List UInt8) (position : Nat) :
    bytes given.length ⟨position, given⟩ = .ok given ⟨position + given.length, []⟩ := by
  have hread := bytes_append given position []
  rwa [List.append_nil] at hread

theorem terminatedText_whole {s : String} (h : '\x00' ∉ s.toList) (position : Nat) :
    terminatedText ⟨position, Content.terminated s⟩ = .ok s ⟨position + (Content.terminated s).length, []⟩ := by
  have hread := terminatedText_append h position []
  rwa [List.append_nil] at hread

end Reader

/-! ## Bodies of tags -/

namespace File

open Reader

variable {id : Nat} {name : String} (position : Nat)

theorem readAbc_of_body {flags : Nat} (hname : '\x00' ∉ name.toList) (hflags : flags < 256 ^ 4) (data : List UInt8) :
    ∃ after, readAbc ⟨position, littleEndian 4 flags ++ Content.terminated name ++ data⟩ =
      .ok (flags, name, data) after := by
  rw [List.append_assoc, readAbc, EStateM.bind_of_ok (number_append hflags position _),
    EStateM.bind_of_ok (terminatedText_append hname _ data)]
  exact ⟨_, rfl⟩

theorem readNameTable_of_body (hid : id < 256 ^ 2) (hname : '\x00' ∉ name.toList) :
    readNameTable ⟨position, Content.nameTable id name⟩ = ([(id, name)], none) := by
  have hcount : number 2 ⟨position, Content.nameTable id name⟩ =
      .ok 1 ⟨position + 2, littleEndian 2 id ++ Content.terminated name⟩ := by
    rw [Content.nameTable, List.append_assoc]
    exact number_append (by decide) position _
  have hentry : (do
      let id ← number 2
      return (id, ← terminatedText) : Reader (Nat × String))
      ⟨position + 2, littleEndian 2 id ++ Content.terminated name⟩ =
      .ok (id, name) ⟨position + 2 + 2 + (Content.terminated name).length, []⟩ := by
    rw [EStateM.bind_of_ok (number_append hid _ _), EStateM.bind_of_ok (terminatedText_whole hname _)]
    rfl
  simp only [readNameTable, hcount, readNames, hentry]

/-- A color is read from the highest byte on. -/
theorem readColor_of_body (color : Nat) :
    ∃ after, readColor ⟨position, (littleEndian 3 color).reverse⟩ = .ok (color % 2 ^ 24) after := by
  have hbytes := bytes_whole (littleEndian 3 color).reverse position
  rw [List.length_reverse, length_littleEndian] at hbytes
  rw [readColor, EStateM.bind_of_ok hbytes, foldl_reverse, ofLittleEndian_mod]
  exact ⟨_, rfl⟩

theorem readImage_of_body (hid : id < 256 ^ 2) (tag : Tag) (length : Nat) (payload : List UInt8) :
    ∃ after, readImage tag length ⟨position, littleEndian 2 id ++ payload⟩ =
      .ok ⟨id, .image, tag, none, length⟩ after := by
  rw [readImage, EStateM.bind_of_ok (number_append hid position payload)]
  exact ⟨_, rfl⟩

theorem readBinaryData_of_body (hid : id < 256 ^ 2) (tag : Tag) (data : List UInt8) :
    ∃ after, readBinaryData tag ⟨position, littleEndian 2 id ++ littleEndian 4 0 ++ data⟩ =
      .ok ⟨id, .binaryData, tag, none, data.length⟩ after := by
  rw [List.append_assoc, readBinaryData, EStateM.bind_of_ok (number_append hid position _),
    EStateM.bind_of_ok (number_append (by decide) _ data)]
  exact ⟨_, rfl⟩

/-- No zeros are cut off the end of a name that has none. -/
theorem dropWhile_of_not_mem {cs : List Char} (h : '\x00' ∉ cs) : cs.dropWhile (· = '\x00') = cs := by
  cases cs with
  | nil => rfl
  | cons c cs =>
    have hc : ¬ c = '\x00' := fun hsame => h (hsame ▸ List.mem_cons_self)
    rw [List.dropWhile_cons_of_neg]
    simpa using hc

/-- A name with its length, behind two bytes of flags. -/
theorem fontName_of_body (hname : '\x00' ∉ name.toList) (hlength : name.utf8ByteSize ≤ 255) (rest : List UInt8) :
    ∃ after, fontName .defineFont3 ⟨position, littleEndian 1 0 ++ (littleEndian 1 0 ++
      (littleEndian 1 (Text.toUtf8 name).length ++ (Text.toUtf8 name ++ rest)))⟩ = .ok (some name) after := by
  have hsize : (Text.toUtf8 name).length < 256 ^ 1 := by
    rw [Text.length_toUtf8]
    omega
  have hkept : String.ofList ((Text.ofUtf8Lossy (Text.toUtf8 name)).toList.reverse.dropWhile (· = '\x00')).reverse =
      name := by
    have hreverse : '\x00' ∉ name.toList.reverse := fun hmem => hname (List.mem_reverse.1 hmem)
    rw [Text.ofUtf8Lossy_toUtf8, dropWhile_of_not_mem hreverse, List.reverse_reverse, String.ofList_toList]
  rw [fontName, if_pos (by decide), EStateM.bind_of_ok (number_append (by decide) position _),
    EStateM.bind_of_ok (number_append (by decide) _ _), EStateM.bind_of_ok (number_append hsize _ _),
    EStateM.bind_of_ok (bytes_append _ _ rest)]
  exact ⟨_, congrArg (fun s => EStateM.Result.ok (some s) _) hkept⟩

theorem length_fontBody (hlength : name.utf8ByteSize ≤ 255) (id : Nat) :
    (Content.fontBody id name).length = name.utf8ByteSize + 7 := by
  simp only [Content.fontBody, List.length_append, length_littleEndian, List.length_take, Text.length_toUtf8,
    List.length_cons, List.length_nil]
  omega

theorem readFont_of_body (hid : id < 256 ^ 2) (hname : '\x00' ∉ name.toList) (hlength : name.utf8ByteSize ≤ 255)
    (length : Nat) :
    ∃ after, readFont .defineFont3 length ⟨position, Content.fontBody id name⟩ =
      .ok ⟨id, .font, .defineFont3, some name, length⟩ after := by
  have hwhole : (Text.toUtf8 name).take 255 = Text.toUtf8 name := by
    apply List.take_of_length_le
    rwa [Text.length_toUtf8]
  have hbody : Content.fontBody id name = littleEndian 2 id ++ (littleEndian 1 0 ++ (littleEndian 1 0 ++
      (littleEndian 1 (Text.toUtf8 name).length ++ (Text.toUtf8 name ++ littleEndian 2 0)))) := by
    simp only [Content.fontBody, hwhole, List.append_assoc]
    rfl
  obtain ⟨after, hfont⟩ := fontName_of_body (position + 2) hname hlength (littleEndian 2 0)
  rw [hbody, readFont, EStateM.bind_of_ok (number_append hid position _), EStateM.bind_of_ok hfont]
  exact ⟨_, rfl⟩

end File

end MovieVm.Movie
