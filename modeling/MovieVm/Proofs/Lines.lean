import MovieVm.Bytecode.Assembly.Line
import MovieVm.Bytecode.Disassembly
import MovieVm.Proofs.Quoted

/-!
# Written lines

A line that is put together from pieces, none of which can be taken for a comment, is what counts of it
when it is read, whatever blanks stand before it.
-/

namespace MovieVm.Text

/-- A line that is written is read up to its end. -/
theorem linesFrom_append {text : List Char} (h : '\n' ∉ text) (current rest : List Char) :
    linesFrom current (text ++ '\n' :: rest) = dropReturn (current.reverse ++ text) :: linesFrom [] rest := by
  induction text generalizing current with
  | nil => simp [linesFrom]
  | cons c text ih =>
    have hc : c ≠ '\n' := fun heq => h (heq ▸ List.mem_cons_self)
    have htext : '\n' ∉ text := fun hmem => h (List.mem_cons_of_mem _ hmem)
    simp [linesFrom, hc, ih htext (c :: current)]

/-- Lines that are written one after the other are read one after the other. -/
theorem lines_flatMap {texts : List (List Char)} (h : ∀ text ∈ texts, '\n' ∉ text) :
    lines (texts.flatMap (· ++ ['\n'])) = texts.map dropReturn := by
  induction texts with
  | nil => rfl
  | cons text texts ih =>
    obtain ⟨htext, htexts⟩ := List.forall_mem_cons.1 h
    have hrest := ih htexts
    simp only [lines] at hrest ⊢
    rw [List.flatMap_cons, List.append_assoc, List.singleton_append, linesFrom_append htext, hrest]
    rfl

theorem trimLeft_of_first {c : Char} {rest : List Char} (h : isBlank c = false) (indent : Nat) :
    trimLeft (List.replicate indent ' ' ++ c :: rest) = c :: rest := by
  have hspace : isBlank ' ' = true := by decide
  rw [trimLeft, List.dropWhile_append_of_pos (by simp [hspace])]
  simp [h]

theorem trimRight_of_last {c : Char} {rest : List Char} (h : isBlank c = false) :
    trimRight (rest ++ [c]) = rest ++ [c] := by
  simp [trimRight, h]

end MovieVm.Text

namespace MovieVm.Bytecode.Assembly

open Text

/-! ## Pieces -/

/-- A part of a line with no comment in it, which neither begins nor ends with a blank. -/
structure Piece (text : List Char) : Prop where
  kept : ∀ rest, stripComment (text ++ rest) = text ++ stripComment rest
  oneLine : '\n' ∉ text
  first : ∃ c rest, text = c :: rest ∧ isBlank c = false
  last : ∃ rest c, text = rest ++ [c] ∧ isBlank c = false

/-- Characters that say the same wherever they stand in a line. -/
def isSolid (c : Char) : Bool :=
  isBare c && c != ';'

theorem isBlank_of_isSolid {c : Char} (h : isSolid c) : isBlank c = false := by
  simp only [isSolid, isBare, Bool.and_eq_true, Bool.not_eq_true'] at h
  exact h.1.1

theorem stripComment_solid (text : List Char) (h : ∀ c ∈ text, c ≠ '"' ∧ c ≠ ';') (rest : List Char) :
    stripComment (text ++ rest) = text ++ stripComment rest := by
  induction text with
  | nil => rfl
  | cons c text ih =>
    obtain ⟨⟨hquote, hsemicolon⟩, htext⟩ := List.forall_mem_cons.1 h
    simp only [stripComment] at ih ⊢
    simp [stripCommentFrom, hquote, hsemicolon, ih htext]

theorem forall_ascii {p : Char → Prop} (h : ∀ n < 128, p (Char.ofNat n)) {c : Char}
    (hc : c.toNat < 128) : p c :=
  Char.ofNat_toNat c ▸ h c.toNat hc

theorem isBareChar_lt {c : Char} (h : isBareChar c) : c.toNat < 128 := by
  delta isBareChar Char.isAlphanum Char.isAlpha Char.isUpper Char.isLower Char.isDigit at h
  simp only [Bool.or_eq_true, Bool.and_eq_true, decide_eq_true_eq, ge_iff_le, UInt32.le_iff_toNat_le,
    ← Char.toNat_val] at h ⊢
  obtain ((((((h | h) | h) | rfl) | rfl) | rfl) | rfl) := h
  · exact Nat.lt_of_le_of_lt h.2 (by decide)
  · exact Nat.lt_of_le_of_lt h.2 (by decide)
  · exact Nat.lt_of_le_of_lt h.2 (by decide)
  -- What remains are the single characters.
  all_goals decide

/-- The characters of bare names, and with them letters and digits, are solid. -/
theorem isSolid_of_isBareChar {c : Char} (h : isBareChar c) : isSolid c :=
  forall_ascii (p := fun c => isBareChar c → isSolid c) (by decide) (isBareChar_lt h) h

variable {a b text : List Char}

theorem Piece.solid (hne : text ≠ []) (h : ∀ c ∈ text, isSolid c) : Piece text where
  kept := stripComment_solid text fun c hc => by
    have hsolid := h c hc
    simp only [isSolid, isBare, Bool.and_eq_true, bne_iff_ne] at hsolid
    exact ⟨hsolid.1.2, hsolid.2⟩
  oneLine hmem := absurd (h _ hmem) (by decide)
  first := by
    obtain ⟨c, rest, rfl⟩ := List.exists_cons_of_ne_nil hne
    exact ⟨c, rest, rfl, isBlank_of_isSolid (h c List.mem_cons_self)⟩
  last :=
    ⟨text.dropLast, text.getLast hne, (List.dropLast_concat_getLast hne).symm,
      isBlank_of_isSolid (h _ (List.getLast_mem hne))⟩

/-- A word that is known letter by letter. -/
theorem Piece.word (hne : text ≠ []) (h : text.all isSolid = true) : Piece text :=
  .solid hne (List.all_eq_true.1 h)

theorem Piece.quoted (s : List Char) : Piece (Quoted.encode s) where
  kept := Quoted.stripComment_encode s
  oneLine := Quoted.newline_not_mem_encode s
  first := ⟨'"', _, rfl, by decide⟩
  last := ⟨_, '"', rfl, by decide⟩

theorem Piece.append (ha : Piece a) (hb : Piece b) : Piece (a ++ b) where
  kept rest := by rw [List.append_assoc, ha.kept, hb.kept, List.append_assoc]
  oneLine := by simp [ha.oneLine, hb.oneLine]
  first := by
    obtain ⟨c, rest, rfl, hc⟩ := ha.first
    exact ⟨c, rest ++ b, rfl, hc⟩
  last := by
    obtain ⟨rest, c, rfl, hc⟩ := hb.last
    exact ⟨a ++ rest, c, by simp, hc⟩

/-- Two pieces with a blank between them. -/
theorem Piece.spaced (ha : Piece a) (hb : Piece b) : Piece (a ++ ' ' :: b) where
  kept rest := by
    have hblank := stripComment_solid [' '] (by simp) (b ++ rest)
    rw [List.append_assoc, ha.kept, List.cons_append]
    simp only [List.singleton_append] at hblank
    rw [hblank, hb.kept, List.append_assoc, List.cons_append]
  oneLine := by simp [ha.oneLine, hb.oneLine]
  first := by
    obtain ⟨c, rest, rfl, hc⟩ := ha.first
    exact ⟨c, rest ++ ' ' :: b, rfl, hc⟩
  last := by
    obtain ⟨rest, c, rfl, hc⟩ := hb.last
    exact ⟨a ++ ' ' :: rest, c, by simp, hc⟩

theorem Piece.content (h : Piece text) (indent : Nat) :
    content (List.replicate indent ' ' ++ text) = text := by
  have hstrip : stripComment (List.replicate indent ' ' ++ text) = List.replicate indent ' ' ++ text := by
    have hkept := h.kept []
    rw [List.append_nil] at hkept
    rw [stripComment_solid _ (by simp), hkept]
    simp [stripComment, stripCommentFrom]
  -- No blank is trimmed but those of the indent.
  obtain ⟨c, rest, hfirst, hc⟩ := h.first
  obtain ⟨front, d, hlast, hd⟩ := h.last
  rw [Assembly.content, trim, hstrip, hfirst, trimLeft_of_first hc, ← hfirst, hlast,
    trimRight_of_last hd]

theorem Piece.dropReturn (h : Piece text) (before : List Char) :
    dropReturn (before ++ text) = before ++ text := by
  obtain ⟨rest, c, rfl, hc⟩ := h.last
  have hne : c ≠ '\r' := fun heq => absurd (heq ▸ hc) (by decide)
  simp [Text.dropReturn, hne]

/-- Nothing of a line counts that begins with a semicolon. -/
theorem content_comment (text : List Char) : content (';' :: text) = [] := by
  simp [content, stripComment, stripCommentFrom, trim, trimLeft, trimRight]

end MovieVm.Bytecode.Assembly
