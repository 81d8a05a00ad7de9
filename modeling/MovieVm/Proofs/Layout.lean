import Mathlib.Data.List.Induction
import Mathlib.Data.List.TakeWhile
import Mathlib.Logic.Relation
import MovieVm.Proofs.Lines
import MovieVm.Proofs.Listing

/-!
# Layout

What counts of a text are the contents of its lines that have any. Blanks at either end of a line, lines without
contents, and comments behind closed literals do not change them, wherever in the text they are put or taken away.
-/

namespace MovieVm.Text

variable {blanks s : List Char}

theorem trimLeft_append_left (h : ∀ c ∈ blanks, isBlank c = true) (s : List Char) :
    trimLeft (blanks ++ s) = trimLeft s := by
  rw [trimLeft, List.dropWhile_append_of_pos h, trimLeft]

theorem trimRight_append_right (s : List Char) (h : ∀ c ∈ blanks, isBlank c = true) :
    trimRight (s ++ blanks) = trimRight s := by
  rw [trimRight, List.reverse_append, List.dropWhile_append_of_pos (by simpa using h), trimRight]

theorem trim_append_left (h : ∀ c ∈ blanks, isBlank c = true) (s : List Char) : trim (blanks ++ s) = trim s := by
  rw [trim, trimLeft_append_left h, trim]

/-- Where there is nothing but blanks, nothing is left. -/
theorem trim_of_blanks (h : ∀ c ∈ blanks, isBlank c = true) : trim blanks = [] := by
  simpa [trim, trimLeft, trimRight] using trim_append_left h []

theorem trim_append_right (s : List Char) (h : ∀ c ∈ blanks, isBlank c = true) : trim (s ++ blanks) = trim s := by
  -- Where all of it is blank, what is trimmed on the left takes the added blanks along.
  by_cases hs : ∀ c ∈ s, isBlank c = true
  · rw [trim_append_left hs, trim_of_blanks h, trim_of_blanks hs]
  · have hleft : trimLeft (s ++ blanks) = trimLeft s ++ blanks := by
      have hleft : ¬ (s.dropWhile isBlank).isEmpty := by
        rw [List.isEmpty_iff, List.dropWhile_eq_nil_iff]
        exact hs
      rw [trimLeft, List.dropWhile_append, if_neg hleft, trimLeft]
    rw [trim, hleft, trimRight_append_right _ h, trim]

/-- What is trimmed off are blanks. -/
theorem exists_trim (s : List Char) : ∃ front back, (∀ c ∈ front, isBlank c = true) ∧ (∀ c ∈ back, isBlank c = true) ∧
    s = front ++ (trim s ++ back) := by
  refine ⟨s.takeWhile isBlank, ((trimLeft s).reverse.takeWhile isBlank).reverse, fun c hc => List.mem_takeWhile_imp hc,
    fun c hc => List.mem_takeWhile_imp (List.mem_reverse.1 hc), ?_⟩
  rw [trim, trimRight, ← List.reverse_append, List.takeWhile_append_dropWhile, List.reverse_reverse, trimLeft,
    List.takeWhile_append_dropWhile]

/-! ## Lines of a text -/

/-- A line can begin behind this text. -/
def AtStart (before : List Char) : Prop :=
  before = [] ∨ ∃ front, before = front ++ ['\n']

/-- What ends a line. -/
def LineEnd (gap : List Char) : Prop :=
  gap = ['\n'] ∨ gap = ['\r', '\n']

/-- A line ends before this text. -/
def AtEnd (after : List Char) : Prop :=
  after = [] ∨ ∃ gap rest, LineEnd gap ∧ after = gap ++ rest

theorem linesFrom_append_newline (current front rest : List Char) :
    linesFrom current (front ++ '\n' :: rest) = linesFrom current (front ++ ['\n']) ++ linesFrom [] rest := by
  induction front generalizing current with
  | nil => simp [linesFrom]
  | cons c front ih =>
    rw [List.cons_append, List.cons_append, linesFrom, linesFrom]
    split
    · rw [ih, List.cons_append]
    · exact ih _

theorem lines_append {before : List Char} (h : AtStart before) (rest : List Char) :
    lines (before ++ rest) = lines before ++ lines rest := by
  obtain rfl | ⟨front, rfl⟩ := h
  · rfl
  · rw [List.append_assoc, List.singleton_append]
    exact linesFrom_append_newline [] front rest

theorem lines_last {line : List Char} (h : '\n' ∉ line) : lines line = if line = [] then [] else [line] := by
  -- The lines are read with the beginning of the current one in hand, so the induction is over any beginning.
  suffices hfrom : ∀ current, linesFrom current line =
      if current.reverse ++ line = [] then [] else [current.reverse ++ line] from hfrom []
  induction line with
  | nil => simp [linesFrom]
  | cons c line ih =>
    intro current
    have hc : c ≠ '\n' := fun heq => h (heq ▸ List.mem_cons_self)
    rw [linesFrom, if_neg hc, ih (List.not_mem_of_not_mem_cons h)]
    simp

/-- The line that a text breaks off in. -/
theorem exists_open (before : List Char) : ∃ front line, before = front ++ line ∧ AtStart front ∧ '\n' ∉ line := by
  induction before using List.reverseRecOn with
  | nil => exact ⟨[], [], rfl, .inl rfl, List.not_mem_nil⟩
  | append_singleton before c ih =>
    obtain ⟨front, line, rfl, hfront, hline⟩ := ih
    by_cases hc : c = '\n'
    · exact ⟨front ++ line ++ [c], [], by simp, .inr ⟨_, by rw [hc]⟩, List.not_mem_nil⟩
    · exact ⟨front, line ++ [c], by simp, hfront, by simp [hline, Ne.symm hc]⟩

/-- The line that a text begins with. -/
theorem exists_first (rest : List Char) : ∃ line after, rest = line ++ after ∧ '\n' ∉ line ∧ AtEnd after := by
  induction rest with
  | nil => exact ⟨[], [], rfl, List.not_mem_nil, .inl rfl⟩
  | cons c rest ih =>
    by_cases hc : c = '\n'
    · exact ⟨[], c :: rest, rfl, List.not_mem_nil, .inr ⟨['\n'], rest, .inl rfl, by rw [hc]; rfl⟩⟩
    · obtain ⟨line, after, rfl, hline, hafter⟩ := ih
      exact ⟨c :: line, after, rfl, by simp [hline, Ne.symm hc], hafter⟩

end MovieVm.Text

namespace MovieVm.Bytecode.Assembly

open Text

/-! ## The content of a line -/

variable {blanks line comment : List Char}

theorem ne_of_isBlank {c : Char} (h : isBlank c = true) : c ≠ '"' ∧ c ≠ ';' ∧ c ≠ '\\' := by
  refine ⟨?_, ?_, ?_⟩ <;> · rintro rfl; cases h

theorem content_append_left (h : ∀ c ∈ blanks, isBlank c = true) (line : List Char) :
    content (blanks ++ line) = content line := by
  rw [content, stripComment_solid _ (fun c hc => ⟨(ne_of_isBlank (h c hc)).1, (ne_of_isBlank (h c hc)).2.1⟩),
    trim_append_left h, content]

/-- Blanks are no part of what decides where a comment starts. -/
theorem stripCommentFrom_blanks (h : ∀ c ∈ blanks, isBlank c = true) (quoted escaped : Bool) :
    stripCommentFrom quoted escaped blanks = blanks := by
  induction blanks generalizing escaped with
  | nil => rfl
  | cons c blanks ih =>
    obtain ⟨hc, hblanks⟩ := List.forall_mem_cons.1 h
    obtain ⟨hquote, hsemicolon, hbackslash⟩ := ne_of_isBlank hc
    simp [stripCommentFrom, hquote, hsemicolon, hbackslash, ih hblanks]

theorem stripCommentFrom_append_right (line : List Char) (h : ∀ c ∈ blanks, isBlank c = true) (quoted escaped : Bool) :
    ∃ kept, (∀ c ∈ kept, isBlank c = true) ∧
      stripCommentFrom quoted escaped (line ++ blanks) = stripCommentFrom quoted escaped line ++ kept := by
  induction line generalizing quoted escaped with
  | nil => exact ⟨blanks, h, stripCommentFrom_blanks h quoted escaped⟩
  | cons c line ih =>
    rw [List.cons_append, stripCommentFrom, stripCommentFrom]
    repeat' split
    -- The one case that does not go on is a semicolon outside of a literal: it drops the blanks with the rest.
    case cons.isFalse.isFalse.isFalse.isTrue => exact ⟨[], List.forall_mem_nil _, rfl⟩
    all_goals
      obtain ⟨kept, hkept, heq⟩ := ih _ _
      exact ⟨kept, hkept, by rw [heq, List.cons_append]⟩

theorem content_append_right (line : List Char) (h : ∀ c ∈ blanks, isBlank c = true) :
    content (line ++ blanks) = content line := by
  obtain ⟨kept, hkept, heq⟩ := stripCommentFrom_append_right line h false false
  rw [content, stripComment, heq, trim_append_right _ hkept, content, stripComment]

theorem stripCommentFrom_idem (line : List Char) (quoted escaped : Bool) :
    stripCommentFrom quoted escaped (stripCommentFrom quoted escaped line) = stripCommentFrom quoted escaped line := by
  induction line generalizing quoted escaped with
  | nil => rfl
  | cons c line ih =>
    rw [stripCommentFrom]
    repeat' split
    all_goals simp [stripCommentFrom, *]

/-- The content of a line has neither a comment nor blanks at its ends. -/
theorem content_content (line : List Char) : content (content line) = content line := by
  obtain ⟨front, back, hfront, hback, hstripped⟩ := exists_trim (stripComment line)
  have hsame : content (stripComment line) = trim (stripComment line) := by
    rw [content, stripComment, stripComment, stripCommentFrom_idem]
  rw [hstripped, content_append_left hfront, content_append_right _ hback, ← hstripped] at hsame
  exact hsame

theorem isBlank_return : ∀ c ∈ ['\r'], isBlank c = true := by
  intro c hc
  rw [List.mem_singleton.1 hc]
  rfl

theorem content_dropReturn (line : List Char) : content (dropReturn line) = content line := by
  unfold dropReturn
  split
  · rename_i hlast
    obtain ⟨front, rfl⟩ := List.getLast?_eq_some_iff.1 hlast
    rw [List.dropLast_concat, content_append_right _ isBlank_return]
  · rfl

/-! ## Closed literals -/

/-- What stands between the quotes of a literal: a backslash takes the character behind it along. -/
inductive LiteralBody : List Char → Prop where
  | nil : LiteralBody []
  | plain {c : Char} {body : List Char} (hquote : c ≠ '"') (hbackslash : c ≠ '\\') (h : LiteralBody body) :
    LiteralBody (c :: body)
  | escaped (c : Char) {body : List Char} (h : LiteralBody body) : LiteralBody ('\\' :: c :: body)

/-- A line whose literals are all closed, as far as its comment. -/
inductive Closed : List Char → Prop where
  | nil : Closed []
  | plain {c : Char} {line : List Char} (hquote : c ≠ '"') (hsemicolon : c ≠ ';') (h : Closed line) : Closed (c :: line)
  | literal {body line : List Char} (hbody : LiteralBody body) (h : Closed line) : Closed ('"' :: (body ++ '"' :: line))
  | comment (text : List Char) : Closed (';' :: text)

theorem LiteralBody.stripCommentFrom {body : List Char} (h : LiteralBody body) (rest : List Char) :
    stripCommentFrom true false (body ++ '"' :: rest) = body ++ '"' :: stripComment rest := by
  induction h with
  | nil => simp [Assembly.stripCommentFrom, stripComment]
  | plain hquote hbackslash _ ih => simp [Assembly.stripCommentFrom, hquote, hbackslash, ih]
  | escaped c _ ih => simp [Assembly.stripCommentFrom, ih]

theorem Closed.stripComment_append (h : Closed line) (comment : List Char) :
    stripComment (line ++ ';' :: comment) = stripComment line := by
  induction h with
  | nil => simp [stripComment, stripCommentFrom]
  | plain hquote hsemicolon _ ih =>
    simp only [stripComment] at ih ⊢
    simp [stripCommentFrom, hquote, hsemicolon, ih]
  | literal hbody _ ih =>
    have hopens (rest : List Char) : stripComment ('"' :: rest) = '"' :: stripCommentFrom true false rest := by
      simp [stripComment, stripCommentFrom]
    rw [List.cons_append, List.append_assoc, List.cons_append, hopens, hopens, hbody.stripCommentFrom,
      hbody.stripCommentFrom, ih]
  | comment text => simp [stripComment, stripCommentFrom]

theorem Closed.content_append (h : Closed line) (comment : List Char) :
    content (line ++ ';' :: comment) = content line := by
  rw [content, h.stripComment_append, content]

/-! ## The contents of a text -/

/-- A line that is blank, or has nothing but a comment behind its blanks. -/
def Void (line : List Char) : Prop :=
  ∃ blanks, (∀ c ∈ blanks, isBlank c = true) ∧ (line = blanks ∨ ∃ comment, line = blanks ++ ';' :: comment)

theorem Void.content (h : Void line) : content line = [] := by
  obtain ⟨blanks, hblanks, rfl | ⟨comment, rfl⟩⟩ := h
  · simpa [Assembly.content, stripComment, stripCommentFrom, trim, trimLeft, trimRight]
      using content_append_left hblanks []
  · rw [content_append_left hblanks, content_comment]

theorem contents_append (before after : List (List Char)) :
    contents (before ++ after) = contents before ++ contents after := by
  simp [contents]

/-- Lines with the same content count the same. -/
theorem contents_congr (line' : List Char) (h : content line = content line') (rest : List (List Char)) :
    contents (line :: rest) = contents [line'] ++ contents rest := by
  simp [contents, h, List.filter_cons]
  split <;> simp

theorem contents_of_content_eq_nil (h : content line = []) : contents [line] = [] := by
  simp [contents, h]

theorem contents_lines_last (h : '\n' ∉ line) : contents (lines line) = contents [line] := by
  rw [lines_last h]
  split
  · rename_i hempty
    subst hempty
    exact (contents_of_content_eq_nil rfl).symm
  · rfl

theorem contents_lines_cons (h : '\n' ∉ line) {gap : List Char} (hgap : LineEnd gap) (rest : List Char) :
    contents (lines (line ++ (gap ++ rest))) = contents [line] ++ contents (lines rest) := by
  obtain rfl | rfl := hgap
  · rw [List.singleton_append, lines, linesFrom_append h, contents_congr line]
    · rfl
    · exact content_dropReturn _
  · have hreturn : '\n' ∉ line ++ ['\r'] := by simp [h]
    have heq : line ++ (['\r', '\n'] ++ rest) = (line ++ ['\r']) ++ '\n' :: rest := by simp
    rw [heq, lines, linesFrom_append hreturn, contents_congr line]
    · rfl
    · rw [content_dropReturn, List.reverse_nil, List.nil_append, content_append_right _ isBlank_return]

/-- What follows the end of a line counts the same whatever the line is. -/
theorem exists_contents_lines {after : List Char} (h : AtEnd after) :
    ∃ tail, ∀ line, '\n' ∉ line → contents (lines (line ++ after)) = contents [line] ++ tail := by
  obtain rfl | ⟨gap, rest, hgap, rfl⟩ := h
  · exact ⟨[], fun line hline => by rw [List.append_nil, List.append_nil, contents_lines_last hline]⟩
  · exact ⟨contents (lines rest), fun line hline => contents_lines_cons hline hgap rest⟩

/-- A line may be put in the place of another one with its content. -/
theorem contents_replace {before line line' after : List Char} (hbefore : AtStart before) (hafter : AtEnd after)
    (hline : '\n' ∉ line) (hline' : '\n' ∉ line') (h : content line = content line') :
    contents (lines (before ++ (line ++ after))) = contents (lines (before ++ (line' ++ after))) := by
  obtain ⟨tail, htail⟩ := exists_contents_lines hafter
  rw [lines_append hbefore, lines_append hbefore, contents_append, contents_append, htail line hline,
    htail line' hline', contents_congr _ h []]
  simp [contents]

/-! ## Edits -/

def IsSpaces (blanks : List Char) : Prop :=
  ∀ c ∈ blanks, c = ' ' ∨ c = '\t'

theorem IsSpaces.isBlank {blanks : List Char} (h : IsSpaces blanks) : ∀ c ∈ blanks, isBlank c = true := by
  intro c hc
  obtain rfl | rfl := h c hc <;> rfl

theorem IsSpaces.newline_not_mem {blanks : List Char} (h : IsSpaces blanks) : '\n' ∉ blanks := by
  intro hmem
  obtain heq | heq := h _ hmem <;> cases heq

/-- A change of the layout: something is put into a text that does not count. -/
inductive Edit : List Char → List Char → Prop where
  /-- Spaces and tabs at the start of a line. -/
  | leading {before blanks rest : List Char} (hstart : AtStart before) (hblanks : IsSpaces blanks) :
    Edit (before ++ rest) (before ++ (blanks ++ rest))
  /-- Spaces and tabs at the end of a line. -/
  | trailing {before blanks rest : List Char} (hblanks : IsSpaces blanks) (hend : AtEnd rest) :
    Edit (before ++ rest) (before ++ (blanks ++ rest))
  /-- A line before another one, or behind the last line end. -/
  | line {before line gap rest : List Char} (hstart : AtStart before) (hvoid : Void line) (hone : '\n' ∉ line)
    (hend : LineEnd gap ∨ gap = [] ∧ rest = []) : Edit (before ++ rest) (before ++ (line ++ (gap ++ rest)))
  /-- A line behind the last one, which has no line end. -/
  | lastLine {text gap line : List Char} (hend : LineEnd gap) (hvoid : Void line) (hone : '\n' ∉ line) :
    Edit text (text ++ (gap ++ line))
  /-- A comment on a line whose literals are closed. -/
  | comment {before line comment rest : List Char} (hstart : AtStart before) (hclosed : Closed line)
    (hone : '\n' ∉ line) (hcomment : '\n' ∉ comment) (hend : AtEnd rest) :
    Edit (before ++ (line ++ rest)) (before ++ ((line ++ ';' :: comment) ++ rest))

theorem Edit.contents_eq {text text' : List Char} (h : Edit text text') :
    contents (lines text) = contents (lines text') := by
  cases h with
  | @leading before blanks rest hstart hblanks =>
    -- The rest of the text may hold the ends of many lines; the blanks belong to the first of them.
    obtain ⟨first, after, rfl, hfirst, hafter⟩ := exists_first rest
    rw [← List.append_assoc blanks]
    refine contents_replace hstart hafter hfirst ?_ (content_append_left hblanks.isBlank _).symm
    simp [hblanks.newline_not_mem, hfirst]
  | @trailing before blanks rest hblanks hend =>
    obtain ⟨front, line, rfl, hfront, hline⟩ := exists_open before
    rw [List.append_assoc, List.append_assoc, ← List.append_assoc line]
    refine contents_replace hfront hend hline ?_ (content_append_right _ hblanks.isBlank).symm
    simp [hblanks.newline_not_mem, hline]
  | @line before line gap rest hstart hvoid hone hend =>
    have hnone : contents [line] = [] := contents_of_content_eq_nil hvoid.content
    rw [lines_append hstart, lines_append hstart, contents_append, contents_append]
    obtain hgap | ⟨rfl, rfl⟩ := hend
    · rw [contents_lines_cons hone hgap, hnone, List.nil_append]
    · rw [List.append_nil, List.append_nil, contents_lines_last hone, hnone]
      rfl
  | @lastLine _ gap line hend hvoid hone =>
    -- The last line gets a line end of its own here, which may bring a carriage return.
    obtain ⟨front, last, rfl, hfront, hlast⟩ := exists_open text
    rw [List.append_assoc, lines_append hfront, lines_append hfront, contents_append, contents_append,
      contents_lines_last hlast, contents_lines_cons hlast hend, contents_lines_last hone,
      contents_of_content_eq_nil hvoid.content, List.append_nil]
  | @comment before line comment rest hstart hclosed hone hcomment hend =>
    refine contents_replace hstart hend hone ?_ (hclosed.content_append comment).symm
    simp [hone, hcomment]

/-- Two texts that differ by any number of edits, made or taken back. -/
def Relaid : List Char → List Char → Prop :=
  Relation.EqvGen Edit

theorem Relaid.contents_eq {text text' : List Char} (h : Relaid text text') :
    contents (lines text) = contents (lines text') := by
  induction h with
  | rel _ _ hedit => exact hedit.contents_eq
  | refl => rfl
  | symm _ _ _ ih => exact ih.symm
  | trans _ _ _ _ _ ih ih' => exact ih.trans ih'

end MovieVm.Bytecode.Assembly
