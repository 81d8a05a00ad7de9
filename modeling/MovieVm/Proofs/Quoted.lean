import MovieVm.Bytecode.Assembly.Line
import MovieVm.Text.Quoted

/-!
# Quoted texts read back

What a quoted text is written as is decoded to the same characters, is split off a line as one piece, and
is never mistaken for a comment.
-/

namespace MovieVm.Text.Quoted

open Bytecode.Assembly

/-! ## The forms of a character -/

/-- The digits of a code point that needs at most two of them. -/
theorem codePoint_digits {n : Nat} (h : n < 0xa0) :
    readCodePoint? ('\x7b' :: (hex n).toList) = some (Char.ofNat n) ∧
      ∀ d ∈ (hex n).toList, d ≠ '"' ∧ d ≠ '\\' ∧ d ≠ '\n' ∧ d ≠ '\x7d' := by
  -- Only control characters are written as code points, and all of them are small.
  have hread : ∀ n < 0xa0, readCodePoint? ('\x7b' :: (hex n).toList) = some (Char.ofNat n) := by
    decide +kernel
  have hdigits : ∀ n < 0xa0, (hex n).toList.all fun d => d ≠ '"' ∧ d ≠ '\\' ∧ d ≠ '\n' ∧ d ≠ '\x7d' := by
    decide +kernel
  exact ⟨hread n h, fun d hd => of_decide_eq_true (List.all_eq_true.1 (hdigits n h) d hd)⟩

/-- A character stands for itself, or behind a backslash as a letter or as a code point. -/
inductive Written (c : Char) : List Char → Prop where
  | plain (hquote : c ≠ '"') (hslash : c ≠ '\\') (hcontrol : ¬ isControl c) : Written c [c]
  | letter (e : Char) (hescape : escape? e = some c) (hline : e ≠ '\n') (hu : e ≠ 'u') :
      Written c ['\\', e]
  | codePoint (digits : List Char) (hread : readCodePoint? ('\x7b' :: digits) = some c)
      (hdigits : ∀ d ∈ digits, d ≠ '"' ∧ d ≠ '\\' ∧ d ≠ '\n' ∧ d ≠ '\x7d') :
      Written c ('\\' :: 'u' :: '\x7b' :: digits ++ ['\x7d'])

theorem written_encodeChar (c : Char) : Written c (encodeChar c) := by
  unfold encodeChar
  split
  · rename_i h
    exact h ▸ .letter '"' rfl (by decide) (by decide)
  split
  · rename_i h
    exact h ▸ .letter '\\' rfl (by decide) (by decide)
  split
  · rename_i h
    exact h ▸ .letter 'n' rfl (by decide) (by decide)
  split
  · rename_i h
    exact h ▸ .letter 'r' rfl (by decide) (by decide)
  split
  · rename_i h
    exact h ▸ .letter 't' rfl (by decide) (by decide)
  split
  · rename_i hcontrol
    have hsmall : c.toNat < 0xa0 := by
      simp only [isControl, Bool.or_eq_true, Bool.and_eq_true, decide_eq_true_eq] at hcontrol
      omega
    obtain ⟨hread, hdigits⟩ := codePoint_digits hsmall
    rw [Char.ofNat_toNat] at hread
    exact .codePoint _ hread hdigits
  · exact .plain ‹_› ‹_› ‹_›

/-! ## Decoding -/

variable {c : Char} {text rest : List Char}

theorem decodeFrom_codePoint (digits : List Char) (h : ∀ d ∈ digits, d ≠ '\x7d')
    (held rest : List Char) :
    decodeFrom (.codePoint held) (digits ++ '\x7d' :: rest) =
      match readCodePoint? (held.reverse ++ digits) with
      | some decoded => (decodeFrom .plain rest).map (decoded :: ·)
      | none => .error .badCodePoint := by
  induction digits generalizing held with
  | nil =>
    rw [List.append_nil]
    rfl
  | cons d digits ih =>
    obtain ⟨hd, hdigits⟩ := List.forall_mem_cons.1 h
    -- The digits are held in reverse until the brace that closes them.
    have hnext := ih hdigits (d :: held)
    rw [List.reverse_cons, List.append_assoc, List.singleton_append] at hnext
    rw [List.cons_append, decodeFrom, if_neg hd, hnext]

theorem Written.decoded (h : Written c text) (rest : List Char) :
    decodeFrom .plain (text ++ rest) = (decodeFrom .plain rest).map (c :: ·) := by
  cases h with
  | plain hquote hslash hcontrol => simp [decodeFrom, hquote, hslash]
  | letter e hescape hline hu => simp [decodeFrom, hescape, hu]
  | codePoint digits hread hdigits =>
    have hclosed := decodeFrom_codePoint ('\x7b' :: digits)
      (List.forall_mem_cons.2 ⟨by decide, fun d hd => (hdigits d hd).2.2.2⟩) [] rest
    simp only [List.reverse_nil, List.nil_append, hread] at hclosed
    simpa [decodeFrom] using hclosed

theorem decodeFrom_encode (s : List Char) : decodeFrom .plain (s.flatMap encodeChar) = .ok s := by
  induction s with
  | nil => rfl
  | cons c s ih =>
    rw [List.flatMap_cons, (written_encodeChar c).decoded, ih]
    rfl

theorem decode_encode (s : List Char) : decode (encode s) = .ok s := by
  have hinner : inner? (encode s) = some (s.flatMap encodeChar) := by
    simp [encode, inner?]
  rw [decode, hinner]
  exact decodeFrom_encode s

/-! ## Splitting off -/

theorem splitQuoted?_plain (digits : List Char) (h : ∀ d ∈ digits, d ≠ '"' ∧ d ≠ '\\')
    (rest : List Char) :
    splitQuoted? false (digits ++ rest) =
      (splitQuoted? false rest).map fun (text, rest) => (digits ++ text, rest) := by
  induction digits with
  | nil => simp
  | cons d digits ih =>
    obtain ⟨⟨hquote, hslash⟩, hdigits⟩ := List.forall_mem_cons.1 h
    simp [splitQuoted?, hquote, hslash, ih hdigits, Function.comp_def]

theorem Written.split (h : Written c text) (rest : List Char) :
    splitQuoted? false (text ++ rest) =
      (splitQuoted? false rest).map fun (more, rest) => (text ++ more, rest) := by
  cases h with
  | plain hquote hslash hcontrol =>
    exact splitQuoted?_plain [c] (by simp [hquote, hslash]) rest
  | letter e hescape hline hu =>
    simp [splitQuoted?, Function.comp_def]
  | codePoint digits hread hdigits =>
    -- Between the braces stand no quotes and no backslashes, so nothing there is special.
    have hplain := splitQuoted?_plain digits (fun d hd => ⟨(hdigits d hd).1, (hdigits d hd).2.1⟩)
      ('\x7d' :: rest)
    simp [splitQuoted?, hplain, Function.comp_def]

theorem splitQuoted?_encode (s rest : List Char) :
    splitQuoted? false (s.flatMap encodeChar ++ '"' :: rest) = some (s.flatMap encodeChar ++ ['"'], rest) := by
  induction s with
  | nil => rfl
  | cons c s ih =>
    rw [List.flatMap_cons, List.append_assoc, (written_encodeChar c).split, ih, List.append_assoc]
    rfl

/-! ## No comment inside -/

theorem stripCommentFrom_plain (digits : List Char) (h : ∀ d ∈ digits, d ≠ '"' ∧ d ≠ '\\')
    (rest : List Char) :
    stripCommentFrom true false (digits ++ rest) = digits ++ stripCommentFrom true false rest := by
  induction digits with
  | nil => rfl
  | cons d digits ih =>
    obtain ⟨⟨hquote, hslash⟩, hdigits⟩ := List.forall_mem_cons.1 h
    simp [stripCommentFrom, hquote, hslash, ih hdigits]

theorem Written.stripComment (h : Written c text) (rest : List Char) :
    stripCommentFrom true false (text ++ rest) = text ++ stripCommentFrom true false rest := by
  cases h with
  | plain hquote hslash hcontrol =>
    exact stripCommentFrom_plain [c] (by simp [hquote, hslash]) rest
  | letter e hescape hline hu => simp [stripCommentFrom]
  | codePoint digits hread hdigits =>
    have hplain := stripCommentFrom_plain digits (fun d hd => ⟨(hdigits d hd).1, (hdigits d hd).2.1⟩)
      ('\x7d' :: rest)
    simp [stripCommentFrom, hplain]

theorem stripComment_encode (s rest : List Char) :
    stripCommentFrom false false (encode s ++ rest) = encode s ++ stripCommentFrom false false rest := by
  have hinside : stripCommentFrom true false (s.flatMap encodeChar ++ '"' :: rest) =
      s.flatMap encodeChar ++ '"' :: stripCommentFrom false false rest := by
    -- Inside the quotes a semicolon begins no comment.
    induction s with
    | nil => simp [stripCommentFrom]
    | cons c s ih =>
      rw [List.flatMap_cons, List.append_assoc, (written_encodeChar c).stripComment, ih,
        List.append_assoc]
  simp [encode, stripCommentFrom, hinside]

theorem Written.newline_not_mem (h : Written c text) : '\n' ∉ text := by
  cases h with
  | plain hquote hslash hcontrol =>
    intro hmem
    obtain rfl := List.mem_singleton.1 hmem
    exact hcontrol (by decide)
  | letter e hescape hline hu => simp [hline.symm]
  | codePoint digits hread hdigits => simpa using fun hmem => (hdigits _ hmem).2.2.1 rfl

theorem newline_not_mem_encode (s : List Char) : '\n' ∉ encode s := by
  have hchar : ∀ c ∈ s, '\n' ∉ encodeChar c := fun c _ => (written_encodeChar c).newline_not_mem
  simpa [encode] using hchar

end MovieVm.Text.Quoted
