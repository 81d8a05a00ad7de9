import MovieVm.Bytecode.Assembly.Basic
import MovieVm.Proofs.Numeral

/-!
# Names, texts and settings read back

Names and texts are split off a line as they are written, with or without quotes, and stand for the same
string as before.
-/

namespace MovieVm.Bytecode.Assembly

open Text

theorem toString_string (s : String) : toString s = s := rfl

/-! ## Blanks between pieces -/

/-- Nothing more, or a blank before it. -/
def Ends (rest : List Char) : Prop :=
  rest = [] ∨ ∃ more, rest = ' ' :: more

theorem isBlank_space : isBlank ' ' = true := by
  decide

/-- A run of characters of one class ends where the line does, or at a blank. -/
theorem takeWhile_append_ends {p : Char → Bool} {text rest : List Char} (h : ∀ c ∈ text, p c)
    (hblank : p ' ' = false) (hrest : Ends rest) :
    (text ++ rest).takeWhile p = text ∧ (text ++ rest).dropWhile p = rest := by
  rw [List.takeWhile_append_of_pos h, List.dropWhile_append_of_pos h]
  rcases hrest with rfl | ⟨more, rfl⟩
  · simp
  · simp [hblank]

theorem afterBlanks?_space {text : List Char} (h : Piece text) (rest : List Char) :
    afterBlanks? (' ' :: (text ++ rest)) = some (text ++ rest) := by
  obtain ⟨c, more, rfl, hc⟩ := h.first
  simp [afterBlanks?, isBlank_space, hc]

theorem operandText?_space {text : List Char} (h : Piece text) :
    operandText? (' ' :: text) = some (some text) := by
  have hafter := afterBlanks?_space h []
  rw [List.append_nil] at hafter
  obtain ⟨c, rest, rfl, _⟩ := h.first
  simp [operandText?, hafter]

/-! ## Names -/

theorem toList_quote (s : String) : (quote s).toList = Quoted.encode s.toList := by
  simp [quote]

theorem piece_quote (s : String) : Piece (quote s).toList :=
  toList_quote s ▸ .quoted s.toList

theorem readString_quote (s : String) : readString (quote s).toList = .ok s := by
  simp [readString, toList_quote, Quoted.decode_encode]

/-- A bare name begins with a character that no directive and no quoted text begins with. -/
theorem of_isBareName {name : List Char} (h : isBareName name) :
    (∃ first rest, name = first :: rest ∧ isBareStart first) ∧ ∀ c ∈ name, isBareChar c := by
  cases name with
  | nil => simp [isBareName] at h
  | cons first rest =>
    simp only [isBareName, Bool.and_eq_true, List.all_eq_true] at h
    have hfirst : isBareChar first := by
      have hstart := h.1
      simp only [isBareStart, Bool.or_eq_true, decide_eq_true_eq] at hstart
      rcases hstart with (halpha | rfl) | rfl
      · simp [isBareChar, Char.isAlphanum, halpha]
      · decide
      · decide
    exact ⟨⟨first, rest, rfl, h.1⟩, List.forall_mem_cons.2 ⟨hfirst, h.2⟩⟩

theorem piece_nameText (s : String) : Piece (nameText s).toList := by
  unfold nameText
  split
  · rename_i hbare
    obtain ⟨⟨first, rest, hname, _⟩, hchars⟩ := of_isBareName hbare
    exact .solid (by simp [hname]) fun c hc => isSolid_of_isBareChar (hchars c hc)
  · exact piece_quote s

theorem splitName?_nameText (s : String) {rest : List Char} (h : Ends rest) :
    splitName? ((nameText s).toList ++ rest) = some ((nameText s).toList, rest) := by
  unfold nameText
  split
  · rename_i hbare
    obtain ⟨⟨first, more, hname, hstart⟩, hchars⟩ := of_isBareName hbare
    have hsolid : ∀ c ∈ s.toList, isBare c := fun c hc => by
      have hc := isSolid_of_isBareChar (hchars c hc)
      simp only [isSolid, Bool.and_eq_true] at hc
      exact hc.1
    have hquote : first ≠ '"' := fun heq => absurd (heq ▸ hstart) (by decide)
    obtain ⟨htake, hdrop⟩ := takeWhile_append_ends hsolid (by decide) h
    rw [hname] at htake hdrop ⊢
    -- A bare name is split off at the first blank, a quoted one behind its closing quote.
    rw [splitName?]
    · rw [htake, hdrop]
      rfl
    · intro tail heq
      exact hquote (List.cons.inj heq).1
  · simp [toList_quote, Quoted.encode, splitName?, Quoted.splitQuoted?_encode]

theorem readName_nameText (s : String) : readName (nameText s).toList = .ok s := by
  unfold nameText
  split
  · rename_i hbare
    obtain ⟨⟨first, more, hname, hstart⟩, hchars⟩ := of_isBareName hbare
    have hquote : s.toList.head? ≠ some '"' := fun heq => by
      rw [hname] at heq
      obtain rfl := Option.some.inj heq
      exact absurd hstart (by decide)
    -- A bare name that held a blank would be refused.
    have hblank : s.toList.any isBlank = false := by
      rw [List.any_eq_false]
      intro c hc
      simp [isBlank_of_isSolid (isSolid_of_isBareChar (hchars c hc))]
    simp [readName, hquote, hblank]
  · have hread := readString_quote s
    have hquote : (quote s).toList.head? = some '"' := by simp [toList_quote, Quoted.encode]
    rw [readName, if_pos hquote, hread]

/-! ## Settings -/

theorem after?_append (fixed rest : List Char) : after? fixed (fixed ++ rest) = some rest := by
  induction fixed with
  | nil => rfl
  | cons c fixed ih => simp [after?, ih]

theorem splitOptional_digits {key : List Char} (hkey : Piece key) (n : Nat) {rest : List Char}
    (h : Ends rest) :
    splitOptional key (' ' :: (key ++ (Nat.toDigits 10 n ++ rest))) = (some (Nat.toDigits 10 n), rest) := by
  have hdigits : ∀ c ∈ Nat.toDigits 10 n, isDecimalDigit c := fun c hc => by
    simp [isDecimalDigit, Decimal.isDigit_toDigits c hc]
  obtain ⟨htake, hdrop⟩ := takeWhile_append_ends hdigits (by decide) h
  have hne : (Nat.toDigits 10 n).isEmpty = false := by simp [Nat.toDigits_ne_nil]
  have hsetting : splitSetting? key (' ' :: (key ++ (Nat.toDigits 10 n ++ rest))) =
      some (Nat.toDigits 10 n, rest) := by
    rw [splitSetting?, afterBlanks?_space hkey, Option.bind_eq_bind, Option.bind_some, after?_append,
      Option.bind_some]
    simp only [htake, hdrop, hne]
    rfl
  rw [splitOptional, hsetting]

theorem readIndex_toDigits {n : Nat} (h : n < 0x40000000) : readIndex (Nat.toDigits 10 n) = .ok n := by
  simp [readIndex, Decimal.readNat?_toDigits h]

end MovieVm.Bytecode.Assembly
