import MovieVm.Bytecode.Opcode
import MovieVm.Proofs.Names

/-!
# Lines of the disassembly read back

Each form of line that the disassembler writes, as the assembler reads it.
-/

namespace MovieVm.Bytecode.Assembly

open Text

/-! ## Lines outside a method -/

variable {text rest : List Char}

theorem afterKeyword?_append (keyword : String) (h : Piece text) (rest : List Char) :
    afterKeyword? keyword (keyword.toList ++ ' ' :: (text ++ rest)) = some (text ++ rest) := by
  simp [afterKeyword?, after?_append, afterBlanks?_space h]

theorem readMethod?_of {line afterName afterParams name : List Char} {params locals : Option (List Char)}
    (hkeyword : afterKeyword? ".method" line = some text) (hname : splitName? text = some (name, afterName))
    (hparams : splitOptional "params=".toList afterName = (params, afterParams))
    (hlocals : splitOptional "locals=".toList afterParams = (locals, [])) :
    readMethod? line = some (.method name params locals) := by
  -- The keys are kept from being evaluated, which takes long.
  unfold readMethod?
  generalize "params=".toList = paramsKey at hparams ⊢
  generalize "locals=".toList = localsKey at hlocals ⊢
  simp [hkeyword, hname, hparams, hlocals]

theorem readSlot?_of {line afterName value name : List Char} {kind : SlotKind}
    {operand : Option (List Char)} (hkeyword : afterKeyword? ".slot" line = some text)
    (hname : splitName? text = some (name, afterName)) (hblanks : afterBlanks? afterName = some rest)
    (hkind : readSlotKind? rest = some (kind, value)) (hvalue : operandText? value = some operand) :
    readSlot? line = some (.slot name kind operand) := by
  simp [readSlot?, hkeyword, hname, hblanks, hkind, hvalue]

theorem readFunction?_of {line afterName name method : List Char}
    (hkeyword : afterKeyword? ".function" line = some text)
    (hname : splitName? text = some (name, afterName)) (hblanks : afterBlanks? afterName = some rest)
    (hmethod : splitName? rest = some (method, [])) :
    readFunction? line = some (.function name method) := by
  simp [readFunction?, hkeyword, hname, hblanks, hmethod]

theorem readInit?_of {line method : List Char} (hkeyword : afterKeyword? ".init" line = some text)
    (hmethod : splitName? text = some (method, [])) : readInit? line = some (.init method) := by
  simp [readInit?, hkeyword, hmethod]

-- A directive is none of the others, since it does not begin with their keywords.

theorem read?_of_method {line : List Char} {d : Directive} (h : readMethod? line = some d) :
    Directive.read? line = some d := by
  simp [Directive.read?, h]

theorem read?_of_slot {d : Directive} (h : readSlot? (".slot".toList ++ text) = some d) :
    Directive.read? (".slot".toList ++ text) = some d := by
  have hmethod : readMethod? (".slot".toList ++ text) = none := rfl
  rw [Directive.read?, hmethod, h]
  rfl

theorem read?_of_function {d : Directive} (h : readFunction? (".function".toList ++ text) = some d) :
    Directive.read? (".function".toList ++ text) = some d := by
  have hmethod : readMethod? (".function".toList ++ text) = none := rfl
  have hslot : readSlot? (".function".toList ++ text) = none := rfl
  rw [Directive.read?, hmethod, hslot, h]
  rfl

theorem read?_of_init {d : Directive} (h : readInit? (".init".toList ++ text) = some d) :
    Directive.read? (".init".toList ++ text) = some d := by
  have hmethod : readMethod? (".init".toList ++ text) = none := rfl
  have hslot : readSlot? (".init".toList ++ text) = none := rfl
  have hfunction : readFunction? (".init".toList ++ text) = none := rfl
  rw [Directive.read?, hmethod, hslot, hfunction, h]
  rfl

def methodText (name : String) (params locals : Nat) : List Char :=
  ".method".toList ++ ' ' :: ((nameText name).toList ++
    ' ' :: ("params=".toList ++ (Nat.toDigits 10 params ++
    ' ' :: ("locals=".toList ++ (Nat.toDigits 10 locals ++ [])))))

theorem piece_methodText (name : String) (params locals : Nat) : Piece (methodText name params locals) := by
  have hkeyword : Piece ".method".toList := .word (by decide) (by decide)
  have hparams : Piece "params=".toList := .word (by decide) (by decide)
  have hlocals : Piece "locals=".toList := .word (by decide) (by decide)
  unfold methodText
  generalize ".method".toList = keyword at hkeyword ⊢
  generalize "params=".toList = paramsKey at hparams ⊢
  generalize "locals=".toList = localsKey at hlocals ⊢
  have hsettings := (hparams.append (Decimal.piece_toDigits params)).spaced
    (hlocals.append (Decimal.piece_toDigits locals))
  have hpiece := hkeyword.spaced ((piece_nameText name).spaced hsettings)
  simpa only [List.append_assoc, List.append_nil] using hpiece

theorem read?_methodText (name : String) (params locals : Nat) :
    Directive.read? (methodText name params locals) =
      some (.method (nameText name).toList (some (Nat.toDigits 10 params))
        (some (Nat.toDigits 10 locals))) := by
  have hparams : Piece "params=".toList := .word (by decide) (by decide)
  have hlocals : Piece "locals=".toList := .word (by decide) (by decide)
  exact read?_of_method <| readMethod?_of (afterKeyword?_append _ (piece_nameText name) _)
    (splitName?_nameText name (.inr ⟨_, rfl⟩)) (splitOptional_digits hparams params (.inr ⟨_, rfl⟩))
    (splitOptional_digits hlocals locals (.inl rfl))

def slotText (name : String) (kind : SlotKind) (value : List Char) : List Char :=
  ".slot".toList ++ ' ' :: ((nameText name).toList ++ ' ' :: (kind.name.toList ++ value))

theorem piece_slotKind (kind : SlotKind) : Piece kind.name.toList := by
  cases kind <;> exact .word (by decide) (by decide)

theorem readSlotKind?_append (kind : SlotKind) (rest : List Char) :
    readSlotKind? (kind.name.toList ++ rest) = some (kind, rest) := by
  cases kind <;> rfl

theorem read?_slotText (name : String) (kind : SlotKind) {value : List Char}
    {operand : Option (List Char)} (h : operandText? value = some operand) :
    Directive.read? (slotText name kind value) = some (.slot (nameText name).toList kind operand) :=
  read?_of_slot <| readSlot?_of (afterKeyword?_append _ (piece_nameText name) _)
    (splitName?_nameText name (.inr ⟨_, rfl⟩)) (afterBlanks?_space (piece_slotKind kind) value)
    (readSlotKind?_append kind value) h

theorem piece_slotText (name : String) (kind : SlotKind) {value : List Char}
    (h : value = [] ∨ ∃ text, value = ' ' :: text ∧ Piece text) : Piece (slotText name kind value) := by
  have hkeyword : Piece ".slot".toList := .word (by decide) (by decide)
  unfold slotText
  generalize ".slot".toList = keyword at hkeyword ⊢
  rcases h with rfl | ⟨text, rfl, htext⟩
  · rw [List.append_nil]
    exact hkeyword.spaced ((piece_nameText name).spaced (piece_slotKind kind))
  · exact hkeyword.spaced ((piece_nameText name).spaced ((piece_slotKind kind).spaced htext))

def functionText (name method : String) : List Char :=
  ".function".toList ++ ' ' :: ((nameText name).toList ++ ' ' :: ((nameText method).toList ++ []))

theorem piece_functionText (name method : String) : Piece (functionText name method) := by
  have hkeyword : Piece ".function".toList := .word (by decide) (by decide)
  unfold functionText
  generalize ".function".toList = keyword at hkeyword ⊢
  rw [List.append_nil]
  exact hkeyword.spaced ((piece_nameText name).spaced (piece_nameText method))

theorem read?_functionText (name method : String) :
    Directive.read? (functionText name method) =
      some (.function (nameText name).toList (nameText method).toList) :=
  read?_of_function <| readFunction?_of (afterKeyword?_append _ (piece_nameText name) _)
    (splitName?_nameText name (.inr ⟨_, rfl⟩)) (afterBlanks?_space (piece_nameText method) [])
    (splitName?_nameText method (.inl rfl))

def initText (method : String) : List Char :=
  ".init".toList ++ ' ' :: ((nameText method).toList ++ [])

theorem piece_initText (method : String) : Piece (initText method) := by
  have hkeyword : Piece ".init".toList := .word (by decide) (by decide)
  unfold initText
  generalize ".init".toList = keyword at hkeyword ⊢
  rw [List.append_nil]
  exact hkeyword.spaced (piece_nameText method)

theorem read?_initText (method : String) :
    Directive.read? (initText method) = some (.init (nameText method).toList) :=
  read?_of_init <| readInit?_of (afterKeyword?_append _ (piece_nameText method) [])
    (splitName?_nameText method (.inl rfl))

/-! ## Lines inside a method -/

def labelChars (target : Nat) : List Char :=
  'L' :: Nat.toDigits 10 target

theorem labelChars_bare {target : Nat} : ∀ c ∈ labelChars target, isBareChar c := by
  refine List.forall_mem_cons.2 ⟨by decide, fun c hc => ?_⟩
  simp [isBareChar, Char.isAlphanum, Decimal.isDigit_toDigits c hc]

theorem piece_labelChars (target : Nat) : Piece (labelChars target) :=
  .solid (List.cons_ne_nil _ _) fun c hc => isSolid_of_isBareChar (labelChars_bare c hc)

theorem read?_label (target : Nat) :
    BodyLine.read? (labelChars target ++ [':']) = some (.label (labelChars target)) := by
  have hdigits : (Nat.toDigits 10 target).all isLabelChar = true := by
    refine List.all_eq_true.2 fun c hc => ?_
    simp [isLabelChar, isWord, Char.isAlphanum, Decimal.isDigit_toDigits c hc]
  have hread : readLabel? (labelChars target ++ [':']) = some (.label (labelChars target)) := by
    have hstart : isLabelStart 'L' = true := by decide
    rw [readLabel?, List.getLast?_concat, if_pos rfl, List.dropLast_concat, labelChars]
    simp only [hstart, hdigits, Bool.and_self, if_true]
  rw [BodyLine.read?, hread]
  rfl

theorem isSolid_of_isMnemonicChar {c : Char} (h : isMnemonicChar c) : isSolid c := by
  have hlower : c.isLower = true := h
  have halpha : c.isAlpha = true := by
    delta Char.isAlpha
    rw [hlower, Bool.or_true]
  exact isSolid_of_isBareChar (by simp [isBareChar, Char.isAlphanum, halpha])

theorem mnemonic_chars (o : Opcode) :
    o.mnemonic.toList ≠ [] ∧ ∀ c ∈ o.mnemonic.toList, isMnemonicChar c ∧ isSolid c ∧ c ≠ ':' := by
  have hall : Opcode.all.all fun o => o.mnemonic.toList ≠ [] ∧ o.mnemonic.toList.all isMnemonicChar := by
    decide +kernel
  have hletters := of_decide_eq_true (List.all_eq_true.1 hall o (Opcode.mem_all o))
  refine ⟨hletters.1, fun c hc => ?_⟩
  have hc : isMnemonicChar c := List.all_eq_true.1 hletters.2 c hc
  exact ⟨hc, isSolid_of_isMnemonicChar hc, fun heq => absurd (heq ▸ hc) (by decide)⟩

theorem piece_mnemonic (o : Opcode) : Piece o.mnemonic.toList :=
  .solid (mnemonic_chars o).1 fun c hc => ((mnemonic_chars o).2 c hc).2.1

theorem read?_bare (o : Opcode) :
    BodyLine.read? o.mnemonic.toList = some (.instruction o.mnemonic.toList none) := by
  obtain ⟨hne, hchars⟩ := mnemonic_chars o
  -- A mnemonic has letters only, and so cannot end like a label.
  have hlabel : readLabel? o.mnemonic.toList = none := by
    rw [readLabel?, if_neg]
    intro hlast
    exact (hchars ':' (List.mem_of_getLast? hlast)).2.2 rfl
  obtain ⟨htake, hdrop⟩ := takeWhile_append_ends (fun c hc => (hchars c hc).1) (by decide) (.inl rfl)
  rw [List.append_nil] at htake hdrop
  simp [BodyLine.read?, hlabel, readInstruction?, htake, hdrop, operandText?, hne]

theorem read?_operand (o : Opcode) (h : Piece text) :
    BodyLine.read? (o.mnemonic.toList ++ ' ' :: text) =
      some (.instruction o.mnemonic.toList (some text)) := by
  obtain ⟨hne, hchars⟩ := mnemonic_chars o
  -- The line may end with a colon, inside a quoted text, but a label has no blank.
  have hlabel : readLabel? (o.mnemonic.toList ++ ' ' :: text) = none := by
    obtain ⟨first, more, hfirst⟩ := List.exists_cons_of_ne_nil hne
    obtain ⟨front, last, rfl, _⟩ := h.last
    have hblank : isLabelChar ' ' = false := by decide
    have hdrop : (o.mnemonic.toList ++ ' ' :: (front ++ [last])).dropLast =
        first :: (more ++ ' ' :: front) := by
      rw [hfirst, ← List.cons_append, ← List.append_assoc, List.dropLast_concat, List.cons_append]
    simp only [readLabel?, hdrop]
    simp [hblank]
  obtain ⟨htake, hdrop⟩ :=
    takeWhile_append_ends (fun c hc => (hchars c hc).1) (by decide) (.inr ⟨text, rfl⟩)
  simp [BodyLine.read?, hlabel, readInstruction?, htake, hdrop, operandText?_space h, hne]

end MovieVm.Bytecode.Assembly
