import MovieVm.Proofs.Layout
import MovieVm.Proofs.Reassembly

/-!
# String literals

The escapes of a quoted text leave no control character in it, so it stays on its line. Its own quotes and
backslashes are escaped as well, so all who scan the line, for the end of the text, for what it says or for a
comment, agree on where it ends.
-/

namespace MovieVm.Text.Quoted

theorem isControl_hex {n : Nat} (hn : n < 0xa0) {d : Char} (hd : d ∈ (hex n).toList) : isControl d = false := by
  have hall : ∀ n < 0xa0, (hex n).toList.all fun d => isControl d = false := by decide +kernel
  exact of_decide_eq_true (List.all_eq_true.1 (hall n hn) d hd)

/-- Whatever a character is written as stays on the line. -/
theorem isControl_encodeChar {c d : Char} (hd : d ∈ encodeChar c) : isControl d = false := by
  have hescape : ∀ e, isControl e = false → d ∈ ['\\', e] → isControl d = false := by
    intro e he hmem
    rcases List.mem_pair.1 hmem with rfl | rfl
    · decide
    · exact he
  unfold encodeChar at hd
  split at hd
  · exact hescape '"' (by decide) hd
  split at hd
  · exact hescape '\\' (by decide) hd
  split at hd
  · exact hescape 'n' (by decide) hd
  split at hd
  · exact hescape 'r' (by decide) hd
  split at hd
  · exact hescape 't' (by decide) hd
  split at hd
  · rename_i hcontrol
    have hsmall : c.toNat < 0xa0 := by
      simp only [isControl, Bool.or_eq_true, Bool.and_eq_true, decide_eq_true_eq] at hcontrol
      omega
    simp only [List.mem_append, List.mem_cons, List.not_mem_nil, or_false] at hd
    rcases hd with ((rfl | rfl | rfl) | hdigit) | rfl
    · decide
    · decide
    · decide
    · exact isControl_hex hsmall hdigit
    · decide
  · obtain rfl := List.mem_singleton.1 hd
    exact Bool.eq_false_iff.2 ‹_›

theorem isControl_encode {s : List Char} {d : Char} (hd : d ∈ encode s) : isControl d = false := by
  simp only [encode, List.mem_append, List.mem_cons, List.mem_flatMap, List.not_mem_nil, or_false] at hd
  rcases hd with (rfl | ⟨c, _, hd⟩) | rfl
  · decide
  · exact isControl_encodeChar hd
  · decide

end MovieVm.Text.Quoted

namespace MovieVm.Bytecode.Assembly

open Text Bytecode.Module

variable {s : String} {text : List Char}

/-- The instruction that pushes a string, as it is written. -/
def pushText (s : String) : List Char :=
  Opcode.pushString.mnemonic.toList ++ ' ' :: (quote s).toList

theorem piece_pushText (s : String) : Piece (pushText s) :=
  (piece_mnemonic .pushString).spaced (piece_quote s)

theorem toList_pushText (s : String) : ("pushstring " ++ quote s).toList = pushText s := by
  have hword : "pushstring ".toList = Opcode.pushString.mnemonic.toList ++ [' '] := by decide
  rw [String.toList_append, hword, List.append_assoc, List.singleton_append, pushText]

theorem toList_commented (s comment : String) :
    ("pushstring " ++ quote s ++ " ;" ++ comment).toList = pushText s ++ ' ' :: ';' :: comment.toList := by
  rw [String.toList_append, String.toList_append, toList_pushText, List.append_assoc]
  rfl

theorem stripComment_pushText (s : String) (comment : List Char) :
    stripComment (pushText s ++ ' ' :: ';' :: comment) = pushText s ++ [' '] := by
  rw [(piece_pushText s).kept]
  simp [stripComment, stripCommentFrom]

theorem content_pushText (s : String) (comment : List Char) :
    content (pushText s ++ ' ' :: ';' :: comment) = pushText s := by
  have halone : content (pushText s) = pushText s := (piece_pushText s).content 0
  have hblank : stripComment (pushText s ++ [' ']) = pushText s ++ [' '] := by
    rw [(piece_pushText s).kept]
    simp [stripComment, stripCommentFrom]
  have hspace : ∀ c ∈ [' '], isBlank c = true := List.forall_mem_singleton.2 isBlank_space
  have hblanks : content (pushText s ++ [' ']) = content (pushText s) := content_append_right _ hspace
  rw [content, stripComment_pushText, ← hblank, ← content, hblanks, halone]

/-- A disassembled instruction that pushes a string. -/
theorem toList_instructionText_pushString {m : Module} {place : Nat} (h : m.constants[place]? = some (.string s)) :
    (m.instructionText (.pushString place)).toList = pushText s := by
  rw [toList_instructionText]
  simp [pushText, Instruction.operand?, Instruction.opcode, operandText, Opcode.kind, Opcode.info, h, Constant.literal]

/-- In a method that is open, the line is read as the instruction that pushes the string. -/
def Pushes (s : String) (line : List Char) : Prop :=
  ∀ (state : State) (seen : List Constant) (method : MethodDraft) (start number : Nat), ∃ index,
    (Pool.after (seen ++ [.string s])).constants[index]? = some (.string s) ∧
    State.addLine { state with pool := .after seen, current := some (method, start) } number line =
      .ok { state with
        pool := .after (seen ++ [.string s])
        current := some ({ method with code := method.code.push (.ready (.pushString index)) }, start) }

theorem addInstruction_pushString (state : State) (number : Nat) (s : String) :
    state.addInstruction number Opcode.pushString.mnemonic.toList (some (quote s).toList) =
      .ok (.ready (.pushString (state.pool.intern (.string s)).1),
        { state with pool := (state.pool.intern (.string s)).2 }) := by
  have hkind : Opcode.pushString.kind = .stringConstant := rfl
  have hne : OperandKind.stringConstant ≠ .none := by decide
  rw [State.addInstruction, String.ofList_toList, Opcode.ofMnemonic?_mnemonic]
  simp only [hkind, if_neg hne, State.draft, readString_quote]
  rfl

theorem pushes_of_content (h : content text = pushText s) : Pushes s text := by
  intro state seen method start number
  obtain ⟨first, rest, hfirst, _⟩ := (piece_pushText s).first
  have hhead : (pushText s).head? ≠ some '.' := by
    have hmnemonic : Opcode.pushString.mnemonic.toList.head? = some 'p' := rfl
    rw [pushText, List.head?_append, hmnemonic, Option.some_or]
    decide
  have hread : BodyLine.read? (pushText s) =
      some (.instruction Opcode.pushString.mnemonic.toList (some (quote s).toList)) :=
    read?_operand .pushString (piece_quote s)
  refine ⟨((Pool.after seen).intern (.string s)).1, ?_, ?_⟩
  · rw [Pool.after_concat]
    exact (Pool.agrees_after seen).getElem?_intern _
  · simp only [State.addLine, h]
    rw [hfirst, List.isEmpty_cons, if_neg Bool.false_ne_true, ← hfirst, addBodyLine_of_head hhead, hread,
      Pool.after_concat]
    simp only [addInstruction_pushString]
    rfl

/-- A string is written on one line and read back, and a comment behind it is told from it whatever it holds. So the
assembler reads the string from an instruction with or without a comment, as it is disassembled and as it is written. -/
theorem string_literals_survive (s comment : String) :
    '\n' ∉ (quote s).toList ∧ '\r' ∉ (quote s).toList ∧ readString (quote s).toList = .ok s ∧
      stripComment ("pushstring " ++ quote s ++ " ;" ++ comment).toList = ("pushstring " ++ quote s ++ " ").toList ∧
      Pushes s ("pushstring " ++ quote s ++ " ;" ++ comment).toList ∧
      ∀ (m : Module) (place : Nat), m.constants[place]? = some (.string s) →
        m.instructionText (.pushString place) = "pushstring " ++ quote s ∧
          Pushes s (TraceLine.mk 1 (m.instructionText (.pushString place))).chars := by
  have hcontrol : ∀ c ∈ (quote s).toList, isControl c = false := by
    rw [toList_quote]
    exact fun c => Quoted.isControl_encode
  refine ⟨fun hmem => ?_, fun hmem => ?_, readString_quote s, ?_, ?_, fun m place h => ⟨?_, ?_⟩⟩
  · exact absurd (hcontrol _ hmem) (by decide)
  · exact absurd (hcontrol _ hmem) (by decide)
  · rw [toList_commented, stripComment_pushText, String.toList_append, toList_pushText]
    rfl
  · rw [toList_commented]
    exact pushes_of_content (content_pushText s comment.toList)
  · rw [← String.toList_inj, toList_instructionText_pushString h, toList_pushText]
  · refine pushes_of_content ?_
    rw [TraceLine.chars, toList_instructionText_pushString h]
    exact (piece_pushText s).content _

/-- A quote behind a backslash, a semicolon, line ends of all kinds and a control character. -/
def tangled : String :=
  "\\\"; \n\r\u2028\x07"

/-- A module with the string in its pool. -/
def tangledModule : Module where
  label := "tangled"
  minorVersion := supportedMinor
  majorVersion := supportedMajor
  constants := #[.string "main", .string tangled]
  methods := #[⟨0, 0, 0, #[.pushString 1, .returnValue]⟩]
  definitions := []
  init := 0

theorem tangled_survives :
    readString (quote tangled).toList = .ok tangled ∧ tangledModule.constants[1]? = some (.string tangled) ∧
      tangledModule.instructionText (.pushString 1) = "pushstring " ++ quote tangled ∧
      Pushes tangled (TraceLine.mk 1 (tangledModule.instructionText (.pushString 1))).chars := by
  have hconstant : tangledModule.constants[1]? = some (.string tangled) := rfl
  obtain ⟨_, _, hread, _, _, hline⟩ := string_literals_survive tangled "\""
  obtain ⟨htext, hpushes⟩ := hline tangledModule 1 hconstant
  exact ⟨hread, hconstant, htext, hpushes⟩

end MovieVm.Bytecode.Assembly
