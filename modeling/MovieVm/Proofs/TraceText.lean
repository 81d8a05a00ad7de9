import MovieVm.Proofs.Drafts
import MovieVm.Proofs.Sorted

/-!
# The text of a trace

Each line of a trace is a comment or made of the pieces that the assembler takes a line apart into. None
holds a line end, so the lines of a disassembly are those of the trace, whatever the names in it.
-/

namespace MovieVm.Bytecode

/-- The characters of a line of the trace. -/
def Module.TraceLine.chars (line : Module.TraceLine) : List Char :=
  List.replicate (2 * line.indent) ' ' ++ line.text.toList

/-- Read as part of a text, the line ends where it is written to end. -/
def Module.TraceLine.Unbroken (line : Module.TraceLine) : Prop :=
  '\n' ∉ line.chars ∧ Text.dropReturn line.chars = line.chars

namespace Assembly

open Text Bytecode.Module

variable {m : Module} {method : Method}

theorem unbroken_of_piece {line : TraceLine} (h : Piece line.text.toList) : line.Unbroken :=
  ⟨by simp [TraceLine.chars, h.oneLine], h.dropReturn _⟩

/-! ## Lines of a method -/

theorem methodName_eq {index : Nat} (h : m.methods[index]? = some method) :
    m.methodName index = m.nameOf method := by
  simp [methodName, nameOf, h]

theorem toList_methodHead {index : Nat} (hindex : m.methods[index]? = some method) :
    (m.methodHead index method).toList = methodText (m.nameOf method) method.params method.locals := by
  have hkeyword : ".method ".toList = ".method".toList ++ [' '] := by decide
  have hparams : " params=".toList = ' ' :: "params=".toList := by decide
  have hblank : " ".toList = [' '] := by decide
  -- The fixed texts are kept from being evaluated, which takes long.
  unfold methodHead methodText
  rw [methodName_eq hindex]
  simp only [String.toList_append, toString_string]
  rw [hkeyword, hparams, hblank]
  generalize ".method".toList = keyword
  generalize "params=".toList = paramsKey
  generalize "locals=".toList = localsKey
  simp

theorem toList_labelLine (target : Nat) : s!"L{target}:".toList = labelChars target ++ [':'] := by
  simp only [String.toList_append, Nat.toString_eq_repr, Nat.toList_repr]
  rfl

theorem piece_labelLine (target : Nat) : Piece s!"L{target}:".toList := by
  rw [toList_labelLine]
  exact .append (piece_labelChars target) (.word (by decide) (by decide))

theorem piece_end : Piece ".end".toList :=
  .word (by decide) (by decide)

theorem head?_instructionText (i : Instruction) : (m.instructionText i).toList.head? ≠ some '.' := by
  obtain ⟨hne, hchars⟩ := mnemonic_chars i.opcode
  obtain ⟨c, rest, hmnemonic⟩ := List.exists_cons_of_ne_nil hne
  have hc : c ≠ '.' := fun heq => by
    have hletter := (hchars c (hmnemonic ▸ List.mem_cons_self)).1
    exact absurd (heq ▸ hletter) (by decide)
  rw [toList_instructionText]
  cases i.operand? <;> simp [hmnemonic, hc]

/-- A line inside a method that neither ends it nor is a directive. -/
structure IsBody (line : TraceLine) : Prop where
  piece : Piece line.text.toList
  noDirective : line.text.toList.head? ≠ some '.'

theorem isBody_instruction {i : Instruction} (h : m.Resolves i) : IsBody ⟨1, m.instructionText i⟩ :=
  ⟨piece_instructionText h, head?_instructionText i⟩

theorem isBody_label (target : Nat) : IsBody ⟨1, s!"L{target}:"⟩ where
  piece := piece_labelLine target
  noDirective := by
    rw [toList_labelLine]
    simp [labelChars]

theorem isBody_codeLines {code : List Instruction} (h : ∀ i ∈ code, m.Resolves i) (targets : List Nat) (pc : Nat) :
    ∀ line ∈ m.codeLines targets pc code, IsBody line := by
  induction code generalizing pc with
  | nil => exact List.forall_mem_nil _
  | cons i code ih =>
    obtain ⟨hi, hcode⟩ := List.forall_mem_cons.1 h
    refine List.forall_mem_append.2 ⟨?_, List.forall_mem_cons.2 ⟨isBody_instruction hi, ih hcode (pc + 1)⟩⟩
    split
    · exact List.forall_mem_singleton.2 (isBody_label pc)
    · exact List.forall_mem_nil _

/-- A method is written as its first line, lines of its body and its end. -/
theorem methodLines_eq (hm : m.Resolved) {index : Nat} (hindex : m.methods[index]? = some method) :
    ∃ head body, m.methodLines index method = ⟨0, head⟩ :: body ++ [⟨0, ".end"⟩] ∧
      head.toList = methodText (m.nameOf method) method.params method.locals ∧ ∀ line ∈ body, IsBody line := by
  have hcode : ∀ i ∈ method.code.toList, m.Resolves i :=
    fun i hi => hm.code method (Array.mem_of_getElem? hindex) i (Array.mem_toList_iff.1 hi)
  refine ⟨_, m.bodyLines method, rfl, toList_methodHead hindex, ?_⟩
  refine List.forall_mem_append.2 ⟨isBody_codeLines hcode _ 0, ?_⟩
  simpa only [List.forall_mem_map] using fun target _ => isBody_label target

theorem unbroken_methodLines (hm : m.Resolved) {index : Nat} (hindex : m.methods[index]? = some method) :
    ∀ line ∈ m.methodLines index method, line.Unbroken := by
  obtain ⟨head, body, hlines, htext, hbody⟩ := methodLines_eq hm hindex
  rw [hlines]
  simp only [List.cons_append, List.forall_mem_cons, List.forall_mem_append]
  exact ⟨unbroken_of_piece (htext ▸ piece_methodText _ _ _),
    fun line hline => unbroken_of_piece (hbody line hline).piece, unbroken_of_piece piece_end, List.forall_mem_nil _⟩

/-! ## Definitions -/

/-- What a slot that holds a constant is written as. -/
def slotKind : Constant → SlotKind
  | .int _ => .int
  | .double _ => .double
  | .string _ => .string

theorem toList_slotLine (name : String) (c : Constant) :
    (s!".slot {nameText name} {c.slotText}").toList =
      slotText name (slotKind c) (' ' :: c.literal.toList) := by
  have hkeyword : ".slot ".toList = ".slot".toList ++ [' '] := by decide
  have hblank : " ".toList = [' '] := by decide
  have hkind : c.kind.name = (slotKind c).name := by cases c <;> rfl
  unfold slotText Constant.slotText
  simp only [String.toList_append, toString_string]
  rw [hkeyword, hblank, hkind]
  generalize ".slot".toList = keyword
  simp

theorem toList_undefinedLine (name : String) :
    (s!".slot {nameText name} undefined").toList = slotText name .undefined [] := by
  have hkeyword : ".slot ".toList = ".slot".toList ++ [' '] := by decide
  have hundefined : " undefined".toList = ' ' :: SlotKind.undefined.name.toList := by decide
  unfold slotText
  simp only [String.toList_append, toString_string]
  rw [hkeyword, hundefined]
  generalize ".slot".toList = keyword
  simp

theorem toList_functionLine (name method : String) :
    (s!".function {nameText name} {nameText method}").toList = functionText name method := by
  have hkeyword : ".function ".toList = ".function".toList ++ [' '] := by decide
  have hblank : " ".toList = [' '] := by decide
  unfold functionText
  simp only [String.toList_append, toString_string]
  rw [hkeyword, hblank]
  generalize ".function".toList = keyword
  simp

theorem toList_initLine (method : String) :
    (s!".init {nameText method}").toList = initText method := by
  have hkeyword : ".init ".toList = ".init".toList ++ [' '] := by decide
  unfold initText
  simp only [String.toList_append, toString_string]
  rw [hkeyword]
  generalize ".init".toList = keyword
  simp

theorem piece_literal (c : Constant) : Piece c.literal.toList := by
  cases c with
  | int n => exact Decimal.piece_toString_int n.toInt
  | double x => exact Decimal.piece_literal x
  | string t => exact piece_quote t

theorem unbroken_definitionLine (m : Module) (d : Definition) : (m.definitionLine d).Unbroken := by
  have hundefined : ∀ name, (TraceLine.mk 0 s!".slot {nameText name} undefined").Unbroken := by
    intro name
    have hline := toList_undefinedLine name
    generalize (s!".slot {nameText name} undefined") = text at hline ⊢
    exact unbroken_of_piece (hline ▸ piece_slotText name .undefined (.inl rfl))
  unfold definitionLine
  simp only
  generalize (m.stringConstant d.name).toOption.getD "" = name
  rcases d.binding with (_ | index) | index
  · exact hundefined name
  · simp only
    cases m.constants[index]? with
    | none => exact hundefined name
    | some c =>
      have hline := toList_slotLine name c
      simp only
      generalize (s!".slot {nameText name} {c.slotText}") = text at hline ⊢
      exact unbroken_of_piece (hline ▸ piece_slotText name _ (.inr ⟨_, rfl, piece_literal c⟩))
  · have hline := toList_functionLine name (m.methodName index)
    simp only
    generalize (s!".function {nameText name} {nameText (m.methodName index)}") = text at hline ⊢
    exact unbroken_of_piece (hline ▸ piece_functionText _ _)

/-! ## The whole text -/

theorem toList_headerLine : ∃ before, m.headerLine.text.toList =
    ';' :: before ++ Nat.toDigits 10 m.definitions.length ∧ ('\n' ∈ before → '\n' ∈ m.label.toList) := by
  have hstart : "; abc ".toList = ';' :: " abc ".toList := by decide
  have habc : '\n' ∉ " abc ".toList := by decide
  have hversion : '\n' ∉ " version=".toList := by decide
  have hdot : '\n' ∉ ".".toList := by decide
  have hblank : '\n' ∉ " ".toList := by decide
  have hconstants : '\n' ∉ "constants=".toList := by decide
  have hmethods : '\n' ∉ " methods=".toList := by decide
  have hdefinitions : '\n' ∉ " definitions=".toList := by decide
  have hnumber : ∀ n : UInt16, '\n' ∉ (toString n).toList := by
    intro n
    have htext : (toString n).toList = Nat.toDigits 10 n.toNat := Nat.toList_repr
    rw [htext]
    exact Decimal.newline_not_mem_toDigits n.toNat
  simp only [headerLine, String.toList_append, toString_string, Nat.toString_eq_repr, Nat.toList_repr]
  rw [hstart]
  -- All parts but the label are fixed or digits, and none has a line end.
  generalize " abc ".toList = abc at habc ⊢
  generalize " version=".toList = version at hversion ⊢
  generalize ".".toList = dot at hdot ⊢
  generalize " ".toList = blank at hblank ⊢
  generalize "constants=".toList = constants at hconstants ⊢
  generalize " methods=".toList = methods at hmethods ⊢
  generalize " definitions=".toList = definitions at hdefinitions ⊢
  refine ⟨abc ++ m.label.toList ++ version ++ (toString m.majorVersion).toList ++ dot ++
    (toString m.minorVersion).toList ++ blank ++ constants ++ Nat.toDigits 10 m.constants.size ++
    methods ++ Nat.toDigits 10 m.methods.size ++ definitions, by simp, fun hmem => ?_⟩
  simpa [habc, hversion, hdot, hblank, hconstants, hmethods, hdefinitions, hnumber,
    Decimal.newline_not_mem_toDigits] using hmem

/-- The first line is a comment, whatever the label. -/
theorem chars_headerLine : ∃ text, m.headerLine.chars = ';' :: text := by
  obtain ⟨before, htext, _⟩ := toList_headerLine (m := m)
  exact ⟨_, htext⟩

theorem unbroken_headerLine (hlabel : '\n' ∉ m.label.toList) : m.headerLine.Unbroken := by
  obtain ⟨before, htext, hnewline⟩ := toList_headerLine (m := m)
  have hchars : m.headerLine.chars = ';' :: before ++ Nat.toDigits 10 m.definitions.length := htext
  have hbefore : '\n' ∉ before := fun hmem => hlabel (hnewline hmem)
  have hdigits := Decimal.piece_toDigits m.definitions.length
  rw [TraceLine.Unbroken, hchars]
  exact ⟨by simp [hbefore, hdigits.oneLine], hdigits.dropReturn _⟩

theorem unbroken_trace (hm : m.Resolved) (hlabel : '\n' ∉ m.label.toList) : ∀ line ∈ m.trace, line.Unbroken := by
  have hinit : m.initLine.Unbroken := by
    have hline := toList_initLine (m.methodName m.init)
    unfold initLine
    generalize (s!".init {nameText (m.methodName m.init)}") = text at hline ⊢
    exact unbroken_of_piece (hline ▸ piece_initText _)
  have hmethods : ∀ line ∈ m.methods.toList.zipIdx.flatMap fun p => m.methodLines p.2 p.1, line.Unbroken := by
    intro line hline
    obtain ⟨⟨method, index⟩, hmethod, hline⟩ := List.mem_flatMap.1 hline
    have hindex := List.mk_mem_zipIdx_iff_getElem?.1 hmethod
    exact unbroken_methodLines hm (Array.getElem?_toList ▸ hindex) line hline
  simp only [trace, List.cons_append, List.forall_mem_cons, List.forall_mem_append, List.forall_mem_map]
  exact ⟨unbroken_headerLine hlabel, ⟨hmethods, fun d _ => unbroken_definitionLine m d⟩, hinit,
    List.forall_mem_nil _⟩

end Assembly

theorem Module.toList_disassemble (m : Module) :
    m.disassemble.toList = (m.trace.map TraceLine.chars).flatMap (· ++ ['\n']) := by
  simp [disassemble, String.toList_join, TraceLine.chars, List.flatMap_map]

/-- The lines of the disassembly are those of the trace. -/
theorem Module.lines_disassemble {m : Module} (hm : m.Resolved) (hlabel : '\n' ∉ m.label.toList) :
    Text.lines m.disassemble.toList = m.trace.map TraceLine.chars := by
  have hunbroken := Assembly.unbroken_trace hm hlabel
  rw [toList_disassemble, Text.lines_flatMap, List.map_map]
  · exact List.map_congr_left fun line hline => (hunbroken line hline).2
  · simpa using fun line hline => (hunbroken line hline).1

end MovieVm.Bytecode
