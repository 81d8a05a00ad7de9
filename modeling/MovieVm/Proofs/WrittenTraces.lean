import MovieVm.Proofs.Additions
import MovieVm.Proofs.LineNumbers

/-!
# Traces on a writer

A module is written line by line, with the writer indented inside of each method. What this adds to a console are the
lines of the trace, so on a new console it gives the text of the module. On any other it differs from that in its layout
only, which the assembler ignores.
-/

namespace MovieVm.Bytecode.Module

open Console

variable {m : Module} {method : Method} {c : Console} {w : Writer}

/-- The indentation of a writer at a line of a trace. -/
def margin (c : Console) (w : Writer) (line : TraceLine) : Nat :=
  if line.indent = 0 then c.padding w else (c.indent w).padding w

/-- A line of a trace as a writer shows it. -/
def shown (c : Console) (w : Writer) (line : TraceLine) : Emission :=
  ⟨.out, indentation (margin c w line) ++ line.text⟩

/-- Only the lines inside of a method are indented. -/
theorem indent_of_mem_bodyLines {line : TraceLine} (h : line ∈ m.bodyLines method) : line.indent = 1 := by
  have hcode (targets : List Nat) (pc : Nat) (code : List Instruction) :
      ∀ line ∈ m.codeLines targets pc code, line.indent = 1 := by
    induction code generalizing pc with
    | nil => exact List.forall_mem_nil _
    | cons i code ih =>
      refine List.forall_mem_append.2 ⟨?_, List.forall_mem_cons.2 ⟨rfl, ih (pc + 1)⟩⟩
      split
      · exact List.forall_mem_singleton.2 rfl
      · exact List.forall_mem_nil _
  rcases List.mem_append.1 h with h | h
  · exact hcode _ _ _ line h
  · obtain ⟨target, -, rfl⟩ := List.mem_map.1 h
    rfl

theorem indent_definitionLine (m : Module) (d : Definition) : (m.definitionLine d).indent = 0 := by
  unfold definitionLine
  rcases d.binding with (_ | index) | index
  · rfl
  · dsimp only
    cases m.constants[index]? <;> rfl
  · rfl

theorem adds_outside (c : Console) (w : Writer) (line : TraceLine) (h : line.indent = 0) :
    Adds (·.writeLine line.text w) c [shown c w line] := by
  rw [shown, margin, if_pos h]
  exact .line c .out line.text w

theorem adds_writeMethod (m : Module) (c : Console) (w : Writer) (index : Nat) (method : Method) :
    Adds (m.writeMethod w · index method) c ((m.methodLines index method).map (shown c w)) := by
  have hbody : Adds ((m.bodyLines method).foldl fun c line => c.writeLine line.text w) (c.indent w)
      ((m.bodyLines method).map (shown c w)) := .foldl_lines fun line hline => by
    have hindent : line.indent ≠ 0 := by simp [indent_of_mem_bodyLines hline]
    rw [shown, margin, if_neg hindent]
    exact .line (c.indent w) .out line.text w
  have hmethod := ((adds_outside c w ⟨0, m.methodHead index method⟩ rfl).andThen hbody.indented).andThen
    (adds_outside c w ⟨0, ".end"⟩ rfl)
  rw [methodLines, List.map_append]
  exact hmethod

/-- Writing a module adds the lines of its trace, whatever is written already. -/
theorem adds_write (m : Module) (c : Console) (w : Writer) : Adds (m.write · w) c (m.trace.map (shown c w)) := by
  have hmethods : Adds (m.methods.toList.zipIdx.foldl fun c p => m.writeMethod w c p.2 p.1) c
      (m.methods.toList.zipIdx.flatMap fun p => (m.methodLines p.2 p.1).map (shown c w)) :=
    .foldl fun p _ => m.adds_writeMethod c w p.2 p.1
  have hdefinitions : Adds (m.definitions.foldl fun c d => c.writeLine (m.definitionLine d).text w) c
      (m.definitions.map (shown c w ∘ m.definitionLine)) :=
    .foldl_lines fun d _ => adds_outside c w _ (m.indent_definitionLine d)
  have hall := (((adds_outside c w m.headerLine rfl).andThen hmethods).andThen hdefinitions).andThen
    (adds_outside c w m.initLine rfl)
  have htrace : m.trace.map (shown c w) = [shown c w m.headerLine] ++
      (m.methods.toList.zipIdx.flatMap fun p => (m.methodLines p.2 p.1).map (shown c w)) ++
      m.definitions.map (shown c w ∘ m.definitionLine) ++ [shown c w m.initLine] := by
    simp [trace, List.map_flatMap]
  rw [htrace]
  exact hall

/-! ## The text of a module -/

theorem indent_le_one (m : Module) : ∀ line ∈ m.trace, line.indent ≤ 1 := by
  have hmethods : ∀ line ∈ m.methods.toList.zipIdx.flatMap fun p => m.methodLines p.2 p.1, line.indent ≤ 1 := by
    intro line hline
    obtain ⟨⟨method, index⟩, -, hline⟩ := List.mem_flatMap.1 hline
    rcases List.mem_append.1 hline with hline | hline
    · rcases List.mem_cons.1 hline with rfl | hbody
      · exact Nat.zero_le 1
      · exact (indent_of_mem_bodyLines hbody).le
    · rw [List.mem_singleton.1 hline]
      exact Nat.zero_le 1
  have hdefinitions : ∀ line ∈ m.definitions.map m.definitionLine, line.indent ≤ 1 :=
    List.forall_mem_map.2 fun d _ => (m.indent_definitionLine d).trans_le (Nat.zero_le 1)
  simp only [trace, List.cons_append, List.forall_mem_cons, List.forall_mem_append]
  exact ⟨Nat.zero_le 1, ⟨hmethods, hdefinitions⟩, Nat.zero_le 1, List.forall_mem_nil _⟩

/-- A writer that is not indented shows each line with the indentation of the trace. -/
theorem margin_root {line : TraceLine} (h : line.indent ≤ 1) : margin {} root line = line.indent := by
  unfold margin
  split
  · rename_i hzero
    exact hzero.symm
  · have hone : line.indent = 1 := by omega
    rw [hone]
    rfl

/-- The text of a module is what a writer shows that has a console to itself. -/
theorem text_write (m : Module) : (m.write {}).text = m.disassemble := by
  have hlines : (m.write {}).emitted.toList =
      m.trace.map fun line => ⟨.out, indentation line.indent ++ line.text⟩ := by
    rw [(m.adds_write {} root).emitted, Array.toList_empty, List.nil_append]
    refine List.map_congr_left fun line hline => ?_
    rw [shown, margin_root (m.indent_le_one line hline)]
  rw [text, hlines, textOf, List.map_map]
  simp [disassemble, indentation, Function.comp_def]

end MovieVm.Bytecode.Module

namespace MovieVm.Bytecode.Assembly

open Console Bytecode.Module

/-! ## Its layout -/

/-- Lines may be indented, each as it likes. -/
theorem relaid_indented {α : Type} {pad text : α → List Char} (hpad : ∀ a, IsSpaces (pad a)) (items : List α)
    {before : List Char} (hbefore : Text.AtStart before) :
    Relaid (before ++ items.flatMap fun a => text a ++ ['\n'])
      (before ++ items.flatMap fun a => pad a ++ (text a ++ ['\n'])) := by
  induction items generalizing before with
  | nil => exact .refl _
  | cons a items ih =>
    have hpadded (rest : List Char) : Edit (before ++ rest) (before ++ (pad a ++ rest)) := .leading hbefore (hpad a)
    -- The lines behind are padded first, and then this one, at whose start the text before still ends a line.
    have hnext : Text.AtStart (before ++ (pad a ++ (text a ++ ['\n']))) := .inr ⟨before ++ (pad a ++ text a), by simp⟩
    have hothers := ih hnext
    rw [List.flatMap_cons, List.flatMap_cons]
    refine .trans _ _ _ (.rel _ _ (hpadded _)) ?_
    simpa [Relaid] using hothers

theorem isSpaces_indentation (levels : Nat) : IsSpaces (Console.indentation levels).toList := by
  intro c hc
  rw [Console.indentation, String.toList_ofList] at hc
  exact .inl (List.eq_of_mem_replicate hc)

/-- What a writer shows of a module differs in its layout from the text, whatever the indentation. -/
theorem relaid_trace (m : Module) (c : Console) (w : Writer) :
    Relaid m.disassemble.toList (textOf (m.trace.map (shown c w))).toList := by
  -- Both are the lines without any indentation, with some of their own.
  have hrelaid (levels : TraceLine → Nat) : Relaid ([] ++ m.trace.flatMap fun line => line.text.toList ++ ['\n'])
      ([] ++ m.trace.flatMap fun line => (indentation (levels line)).toList ++ (line.text.toList ++ ['\n'])) :=
    relaid_indented (fun line => isSpaces_indentation (levels line)) m.trace (.inl rfl)
  have hboth : Relaid _ _ := .trans _ _ _ (.symm _ _ (hrelaid TraceLine.indent)) (hrelaid (margin c w))
  simpa [Module.disassemble, textOf, shown, indentation, String.toList_join, List.flatMap_map] using hboth

/-- Texts that differ in nothing but layout are assembled to the same module, or none of them is. What is written of a
module, by a writer with any indentation, is such a text; it is the text of the module if the writer has none. -/
theorem assembly_ignores_layout :
    (∀ (text text' : String), Relaid text.toList text'.toList → ∀ label,
      SameOutcome (Module.assemble text label) (Module.assemble text' label)) ∧
    ∀ m : Module, (m.write {}).text = m.disassemble ∧ ∀ (c : Console) (w : Writer), ∃ emissions,
      (m.write c w).emitted.toList = c.emitted.toList ++ emissions ∧ ∀ label,
        SameOutcome (Module.assemble m.disassemble label) (Module.assemble (textOf emissions) label) := by
  refine ⟨fun _ _ h label => h.sameOutcome label, fun m => ⟨m.text_write, fun c w => ?_⟩⟩
  exact ⟨m.trace.map (shown c w), (m.adds_write c w).emitted, (relaid_trace m c w).sameOutcome⟩

/-- A method without code. -/
def bareText : String :=
  ".method m\n.end\n.init m"

/-- The same with an indented line, which has a comment with a quote in it. -/
def annotatedText : String :=
  ".method m\n\t.end;\"\n.init m"

theorem relaid_annotatedText : Relaid bareText.toList annotatedText.toList := by
  have hstart : Text.AtStart ".method m\n".toList := .inr ⟨".method m".toList, by decide⟩
  have hend : Text.AtEnd "\n.init m".toList := .inr ⟨['\n'], ".init m".toList, .inl rfl, by decide⟩
  have hclosed : Closed ".end".toList :=
    .plain (by decide) (by decide) (.plain (by decide) (by decide) (.plain (by decide) (by decide)
      (.plain (by decide) (by decide) .nil)))
  have hquote : '\n' ∉ ['"'] := by decide
  have hspaces : IsSpaces ['\t'] := fun _ hc => .inr (List.mem_singleton.1 hc)
  have hcommented := Edit.comment hstart hclosed (by decide) hquote hend
  have hindented : Edit (".method m\n".toList ++ ".end;\"\n.init m".toList) _ := .leading hstart hspaces
  exact .trans _ _ _ (.rel _ _ hcommented) (.rel _ _ hindented)

/-- The module that both of them are assembled to. -/
def bare : Module where
  label := "m"
  minorVersion := supportedMinor
  majorVersion := supportedMajor
  constants := #[.string "m"]
  methods := #[{ name := 0, params := 0, locals := 0, code := #[] }]
  definitions := []
  init := 0

/-- The comment makes no difference, and neither does a writer that is indented once. -/
theorem assembly_ignores_layout_annotatedText :
    let c := ({} : Console).indent
    Module.assemble bareText "m" = .ok bare ∧ Module.assemble annotatedText "m" = .ok bare ∧
      (∀ e ∈ (bare.write c).emitted, [' ', ' '] <+: e.line.toList) ∧
      Module.assemble (bare.write c).text "m" = .ok bare := by
  intro c
  have hbare : Module.assemble bareText "m" = .ok bare :=
    Except.eq_ok_of_toOption (by decide +kernel : (Module.assemble bareText "m").toOption = some bare)
  have htext : Module.assemble bare.disassemble "m" = .ok bare :=
    Except.eq_ok_of_toOption (by decide +kernel : (Module.assemble bare.disassemble "m").toOption = some bare)
  obtain ⟨hlayout, hwritten⟩ := assembly_ignores_layout
  obtain ⟨_, hwriter⟩ := hwritten bare
  obtain ⟨emissions, hemitted, hsame⟩ := hwriter c root
  have hshown : (bare.write c).text = textOf emissions := congrArg textOf hemitted
  refine ⟨hbare, ((hlayout bareText annotatedText relaid_annotatedText "m").module bare).1 hbare, by decide +kernel, ?_⟩
  rw [hshown]
  exact ((hsame "m").module bare).1 htext

end MovieVm.Bytecode.Assembly
