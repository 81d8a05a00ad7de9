import Mathlib.Data.List.Induction
import MovieVm.Proofs.AssembledModules
import MovieVm.Proofs.Codec

/-!
# The constants of an assembled module

The pool of an assembled module holds the constants that its text uses, each once and each where it is used first.
Nothing stands in it that the module does not use.
-/

namespace MovieVm.Bytecode

open Assembly

/-! ## Uses in the text -/

/-- The constants that stay are in the order of their first occurrences. -/
theorem pairwise_idxOf_eraseDups (cs : List Constant) :
    cs.eraseDups.Pairwise fun c d => cs.idxOf c < cs.idxOf d := by
  induction cs using List.reverseRecOn with
  | nil => exact .nil
  | append_singleton cs c ih =>
    have hbefore : cs.eraseDups.Pairwise fun d e => (cs ++ [c]).idxOf d < (cs ++ [c]).idxOf e := by
      refine ih.imp_of_mem fun hd he hlt => ?_
      rwa [List.idxOf_append_of_mem (List.mem_eraseDups.1 hd), List.idxOf_append_of_mem (List.mem_eraseDups.1 he)]
    rw [Pool.eraseDups_concat]
    by_cases hc : c ∈ cs
    · rw [if_pos hc]
      exact hbefore
    · rw [if_neg hc]
      refine List.pairwise_append.2 ⟨hbefore, List.pairwise_singleton _ _, fun d hd e he => ?_⟩
      obtain rfl := List.mem_singleton.1 he
      rw [List.idxOf_append_of_mem (List.mem_eraseDups.1 hd), List.idxOf_append_of_notMem hc]
      exact Nat.lt_of_lt_of_le (List.idxOf_lt_length_of_mem (List.mem_eraseDups.1 hd)) (Nat.le_add_right _ _)

/-- What the lines of a declaration use. -/
theorem mem_statements_uses {d : Declaration} {c : Constant} (h : c ∈ d.statements.flatMap Statement.uses) :
    (∃ source, d = .method source ∧
      (c = .string source.name ∨ ∃ i ∈ instructions source.body, i.operand.constant? = some c)) ∨
      ∃ source, d = .definition source ∧ (c = .string source.name ∨ source.binding.constant? = some c) := by
  cases d with
  | method source =>
    refine .inl ⟨source, rfl, ?_⟩
    simp only [Declaration.statements, List.flatMap_cons, List.flatMap_append, List.flatMap_map, List.flatMap_nil,
      List.mem_append, List.mem_flatMap, Statement.uses, List.mem_singleton, List.not_mem_nil, or_false] at h
    rcases h with hname | ⟨e, he, hc⟩
    · exact .inl hname
    · cases e with
      | label name => cases hc
      | instruction i =>
        exact .inr ⟨i, List.mem_filterMap.2 ⟨_, he, rfl⟩, Option.mem_toList.1 hc⟩
  | definition source =>
    refine .inr ⟨source, rfl, ?_⟩
    simpa [Declaration.statements, Statement.uses] using h
  | init name => simp [Declaration.statements, Statement.uses] at h

namespace Module

variable {m : Module} {listing : Listing} {c : Constant}

/-! ## Uses in the module -/

theorem means_constant {kind : OperandKind} {operand : Operand kind} {names : List String}
    {places : String → Nat → Prop} {n : Nat} (h : operand.Means m.constants names places n)
    (hc : operand.constant? = some c) : kind.isConstant = true ∧ m.constants[n]? = some c := by
  cases operand with
  | int i => exact ⟨rfl, h.trans hc⟩
  | double x => exact ⟨rfl, h.trans hc⟩
  | string s => exact ⟨rfl, h.trans hc⟩
  | name s => exact ⟨rfl, h.trans hc⟩
  | _ => cases hc

/-- An instruction has the index of the constant that its line uses. -/
theorem constant?_of_becomes {source : InstructionSource} {names : List String} {places : String → Nat → Prop}
    {i : Instruction} (h : source.Becomes m.constants names places i) (hc : source.operand.constant? = some c) :
    ∃ index, i.constant? = some index ∧ m.constants[index]? = some c := by
  obtain ⟨n, rfl, hmeans⟩ := h
  obtain ⟨hkind, hconstant⟩ := means_constant hmeans hc
  have hoperand := Decode.operand?_withOperand source.opcode n
  have hne : source.opcode.kind ≠ .none := by
    intro hnone
    rw [hnone] at hkind
    cases hkind
  refine ⟨n, ?_, hconstant⟩
  rw [Instruction.constant?, Instruction.opcode_withOperand, if_pos hkind, hoperand, if_neg hne]

theorem constant_of_binding {source : BindingSource} {names : List String} {b : Binding}
    (h : source.Becomes m.constants names b) (hc : source.constant? = some c) :
    ∃ index, b = .slot (some index) ∧ m.constants[index]? = some c := by
  rcases source with (_ | d) | name
  · cases hc
  · obtain rfl := Option.some.inj hc
    exact h
  · cases hc

theorem mentioned_of_becomes (h : listing.Becomes m) (hc : c ∈ listing.uses) :
    ∃ index ∈ m.mentions, m.constants[index]? = some c := by
  rw [Listing.uses, Listing.statements, List.flatMap_assoc] at hc
  obtain ⟨d, hd, hstatement⟩ := List.mem_flatMap.1 hc
  rcases mem_statements_uses hstatement with ⟨source, rfl, huse⟩ | ⟨source, rfl, huse⟩
  · have hsource : source ∈ listing.methods := List.mem_filterMap.2 ⟨_, hd, rfl⟩
    obtain ⟨method, hmethod, hbecomes⟩ := exists_of_forall₂_right h.methods.flip hsource
    have hmethod : method ∈ m.methods := Array.mem_toList_iff.1 hmethod
    rcases huse with hname | ⟨line, hline, huse⟩
    · exact ⟨method.name, methodName_mem_mentions hmethod, hname ▸ hbecomes.name⟩
    · obtain ⟨i, hi, hline⟩ := exists_of_forall₂_right hbecomes.code.flip hline
      obtain ⟨index, hindex, hconstant⟩ := constant?_of_becomes hline huse
      exact ⟨index, operand_mem_mentions hmethod (Array.mem_toList_iff.1 hi) hindex, hconstant⟩
  · have hsource : source ∈ listing.definitions := List.mem_filterMap.2 ⟨_, hd, rfl⟩
    obtain ⟨d, hd, hbecomes⟩ := exists_of_forall₂_right h.definitions.flip hsource
    rcases huse with hname | huse
    · exact ⟨d.name, definitionMentions_subset hd (List.mem_cons_self ..), hname ▸ hbecomes.name⟩
    · obtain ⟨index, hindex, hconstant⟩ := constant_of_binding hbecomes.binding huse
      have hmentioned : index ∈ definitionMentions d := by simp [definitionMentions, hindex]
      exact ⟨index, definitionMentions_subset hd hmentioned, hconstant⟩

/-! ## The pool -/

theorem nodup_of_becomes (h : listing.Becomes m) : m.constants.toList.Nodup := by
  have hnodup := (Pool.agrees_after listing.uses).nodup
  rwa [Pool.constants_after, ← h.constants] at hnodup

/-- Every index of the pool is used somewhere in the module. -/
theorem mem_mentions_of_becomes (h : listing.Becomes m) {index : Nat} (hindex : index < m.constants.size) :
    index ∈ m.mentions := by
  have hmem : m.constants[index] ∈ m.constants.toList := Array.getElem_mem_toList hindex
  rw [h.constants, List.mem_eraseDups] at hmem
  obtain ⟨found, hfound, hconstant⟩ := mentioned_of_becomes h hmem
  have hlt : found < m.constants.toList.length := (Array.getElem?_eq_some_iff.1 hconstant).1
  have hsame : m.constants.toList[found]? = m.constants.toList[index]? := by
    rw [Array.getElem?_toList, Array.getElem?_toList, hconstant, Array.getElem?_eq_getElem hindex]
  -- No constant is there twice, so it was this index that was found.
  obtain rfl := (List.getElem?_inj hlt (nodup_of_becomes h)).1 hsame
  exact hfound

/-- Any number of lines of a text that is assembled can be read, and what they say tells which pool they leave. -/
theorem pool_of_take {source label : String} (h : assemble source label = .ok m) (count : Nat) :
    ∃ s statements, State.addLines {} 1 ((Text.lines source.toList).take count) = .ok s ∧
      Say ((Text.lines source.toList).take count) statements ∧
      s.pool = .after (statements.flatMap Statement.uses) := by
  obtain ⟨final, hlines, _⟩ := Except.bind_eq_ok.1 h
  rw [← List.take_append_drop count (Text.lines source.toList), addLines_append] at hlines
  obtain ⟨s, hread, _⟩ := Except.bind_eq_ok.1 hlines
  obtain ⟨statements, hsay, haccepts⟩ := addLines_eq_ok hread
  exact ⟨s, statements, hread, hsay, haccepts.pool_eq⟩

/-- The pool of an assembled module has no constant twice and none that the module does not use, and its constants are
in the order in which the text uses them first. After any number of lines, and wherever a constant enters the pool in
between, the tables have each constant where the pool has it. -/
theorem assembled_pool_is_canonical {source label : String} {m : Module} (h : assemble source label = .ok m) :
    m.constants.toList.Nodup ∧ (∀ index < m.constants.size, index ∈ m.mentions) ∧
      (∃ listing, Declares source listing ∧ (∀ other, Declares source other → other = listing) ∧
        m.constants.toList = listing.uses.eraseDups ∧
        m.constants.toList.Pairwise fun c d => listing.uses.idxOf c < listing.uses.idxOf d) ∧
      ∀ count, ∃ s statements, State.addLines {} 1 ((Text.lines source.toList).take count) = .ok s ∧
        Say ((Text.lines source.toList).take count) statements ∧
        s.pool = .after (statements.flatMap Statement.uses) ∧ s.pool.Agrees ∧
        ∀ used, used <+: statements.flatMap Statement.uses → (Pool.after used).Agrees := by
  obtain ⟨listing, hdeclares, _, hbecomes⟩ := listing_of_assemble h
  refine ⟨nodup_of_becomes hbecomes, fun index => mem_mentions_of_becomes hbecomes,
    ⟨listing, hdeclares, fun other => hdeclares.unique, hbecomes.constants, ?_⟩, fun count => ?_⟩
  · rw [hbecomes.constants]
    exact pairwise_idxOf_eraseDups listing.uses
  · obtain ⟨s, statements, hread, hsay, hpool⟩ := pool_of_take h count
    refine ⟨s, statements, hread, hsay, hpool, ?_, fun used _ => Pool.agrees_after used⟩
    rw [hpool]
    exact Pool.agrees_after _

theorem loops_pool_is_canonical :
    assemble loopsText "loops" = .ok loops ∧ loops.constants.toList.Nodup ∧
      (∀ index < loops.constants.size, index ∈ loops.mentions) ∧
      ∃ listing, Declares loopsText listing ∧ loops.constants.toList = listing.uses.eraseDups := by
  obtain ⟨hnodup, hmentions, ⟨listing, hdeclares, _, huses, _⟩, _⟩ := assembled_pool_is_canonical assemble_loopsText
  exact ⟨assemble_loopsText, hnodup, hmentions, listing, hdeclares, huses⟩

end Module

end MovieVm.Bytecode
