import MovieVm.Proofs.StackDepth

/-!
# Stack discipline

A method passes verification exactly when its operands are within bounds and the code that control can reach
has a stack discipline: one depth for each instruction, with the operands there and every successor inside
the code. Its deepest stack is then the deepest that a reachable instruction leaves, so neither depends on
the order in which instructions are visited.
-/

namespace MovieVm.Bytecode

/-! ## Reachable code -/

/-- Control may get from the first instruction to this place. -/
inductive Reachable (code : Array Instruction) : Nat → Prop where
  | entry : Reachable code 0
  | step {pc next : Nat} {i : Instruction} (h : Reachable code pc) (hi : code[pc]? = some i)
    (hnext : next ∈ i.successors pc) : Reachable code next

/-- One depth of the stack for each reachable instruction: the method is entered with an empty stack, each
instruction finds its operands, and control stays in the code and takes to every successor the depth that
the instruction leaves. What is not reachable may have any depth. -/
structure Disciplined (code : Array Instruction) (depth : Nat → Nat) : Prop where
  entry : depth 0 = 0
  inside : ∀ pc, Reachable code pc → pc < code.size
  operands : ∀ pc i, Reachable code pc → code[pc]? = some i → i.pops ≤ depth pc
  flow : ∀ pc i, Reachable code pc → code[pc]? = some i → ∀ next ∈ i.successors pc,
    depth next = i.depthAfter (depth pc)

/-- The deepest stack that a reachable instruction leaves. -/
structure IsDeepest (code : Array Instruction) (depth : Nat → Nat) (deepest : Nat) : Prop where
  bound : ∀ pc i, Reachable code pc → code[pc]? = some i → i.depthAfter (depth pc) ≤ deepest
  attained : ∃ pc i, Reachable code pc ∧ code[pc]? = some i ∧ i.depthAfter (depth pc) = deepest

variable {code : Array Instruction} {depth depth' : Nat → Nat} {pc a b : Nat}

/-- The flow equations have one solution. -/
theorem Disciplined.unique (h : Disciplined code depth) (h' : Disciplined code depth')
    (hpc : Reachable code pc) : depth pc = depth' pc := by
  induction hpc with
  | entry => rw [h.entry, h'.entry]
  | step hpc hi hnext ih => rw [h.flow _ _ hpc hi _ hnext, h'.flow _ _ hpc hi _ hnext, ih]

theorem IsDeepest.congr (h : IsDeepest code depth a)
    (heq : ∀ pc, Reachable code pc → depth pc = depth' pc) : IsDeepest code depth' a where
  bound := fun pc i hpc hi => heq pc hpc ▸ h.bound pc i hpc hi
  attained := by
    obtain ⟨pc, i, hpc, hi, hdeepest⟩ := h.attained
    exact ⟨pc, i, hpc, hi, heq pc hpc ▸ hdeepest⟩

theorem IsDeepest.le (ha : IsDeepest code depth a) (hb : IsDeepest code depth b) : a ≤ b := by
  obtain ⟨pc, i, hpc, hi, rfl⟩ := ha.attained
  exact hb.bound pc i hpc hi

theorem IsDeepest.unique (ha : IsDeepest code depth a) (hb : IsDeepest code depth b) : a = b :=
  Nat.le_antisymm (ha.le hb) (hb.le ha)

/-! ## What an exploration visits -/

namespace Verifier

variable {s : Survey} {work : List (Nat × Nat)} {d : Nat}

/-- The invariant of the survey: only reachable instructions are visited or waited for, and the deepest
stack is one that a visited instruction leaves, if any was visited. -/
structure Keeps (code : Array Instruction) (s : Survey) (work : List (Nat × Nat)) : Prop where
  visited : ∀ pc d, s.DepthAt pc d → Reachable code pc
  pending : ∀ pc d, (pc, d) ∈ work → Reachable code pc
  bound : ∀ pc d i, s.DepthAt pc d → code[pc]? = some i → i.depthAfter d ≤ s.deepest
  attained : s.deepest = 0 ∨ ∃ pc d i, s.DepthAt pc d ∧ code[pc]? = some i ∧ i.depthAfter d = s.deepest

theorem Keeps.perm {work' : List (Nat × Nat)} (h : Keeps code s work) (hperm : work.Perm work') :
    Keeps code s work' :=
  { h with pending := fun pc d hmem => h.pending pc d (hperm.mem_iff.2 hmem) }

theorem Keeps.skip (h : Keeps code s ((pc, d) :: work)) : Keeps code s work :=
  { h with pending := fun other d hmem => h.pending other d (List.mem_cons_of_mem _ hmem) }

theorem Keeps.visit (h : Keeps code s ((pc, d) :: work)) {i : Instruction} (hi : code[pc]? = some i)
    (hnew : s.depths[pc]? = some none) :
    Keeps code (s.visit pc d (i.depthAfter d)) ((i.successors pc).map (·, i.depthAfter d) ++ work) := by
  obtain ⟨hsize, _⟩ := Array.getElem?_eq_some_iff.1 hnew
  have hpc : Reachable code pc := h.pending pc d List.mem_cons_self
  have hself : (s.visit pc d (i.depthAfter d)).DepthAt pc d := Survey.depthAt_visit_self hsize
  refine ⟨fun other e he => ?_, fun other e hmem => ?_, fun other e j he hj => ?_, ?_⟩
  · by_cases hother : other = pc
    · exact hother ▸ hpc
    · exact h.visited other e ((Survey.depthAt_visit_of_ne hother).1 he)
  · rcases List.mem_append.1 hmem with hnext | hwork
    · obtain ⟨next, hsuccessor, heq⟩ := List.mem_map.1 hnext
      obtain ⟨rfl, rfl⟩ := Prod.mk.inj heq
      exact hpc.step hi hsuccessor
    · exact h.pending other e (List.mem_cons_of_mem _ hwork)
  · by_cases hother : other = pc
    · subst hother
      obtain rfl := he.unique hself
      obtain rfl : i = j := by simpa [hi] using hj
      exact Nat.le_max_right ..
    · exact Nat.le_trans (h.bound other e j ((Survey.depthAt_visit_of_ne hother).1 he) hj)
        (Nat.le_max_left ..)
  · -- The deepest stack is left by this instruction, or it is the one from before.
    rcases Nat.le_total s.deepest (i.depthAfter d) with hle | hle
    · exact .inr ⟨pc, d, i, hself, hi, (Nat.max_eq_right hle).symm⟩
    · have hsame : (s.visit pc d (i.depthAfter d)).deepest = s.deepest := Nat.max_eq_left hle
      rw [hsame]
      refine h.attained.imp_right fun ⟨other, e, j, he, hj, hdeepest⟩ => ?_
      exact ⟨other, e, j, he.visit hnew, hj, hdeepest⟩

theorem Explores.keeps {size : Nat} (h : Explores code (.blank size) [(0, 0)] (some s)) :
    Keeps code s [] := by
  have hblank : Keeps code (.blank size) [(0, 0)] := {
    visited := fun pc d hd => absurd hd Survey.not_depthAt_blank
    pending := fun pc d hmem => by
      obtain ⟨rfl, rfl⟩ := Prod.mk.inj (List.mem_singleton.1 hmem)
      exact .entry
    bound := fun pc d i hd => absurd hd Survey.not_depthAt_blank
    attained := .inl rfl }
  exact Explores.invariant (P := Keeps code) .perm (fun h _ => h.skip)
    (fun h hi hnew _ => h.visit hi hnew) h hblank

/-- The depth that a survey has noted, zero where it has none. -/
def Survey.noted (s : Survey) (pc : Nat) : Nat :=
  (s.depths[pc]?.getD none).getD 0

theorem Survey.DepthAt.noted_eq (h : s.DepthAt pc d) : s.noted pc = d := by
  unfold DepthAt at h
  simp [Survey.noted, h]

/-- All that is reachable has been visited when no work is left. -/
theorem Flows.depthAt (h : Flows code s []) (hentry : s.DepthAt 0 0) (hpc : Reachable code pc) :
    s.DepthAt pc (s.noted pc) := by
  induction hpc with
  | entry => rwa [hentry.noted_eq]
  | step _ hi hnext ih =>
    have hvisited := h.successor ih hi hnext
    rwa [hvisited.noted_eq]

/-- Soundness: an exploration that ends without a fault, in whatever order, has found the discipline of the
code and its deepest stack. -/
theorem Explores.disciplined {size : Nat} (h : Explores code (.blank size) [(0, 0)] (some s)) :
    Disciplined code s.noted ∧ IsDeepest code s.noted s.deepest := by
  obtain ⟨hflows, hentry⟩ := h.flows
  have hkeeps := h.keeps
  have hvisited : ∀ pc, Reachable code pc → s.DepthAt pc (s.noted pc) := fun _ => hflows.depthAt hentry
  constructor
  · refine ⟨hentry.noted_eq, fun pc hpc => ?_, fun pc i hpc hi => ?_, fun pc i hpc hi next hnext => ?_⟩
    · obtain ⟨i, hi, _⟩ := hflows.effect pc _ (hvisited pc hpc)
      exact (Array.getElem?_eq_some_iff.1 hi).1
    · obtain ⟨j, hj, hpops, _⟩ := hflows.effect pc _ (hvisited pc hpc)
      obtain rfl : i = j := by simpa [hi] using hj
      exact hpops
    · exact (hflows.successor (hvisited pc hpc) hi hnext).noted_eq
  · refine ⟨fun pc i hpc hi => hkeeps.bound pc _ i (hvisited pc hpc) hi, ?_⟩
    rcases hkeeps.attained with hzero | ⟨pc, d, i, hd, hi, hdeepest⟩
    · -- Nothing is deeper than an empty stack, so the first instruction leaves one.
      obtain ⟨i, hi, _⟩ := hflows.effect 0 0 hentry
      have hbound := hkeeps.bound 0 0 i hentry hi
      exact ⟨0, i, .entry, hi, by rw [hentry.noted_eq]; omega⟩
    · exact ⟨pc, i, hkeeps.visited pc d hd, hi, hd.noted_eq.symm ▸ hdeepest⟩

/-- The work asks for reachable instructions, at the depths of the discipline. -/
def Foreseen (code : Array Instruction) (depth : Nat → Nat) (work : List (Nat × Nat)) : Prop :=
  ∀ pc d, (pc, d) ∈ work → Reachable code pc ∧ depth pc = d

theorem Foreseen.head {rest : List (Nat × Nat)} (h : Foreseen code depth work)
    (hnext : work.Perm ((pc, d) :: rest)) : Reachable code pc ∧ depth pc = d :=
  h pc d (hnext.mem_iff.2 List.mem_cons_self)

theorem Foreseen.tail {rest : List (Nat × Nat)} (h : Foreseen code depth work)
    (hnext : work.Perm ((pc, d) :: rest)) : Foreseen code depth rest :=
  fun other e hmem => h other e (hnext.mem_iff.2 (List.mem_cons_of_mem _ hmem))

theorem Foreseen.successors (hwork : Foreseen code depth work) (hcode : Disciplined code depth)
    (hpc : Reachable code pc) {i : Instruction} (hi : code[pc]? = some i) :
    Foreseen code depth ((i.successors pc).map (·, i.depthAfter (depth pc)) ++ work) := by
  intro other e hmem
  rcases List.mem_append.1 hmem with hnew | hmem
  · obtain ⟨next, hsuccessor, heq⟩ := List.mem_map.1 hnew
    obtain ⟨rfl, rfl⟩ := Prod.mk.inj heq
    exact ⟨hpc.step hi hsuccessor, hcode.flow _ _ hpc hi _ hsuccessor⟩
  · exact hwork other e hmem

/-- Completeness: where the code has a discipline, no order of visits meets a fault. -/
theorem Explores.exists_of_disciplined {outcome : Option Survey} (hcode : Disciplined code depth)
    (h : Explores code s work outcome) (hwork : Foreseen code depth work)
    (hseen : ∀ pc d, s.DepthAt pc d → depth pc = d) : ∃ s', outcome = some s' := by
  induction h with
  | done s => exact ⟨s, rfl⟩
  | known hnext _ _ ih => exact ih (hwork.tail hnext) hseen
  | @visit s _ _ pc _ i _ hnext hi hnew _ _ ih =>
    obtain ⟨hpc, rfl⟩ := hwork.head hnext
    refine ih ((hwork.tail hnext).successors hcode hpc hi) fun other e he => ?_
    by_cases hother : other = pc
    · subst hother
      obtain ⟨hsize, _⟩ := Array.getElem?_eq_some_iff.1 hnew
      exact (Survey.depthAt_visit_self hsize).unique he
    · exact hseen other e ((Survey.depthAt_visit_of_ne hother).1 he)
  | conflict hnext hknown hne =>
    exact absurd ((hseen _ _ hknown).symm.trans (hwork.head hnext).2) hne
  | underflow hnext hi _ hpops =>
    obtain ⟨hpc, rfl⟩ := hwork.head hnext
    exact absurd (hcode.operands _ _ hpc hi) (Nat.not_le.2 hpops)
  | fallsOff hnext hend =>
    have hinside := hcode.inside _ (hwork.head hnext).1
    exact absurd hinside (Nat.not_lt.2 (Array.getElem?_eq_none_iff.1 hend))

/-- An exploration in any order comes to the deepest stack of the discipline, if there is one. -/
theorem Explores.deepest_eq_iff {size : Nat} {outcome : Option Survey}
    (h : Explores code (.blank size) [(0, 0)] outcome) {deepest : Nat} :
    outcome.map (·.deepest) = some deepest ↔
      ∃ depth, Disciplined code depth ∧ IsDeepest code depth deepest := by
  constructor
  · intro houtcome
    obtain ⟨s, rfl, rfl⟩ := Option.map_eq_some_iff.1 houtcome
    obtain ⟨hcode, hdeepest⟩ := h.disciplined
    exact ⟨s.noted, hcode, hdeepest⟩
  · rintro ⟨depth, hcode, hdeepest⟩
    obtain ⟨s, rfl⟩ := h.exists_of_disciplined hcode
      (fun pc d hmem => by
        obtain ⟨rfl, rfl⟩ := Prod.mk.inj (List.mem_singleton.1 hmem)
        exact ⟨.entry, hcode.entry⟩)
      (fun pc d hd => absurd hd Survey.not_depthAt_blank)
    -- The survey has found the same depths, since there is only one discipline.
    obtain ⟨hcode', hdeepest'⟩ := h.disciplined
    have hsame := hdeepest.congr fun pc hpc => hcode.unique hcode' hpc
    exact congrArg some (hdeepest'.unique hsame)

end Verifier

/-! ## Methods -/

open Verifier

/-- Verification accepts exactly the methods whose operands fit and whose reachable code has a stack
discipline, and answers with the deepest stack of that discipline. Every order of visits, not only the one
of the worklist, comes to the same answer. -/
theorem Method.verify_exact (m : Method) (name : String) (deepest : Nat) :
    (m.verify name = .ok deepest ↔
      m.WithinBounds ∧ ∃ depth, Disciplined m.code depth ∧ IsDeepest m.code depth deepest) ∧
    ∀ outcome, Explores m.code (.blank m.code.size) [(0, 0)] outcome →
      (m.verify name = .ok deepest ↔ m.WithinBounds ∧ outcome.map (·.deepest) = some deepest) := by
  have hverify : m.verify name = .ok deepest ↔
      m.WithinBounds ∧ ∃ depth, Disciplined m.code depth ∧ IsDeepest m.code depth deepest := by
    rw [Method.verify_eq_ok, checkMethod_eq_ok_iff, ← (explores_survey m).deepest_eq_iff]
    cases survey m <;> simp [Except.toOption]
  exact ⟨hverify, fun outcome houtcome => by rw [hverify, houtcome.deepest_eq_iff]⟩

end MovieVm.Bytecode
