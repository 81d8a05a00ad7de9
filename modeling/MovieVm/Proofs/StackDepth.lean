import MovieVm.Bytecode.Verifier
import MovieVm.Proofs.References

/-!
# Stack depths of a verified method

A survey without a fault is a solution of the flow equations of the code: every instruction it visits finds
its operands, and each of its successors is visited at the depth it leaves.
-/

namespace MovieVm.Bytecode

/-- The parameters, local slots and branch targets of a method are within its bounds. -/
structure Method.WithinBounds (m : Method) : Prop where
  params : m.params ≤ m.locals
  locals : m.locals ≤ maxLocals
  slot : ∀ i ∈ m.code, ∀ slot, i.local? = some slot → slot < m.locals
  target : ∀ i ∈ m.code, ∀ target, i.target? = some target → target < m.code.size

namespace Verifier

/-! ## The depths of a survey -/

/-- The depth at which a survey has visited an instruction. -/
def Survey.DepthAt (s : Survey) (pc depth : Nat) : Prop :=
  s.depths[pc]? = some (some depth)

theorem Survey.DepthAt.unique {s : Survey} {pc a b : Nat} (ha : s.DepthAt pc a) (hb : s.DepthAt pc b) :
    a = b := by
  unfold DepthAt at ha hb
  simpa [ha] using hb

theorem Survey.depthAt_visit_self {s : Survey} {pc depth next : Nat} (h : pc < s.depths.size) :
    (s.visit pc depth next).DepthAt pc depth := by
  simp [DepthAt, visit, h]

theorem Survey.depthAt_visit_of_ne {s : Survey} {pc other depth next d : Nat} (h : other ≠ pc) :
    (s.visit pc depth next).DepthAt other d ↔ s.DepthAt other d := by
  simp [DepthAt, visit, h.symm]

theorem Survey.DepthAt.visit {s : Survey} {pc depth next other d : Nat}
    (h : s.DepthAt other d) (hnew : s.depths[pc]? = some none) :
    (s.visit pc depth next).DepthAt other d := by
  have hne : other ≠ pc := by
    rintro rfl
    simp [DepthAt, hnew] at h
  exact (depthAt_visit_of_ne hne).2 h

/-! ## The worklist -/

/-- The invariant of the worklist: a visited instruction finds its operands, and each of its successors is
visited at the depth it leaves or is still to be visited at it. -/
structure Flows (code : Array Instruction) (s : Survey) (work : List (Nat × Nat)) : Prop where
  effect : ∀ pc depth, s.DepthAt pc depth → ∃ i, code[pc]? = some i ∧ i.pops ≤ depth ∧
    depth ≤ s.deepest ∧
    ∀ next ∈ i.successors pc, s.DepthAt next (i.depthAfter depth) ∨ (next, i.depthAfter depth) ∈ work
  pending : ∀ pc depth, (pc, depth) ∈ work → depth ≤ s.deepest

variable {code : Array Instruction} {s : Survey} {pc depth : Nat} {work : List (Nat × Nat)}

/-- An item stays on the worklist until its depth is noted. -/
def Settles (pc depth : Nat) (s : Survey) (work : List (Nat × Nat)) : Prop :=
  s.DepthAt pc depth ∨ (pc, depth) ∈ work

theorem Settles.skip {other d : Nat} (h : Settles other d s ((pc, depth) :: work))
    (hseen : s.DepthAt pc depth) : Settles other d s work := by
  rcases h with hvisited | hpending
  · exact .inl hvisited
  · rcases List.mem_cons.1 hpending with heq | hwork
    · obtain ⟨rfl, rfl⟩ := Prod.mk.inj heq
      exact .inl hseen
    · exact .inr hwork

theorem Settles.visit {other d next : Nat} {more : List (Nat × Nat)}
    (h : Settles other d s ((pc, depth) :: work)) (hnew : s.depths[pc]? = some none) :
    Settles other d (s.visit pc depth next) (more ++ work) := by
  rcases h with hvisited | hpending
  · exact .inl (hvisited.visit hnew)
  · rcases List.mem_cons.1 hpending with heq | hwork
    · obtain ⟨rfl, rfl⟩ := Prod.mk.inj heq
      obtain ⟨hsize, _⟩ := Array.getElem?_eq_some_iff.1 hnew
      exact .inl (Survey.depthAt_visit_self hsize)
    · exact .inr (List.mem_append_right _ hwork)

/-- An item that repeats a known depth may be dropped. -/
theorem Flows.skip (h : Flows code s ((pc, depth) :: work)) (hseen : s.DepthAt pc depth) :
    Flows code s work where
  effect := by
    intro other d hd
    obtain ⟨i, hi, hpops, hdeep, hnext⟩ := h.effect other d hd
    -- The dropped item is the only one that is lost, and its depth is known.
    exact ⟨i, hi, hpops, hdeep, fun next hmem => Settles.skip (hnext next hmem) hseen⟩
  pending := fun other d hmem => h.pending other d (List.mem_cons_of_mem _ hmem)

/-- A first visit notes the depth and puts the successors in front of the work. -/
theorem Flows.visit (h : Flows code s ((pc, depth) :: work)) {i : Instruction}
    (hi : code[pc]? = some i) (hnew : s.depths[pc]? = some none) (hpops : i.pops ≤ depth) :
    Flows code (s.visit pc depth (i.depthAfter depth))
      ((i.successors pc).map (·, i.depthAfter depth) ++ work) where
  effect := by
    intro other d hd
    -- The new entry leaves its successors to the worklist; another may have waited for this visit.
    by_cases hother : other = pc
    · subst hother
      obtain ⟨hsize, _⟩ := Array.getElem?_eq_some_iff.1 hnew
      obtain rfl := hd.unique (Survey.depthAt_visit_self hsize)
      refine ⟨i, hi, hpops, ?_, fun next hmem => .inr ?_⟩
      · exact Nat.le_trans (h.pending other d List.mem_cons_self) (Nat.le_max_left ..)
      · exact List.mem_append_left _ (List.mem_map.2 ⟨next, hmem, rfl⟩)
    · rw [Survey.depthAt_visit_of_ne hother] at hd
      obtain ⟨j, hj, hjpops, hdeep, hnext⟩ := h.effect other d hd
      exact ⟨j, hj, hjpops, Nat.le_trans hdeep (Nat.le_max_left ..), fun next hmem =>
        Settles.visit (hnext next hmem) hnew⟩
  pending := by
    intro other d hmem
    rcases List.mem_append.1 hmem with hnext | hwork
    · obtain ⟨_, _, heq⟩ := List.mem_map.1 hnext
      obtain ⟨rfl, rfl⟩ := Prod.mk.inj heq
      exact Nat.le_max_right ..
    · exact Nat.le_trans (h.pending other d (List.mem_cons_of_mem _ hwork)) (Nat.le_max_left ..)

theorem Flows.perm {work' : List (Nat × Nat)} (h : Flows code s work) (hperm : work.Perm work') :
    Flows code s work' where
  effect := by
    intro pc depth hd
    obtain ⟨i, hi, hpops, hdeep, hnext⟩ := h.effect pc depth hd
    exact ⟨i, hi, hpops, hdeep, fun next hmem => (hnext next hmem).imp_right hperm.mem_iff.1⟩
  pending := fun pc depth hmem => h.pending pc depth (hperm.mem_iff.2 hmem)

/-! ## Any order -/

/-- How an exploration may end, whichever item of the worklist is taken next: with a survey, or with none
when the item is at fault. -/
inductive Explores (code : Array Instruction) : Survey → List (Nat × Nat) → Option Survey → Prop where
  | done (s : Survey) : Explores code s [] (some s)
  | known {s : Survey} {work rest : List (Nat × Nat)} {pc depth : Nat} {outcome : Option Survey}
    (hnext : work.Perm ((pc, depth) :: rest)) (hseen : s.DepthAt pc depth)
    (h : Explores code s rest outcome) : Explores code s work outcome
  | visit {s : Survey} {work rest : List (Nat × Nat)} {pc depth : Nat} {i : Instruction}
    {outcome : Option Survey} (hnext : work.Perm ((pc, depth) :: rest)) (hi : code[pc]? = some i)
    (hnew : s.depths[pc]? = some none) (hpops : i.pops ≤ depth)
    (h : Explores code (s.visit pc depth (i.depthAfter depth))
      ((i.successors pc).map (·, i.depthAfter depth) ++ rest) outcome) : Explores code s work outcome
  | conflict {s : Survey} {work rest : List (Nat × Nat)} {pc depth seen : Nat}
    (hnext : work.Perm ((pc, depth) :: rest)) (hseen : s.DepthAt pc seen) (hne : seen ≠ depth) :
    Explores code s work none
  | underflow {s : Survey} {work rest : List (Nat × Nat)} {pc depth : Nat} {i : Instruction}
    (hnext : work.Perm ((pc, depth) :: rest)) (hi : code[pc]? = some i)
    (hnew : s.depths[pc]? = some none) (hpops : depth < i.pops) : Explores code s work none
  | fallsOff {s : Survey} {work rest : List (Nat × Nat)} {pc depth : Nat}
    (hnext : work.Perm ((pc, depth) :: rest)) (hend : code[pc]? = none) : Explores code s work none

/-- The worklist is one of the orders: it takes the first item. -/
theorem explores_explore (hsize : s.depths.size = code.size) :
    Explores code s work (explore code s work).toOption := by
  fun_induction explore code s work with
  | case1 s => exact .done s
  | case2 s pc work depth i hseen hi ih => exact .known (.refl _) hseen (ih hsize)
  | case3 s pc depth work i seen hseen hi hne => exact .conflict (.refl _) hseen hne
  | case4 s pc depth work i hnew hi hpops => exact .underflow (.refl _) hi hnew hpops
  | case5 s pc depth work i hnew hi hpops next ih =>
    exact .visit (.refl _) hi hnew (Nat.le_of_not_lt hpops) (ih (by simpa [Survey.visit] using hsize))
  | case6 s pc depth work hseen hnew =>
    refine .fallsOff (.refl _) (Array.getElem?_eq_none_iff.2 (Nat.le_of_not_lt fun hpc => ?_))
    -- Every instruction has a place in the survey, noted or not.
    have hi := Array.getElem?_eq_getElem hpc
    have hplace := Array.getElem?_eq_getElem (hsize ▸ hpc)
    cases hdepth : s.depths[pc] with
    | none => exact hnew _ hi (hdepth ▸ hplace)
    | some seen => exact hseen _ seen hi (hdepth ▸ hplace)

/-- What holds of a survey and its worklist at the start, whatever the order of the items, and is kept by
dropping an item and by a visit, holds when no work is left. -/
theorem Explores.invariant {P : Survey → List (Nat × Nat) → Prop} {s' : Survey}
    (perm : ∀ {s work work'}, P s work → work.Perm work' → P s work')
    (skip : ∀ {s work pc depth}, P s ((pc, depth) :: work) → s.DepthAt pc depth → P s work)
    (visit : ∀ {s work pc depth} {i : Instruction}, P s ((pc, depth) :: work) → code[pc]? = some i →
      s.depths[pc]? = some none → i.pops ≤ depth →
      P (s.visit pc depth (i.depthAfter depth)) ((i.successors pc).map (·, i.depthAfter depth) ++ work))
    (h : Explores code s work (some s')) (hstart : P s work) : P s' [] := by
  generalize houtcome : some s' = outcome at h
  induction h with
  | done s =>
    obtain rfl := Option.some.inj houtcome
    exact hstart
  | known hnext hseen _ ih => exact ih (skip (perm hstart hnext) hseen) houtcome
  | visit hnext hi hnew hpops _ ih => exact ih (visit (perm hstart hnext) hi hnew hpops) houtcome
  | conflict => cases houtcome
  | underflow => cases houtcome
  | fallsOff => cases houtcome

/-! ## Methods -/

variable {m : Method}

theorem explores_survey (m : Method) :
    Explores m.code (.blank m.code.size) [(0, 0)] (survey m).toOption :=
  explores_explore (by simp [Survey.blank])

theorem Survey.not_depthAt_blank {size pc depth : Nat} : ¬ (Survey.blank size).DepthAt pc depth := by
  simp [DepthAt, blank, Array.getElem?_replicate]

/-- Whatever the order, an exploration without a fault has solved the flow equations. -/
theorem Explores.flows {size : Nat} (h : Explores code (.blank size) [(0, 0)] (some s)) :
    Flows code s [] ∧ s.DepthAt 0 0 := by
  -- Nothing is visited at the start, and the one item of work is the entry of the method.
  have hblank : Flows code (.blank size) [(0, 0)] := {
    effect := fun pc depth hd => absurd hd Survey.not_depthAt_blank
    pending := by simp }
  obtain ⟨hflows, hentry⟩ := Explores.invariant (P := fun s work => Flows code s work ∧ Settles 0 0 s work)
    (fun h hperm => ⟨h.1.perm hperm, h.2.imp_right hperm.mem_iff.1⟩)
    (fun h hseen => ⟨h.1.skip hseen, h.2.skip hseen⟩)
    (fun h hi hnew hpops => ⟨h.1.visit hi hnew hpops, h.2.visit hnew⟩)
    h ⟨hblank, .inr List.mem_cons_self⟩
  exact ⟨hflows, hentry.resolve_right List.not_mem_nil⟩

/-- The depths that a survey found, from an empty stack at the first instruction. -/
theorem survey_flows (h : survey m = .ok s) : Flows m.code s [] ∧ s.DepthAt 0 0 := by
  have hexplores := explores_survey m
  rw [h] at hexplores
  exact hexplores.flows

theorem Flows.successor (h : Flows code s []) {i : Instruction} (hd : s.DepthAt pc depth)
    (hi : code[pc]? = some i) {next : Nat} (hnext : next ∈ i.successors pc) :
    s.DepthAt next (i.depthAfter depth) := by
  obtain ⟨j, hj, _, _, hall⟩ := h.effect pc depth hd
  obtain rfl : i = j := by simpa [hi] using hj
  -- No work is left over that could still owe the visit.
  rcases hall next hnext with hvisited | hpending
  · exact hvisited
  · exact absurd hpending List.not_mem_nil

theorem checkFrame_eq_ok : checkFrame m = .ok () ↔ m.params ≤ m.locals ∧ m.locals ≤ maxLocals := by
  unfold checkFrame
  split
  · simp only [reduceCtorEq, false_iff]
    omega
  · split
    · simp only [reduceCtorEq, false_iff]
      omega
    · simp only [true_iff]
      omega

theorem checkOperand_eq_ok {i : Instruction} :
    checkOperand m pc i = .ok () ↔ (∀ slot, i.local? = some slot → slot < m.locals) ∧
      ∀ target, i.target? = some target → target < m.code.size := by
  -- No instruction has both a local slot and a branch target.
  cases i <;> simp [checkOperand, Instruction.local?, Instruction.target?]

theorem checkOperands_eq_ok : checkOperands m = .ok () ↔
    ∀ i ∈ m.code, (∀ slot, i.local? = some slot → slot < m.locals) ∧
      ∀ target, i.target? = some target → target < m.code.size := by
  simp only [checkOperands, Except.forM_zipIdx_eq_ok, checkOperand_eq_ok]
  constructor
  · intro h i hi
    obtain ⟨pc, hpc⟩ := List.getElem?_of_mem (Array.mem_toList_iff.2 hi)
    exact h pc i hpc
  · intro h pc i hpc
    exact h i (Array.mem_toList_iff.1 (List.mem_of_getElem? hpc))

/-- A method passes when its operands are within bounds and its stack could be surveyed. -/
theorem checkMethod_eq_ok_iff {deepest : Nat} :
    checkMethod m = .ok deepest ↔ m.WithinBounds ∧ ∃ s, survey m = .ok s ∧ s.deepest = deepest := by
  simp only [checkMethod, Except.check_bind_eq_ok, checkStack, Except.map_eq_ok, checkFrame_eq_ok,
    checkOperands_eq_ok]
  constructor
  · rintro ⟨⟨hparams, hlocals⟩, hoperands, hsurvey⟩
    exact ⟨⟨hparams, hlocals, fun i hi => (hoperands i hi).1, fun i hi => (hoperands i hi).2⟩, hsurvey⟩
  · rintro ⟨hfits, hsurvey⟩
    exact ⟨⟨hfits.params, hfits.locals⟩, fun i hi => ⟨hfits.slot i hi, hfits.target i hi⟩, hsurvey⟩

/-- What the checks of a method establish: they surveyed its stack, and its locals are in range. -/
theorem checkMethod_eq_ok {deepest : Nat} (h : checkMethod m = .ok deepest) :
    m.params ≤ m.locals ∧ m.locals ≤ maxLocals ∧
      (∀ i ∈ m.code, ∀ slot, i.local? = some slot → slot < m.locals) ∧
      ∃ s, survey m = .ok s ∧ s.deepest = deepest := by
  obtain ⟨hfits, hsurvey⟩ := checkMethod_eq_ok_iff.1 h
  exact ⟨hfits.params, hfits.locals, hfits.slot, hsurvey⟩

end Verifier

theorem Method.verify_eq_ok {m : Method} {name : String} {deepest : Nat} :
    m.verify name = .ok deepest ↔ Verifier.checkMethod m = .ok deepest := by
  unfold verify
  split <;> simp_all

/-- A verified module has only verified methods. -/
theorem Module.verify_eq_ok {m : Module} (h : m.verify = .ok ()) {method : Method}
    (hmethod : method ∈ m.methods) : ∃ deepest, Verifier.checkMethod method = .ok deepest := by
  obtain ⟨index, hindex⟩ := List.getElem?_of_mem (Array.mem_toList_iff.2 hmethod)
  have hverify := Except.forM_zipIdx_eq_ok.1 h index method hindex
  obtain ⟨deepest, hdeepest, _⟩ := Except.bind_eq_ok.1 hverify
  exact ⟨deepest, Method.verify_eq_ok.1 hdeepest⟩

end MovieVm.Bytecode
