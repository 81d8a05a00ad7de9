import MovieVm.Domain.Activation
import MovieVm.Proofs.References

/-!
# Executing one instruction

An instruction that finds its operands, its local and its constant is carried out, and changes the depth of
the stack as its declared effect says. Only a throw fails then.
-/

namespace MovieVm

open Bytecode

namespace Activation

variable {a a' : Activation} {v top second : Value} {rest : List Value}

/-! ## Primitives -/

theorem fetch_of_some {i : Instruction} (h : a.method.code[a.next]? = some i) :
    fetch a = .ok (some i) { a with next := a.next + 1 } := by
  simp only [fetch, EStateM.bind_apply, EStateM.get_apply, h, EStateM.set_apply, EStateM.pure_apply]

theorem pop_of_cons (h : a.stack = v :: rest) : pop a = .ok v { a with stack := rest } := by
  simp only [pop, EStateM.bind_apply, EStateM.get_apply, h, EStateM.set_apply, EStateM.pure_apply]

theorem pop2_of_cons (h : a.stack = top :: second :: rest) :
    pop2 a = .ok (second, top) { a with stack := rest } := by
  rw [pop2, EStateM.bind_of_ok (pop_of_cons h), EStateM.bind_of_ok (pop_of_cons rfl)]
  rfl

theorem popArguments_of_le {count : Nat} (h : count ≤ a.stack.length) :
    popArguments count a = .ok (a.stack.take count).reverse { a with stack := a.stack.drop count } := by
  simp only [popArguments, EStateM.bind_apply, EStateM.get_apply, Nat.not_lt.2 h, if_false,
    EStateM.set_apply, EStateM.pure_apply]

theorem getLocal_of_lt {slot : Nat} (h : slot < a.locals.size) :
    getLocal slot a = .ok a.locals[slot] a := by
  simp [getLocal, EStateM.bind_apply, h]

theorem setLocal_of_lt {slot : Nat} (h : slot < a.locals.size) :
    setLocal slot v a = .ok () { a with locals := a.locals.setIfInBounds slot v } := by
  simp [setLocal, EStateM.bind_apply, h]

theorem constant_of_some {index : Nat} {c : Constant} (h : a.module.constants[index]? = some c) :
    constant index a = .ok c.value a := by
  simp [constant, Module.constant, EStateM.bind_apply, h]

theorem name_of_some {index : Nat} {s : String} (h : a.module.constants[index]? = some (.string s)) :
    name index a = .ok s a := by
  simp [name, Module.stringConstant, EStateM.bind_apply, h]

/-! ## Forms of instructions -/

theorem produce_eq : produce v a = .ok .proceed { a with stack := v :: a.stack } := rfl

theorem unary_of_cons {f : Value → Value} (h : a.stack = v :: rest) :
    unary f a = .ok .proceed { a with stack := f v :: rest } := by
  rw [unary, EStateM.bind_of_ok (pop_of_cons h)]
  rfl

theorem binary_of_cons {f : Value → Value → Value} (h : a.stack = top :: second :: rest) :
    binary f a = .ok .proceed { a with stack := f second top :: rest } := by
  rw [binary, EStateM.bind_of_ok (pop2_of_cons h)]
  rfl

theorem branch_of_cons {truth : Bool} {target : Nat} (h : a.stack = v :: rest) :
    branch truth target a =
      .ok .proceed { a with stack := rest, next := if v.isTruthy = truth then target else a.next } := by
  rw [branch, EStateM.bind_of_ok (pop_of_cons h)]
  by_cases htruth : v.isTruthy = truth
  · simp [htruth]
    rfl
  · simp [htruth]

/-! ## Effects -/

/-- What an instruction needs to be carried out. -/
structure Meets (a : Activation) (i : Instruction) : Prop where
  operands : i.pops ≤ a.stack.length
  resolves : a.module.Resolves i
  slot : ∀ slot, i.local? = some slot → slot < a.locals.size

/-- The values that come onto the stack when a request has been served. -/
def Request.owed : Request → Nat
  | .readGlobal _ | .call .. => 1
  | .proceed | .writeGlobal .. | .finish _ => 0

def Request.IsFinish : Request → Prop
  | .finish _ => True
  | _ => False

/-- What an instruction at `pc` has changed when it leaves a request. -/
structure Executed (a : Activation) (pc : Nat) (i : Instruction) (request : Request)
    (a' : Activation) : Prop where
  module : a'.module = a.module
  function : a'.function = a.function
  method : a'.method = a.method
  locals : a'.locals.size = a.locals.size
  depth : a'.stack.length + request.owed = i.depthAfter a.stack.length
  next : request.IsFinish ∨ a'.next ∈ i.successors pc

/-- A change of the stack alone, after which the next instruction follows. -/
theorem Executed.of_stack {pc : Nat} {i : Instruction} {request : Request} {stack : List Value}
    (hnext : a.next = pc + 1) (hmem : pc + 1 ∈ i.successors pc)
    (hdepth : stack.length + request.owed = i.depthAfter a.stack.length) :
    Executed a pc i request { a with stack } where
  module := rfl
  function := rfl
  method := rfl
  locals := rfl
  depth := hdepth
  next := .inr (hnext ▸ hmem)

theorem exists_cons_of_pos {stack : List Value} (h : 1 ≤ stack.length) :
    ∃ v rest, stack = v :: rest := by
  cases stack with
  | nil => simp at h
  | cons v rest => exact ⟨v, rest, rfl⟩

theorem exists_cons_cons {stack : List Value} (h : 2 ≤ stack.length) :
    ∃ top second rest, stack = top :: second :: rest := by
  obtain ⟨top, stack, rfl⟩ := exists_cons_of_pos (Nat.le_of_succ_le h)
  obtain ⟨second, rest, rfl⟩ := exists_cons_of_pos (Nat.le_of_succ_le_succ h)
  exact ⟨top, second, rest, rfl⟩

/-- The instruction is carried out, with the change of the stack that it declares. -/
def Succeeds (a : Activation) (pc : Nat) (i : Instruction) : Prop :=
  ∃ request a', execute i a = .ok request a' ∧ Executed a pc i request a'

section

variable {pc : Nat} {i : Instruction} (hnext : a.next = pc + 1) (hmeets : a.Meets i)

include hnext

theorem succeeds_produce (hexecute : execute i a = produce v a) (hpops : i.pops = 0)
    (hpushes : i.pushes = 1) (hmem : pc + 1 ∈ i.successors pc) : a.Succeeds pc i := by
  refine ⟨_, _, hexecute.trans produce_eq, .of_stack hnext hmem ?_⟩
  simp [Request.owed, Instruction.depthAfter, hpops, hpushes]

include hmeets

theorem succeeds_unary {f : Value → Value} (hexecute : execute i = unary f) (hpops : i.pops = 1)
    (hpushes : i.pushes = 1) (hmem : pc + 1 ∈ i.successors pc) : a.Succeeds pc i := by
  obtain ⟨v, rest, hstack⟩ := exists_cons_of_pos (hpops ▸ hmeets.operands)
  refine ⟨_, _, (congrFun hexecute a).trans (unary_of_cons hstack), .of_stack hnext hmem ?_⟩
  simp [Request.owed, Instruction.depthAfter, hpops, hpushes, hstack]

theorem succeeds_binary {f : Value → Value → Value} (hexecute : execute i = binary f)
    (hpops : i.pops = 2) (hpushes : i.pushes = 1) (hmem : pc + 1 ∈ i.successors pc) :
    a.Succeeds pc i := by
  obtain ⟨top, second, rest, hstack⟩ := exists_cons_cons (hpops ▸ hmeets.operands)
  refine ⟨_, _, (congrFun hexecute a).trans (binary_of_cons hstack), .of_stack hnext hmem ?_⟩
  simp [Request.owed, Instruction.depthAfter, hpops, hpushes, hstack]

theorem succeeds_relation {f : Value → Value → Bool} (hexecute : execute i = relation f)
    (hpops : i.pops = 2) (hpushes : i.pushes = 1) (hmem : pc + 1 ∈ i.successors pc) :
    a.Succeeds pc i :=
  succeeds_binary hnext hmeets hexecute hpops hpushes hmem

theorem succeeds_branch {truth : Bool} {target : Nat} (hexecute : execute i = branch truth target)
    (hpops : i.pops = 1) (hpushes : i.pushes = 0) (hsuccessors : i.successors pc = [pc + 1, target]) :
    a.Succeeds pc i := by
  obtain ⟨v, rest, hstack⟩ := exists_cons_of_pos (hpops ▸ hmeets.operands)
  refine ⟨_, _, (congrFun hexecute a).trans (branch_of_cons hstack), rfl, rfl, rfl, rfl, ?_, .inr ?_⟩
  · simp [Request.owed, Instruction.depthAfter, hpops, hpushes, hstack]
  · by_cases htruth : v.isTruthy = truth <;> simp [hsuccessors, htruth, hnext]

end

/-- An instruction that finds what it needs is carried out; a throw fails with the text of its value. -/
theorem execute_of_meets {pc : Nat} {i : Instruction} (hnext : a.next = pc + 1) (hmeets : a.Meets i) :
    a.Succeeds pc i ∨
      i = .throw ∧ ∃ v rest, a.stack = v :: rest ∧
        execute i a = .error { kind := .error, message := v.text } { a with stack := rest } := by
  -- One case for each form: an instruction that meets what it needs can miss nothing else.
  cases i with
  | pushUndefined => exact .inl (succeeds_produce hnext rfl rfl rfl (by simp [Instruction.successors]))
  | pushNull => exact .inl (succeeds_produce hnext rfl rfl rfl (by simp [Instruction.successors]))
  | pushTrue => exact .inl (succeeds_produce hnext rfl rfl rfl (by simp [Instruction.successors]))
  | pushFalse => exact .inl (succeeds_produce hnext rfl rfl rfl (by simp [Instruction.successors]))
  | newFunction method =>
    exact .inl (succeeds_produce hnext rfl rfl rfl (by simp [Instruction.successors]))
  | pushInt index =>
    obtain ⟨n, hn⟩ := hmeets.resolves
    exact .inl (succeeds_produce hnext (EStateM.bind_of_ok (constant_of_some hn)) rfl rfl
      (by simp [Instruction.successors]))
  | pushDouble index =>
    obtain ⟨x, hx⟩ := hmeets.resolves
    exact .inl (succeeds_produce hnext (EStateM.bind_of_ok (constant_of_some hx)) rfl rfl
      (by simp [Instruction.successors]))
  | pushString index =>
    obtain ⟨s, hs⟩ := hmeets.resolves
    exact .inl (succeeds_produce hnext (EStateM.bind_of_ok (constant_of_some hs)) rfl rfl
      (by simp [Instruction.successors]))
  | getLocal slot =>
    exact .inl (succeeds_produce hnext (EStateM.bind_of_ok (getLocal_of_lt (hmeets.slot slot rfl))) rfl rfl
      (by simp [Instruction.successors]))
  | pop =>
    obtain ⟨v, rest, hstack⟩ := exists_cons_of_pos hmeets.operands
    refine .inl ⟨_, _, EStateM.bind_of_ok (pop_of_cons hstack), .of_stack hnext ?_ ?_⟩
    · simp [Instruction.successors]
    · simp [Request.owed, Instruction.depthAfter, Instruction.pops, Instruction.pushes, hstack]
  | dup =>
    obtain ⟨v, rest, hstack⟩ := exists_cons_of_pos hmeets.operands
    refine .inl ⟨_, _, EStateM.bind_of_ok (pop_of_cons hstack), .of_stack hnext ?_ ?_⟩
    · simp [Instruction.successors]
    · simp [Request.owed, Instruction.depthAfter, Instruction.pops, Instruction.pushes, hstack]
  | swap =>
    obtain ⟨top, second, rest, hstack⟩ := exists_cons_cons hmeets.operands
    refine .inl ⟨_, _, EStateM.bind_of_ok (pop2_of_cons hstack), .of_stack hnext ?_ ?_⟩
    · simp [Instruction.successors]
    · simp [Request.owed, Instruction.depthAfter, Instruction.pops, Instruction.pushes, hstack]
  | getGlobal index =>
    obtain ⟨s, hs⟩ := hmeets.resolves
    refine .inl ⟨_, _, EStateM.bind_of_ok (name_of_some hs), .of_stack hnext ?_ ?_⟩
    · simp [Instruction.successors]
    · simp [Request.owed, Instruction.depthAfter, Instruction.pops, Instruction.pushes]
  | setGlobal index =>
    obtain ⟨s, hs⟩ := hmeets.resolves
    obtain ⟨v, rest, hstack⟩ := exists_cons_of_pos hmeets.operands
    refine .inl ⟨_, _, (EStateM.bind_of_ok (name_of_some hs)).trans (EStateM.bind_of_ok (pop_of_cons hstack)),
      .of_stack hnext ?_ ?_⟩
    · simp [Instruction.successors]
    · simp [Request.owed, Instruction.depthAfter, Instruction.pops, Instruction.pushes, hstack]
  | setLocal slot =>
    obtain ⟨v, rest, hstack⟩ := exists_cons_of_pos hmeets.operands
    have hslot : slot < a.locals.size := hmeets.slot slot rfl
    refine .inl ⟨_, _, (EStateM.bind_of_ok (pop_of_cons hstack)).trans (EStateM.bind_of_ok (setLocal_of_lt hslot)),
      rfl, rfl, rfl, by simp, ?_, .inr ?_⟩
    · simp [Request.owed, Instruction.depthAfter, Instruction.pops, Instruction.pushes, hstack]
    · simp [Instruction.successors, hnext]
  | jump target =>
    refine .inl ⟨_, _, rfl, rfl, rfl, rfl, rfl, ?_, .inr ?_⟩
    · simp [Request.owed, Instruction.depthAfter, Instruction.pops, Instruction.pushes]
    · simp [Instruction.successors]
  | ifTrue target => exact .inl (succeeds_branch hnext hmeets rfl rfl rfl rfl)
  | ifFalse target => exact .inl (succeeds_branch hnext hmeets rfl rfl rfl rfl)
  | call count =>
    -- The callee lies below the arguments and is one of the operands.
    have hoperands : count + 1 ≤ a.stack.length := hmeets.operands
    obtain ⟨callee, rest, hdrop⟩ :=
      exists_cons_of_pos (show 1 ≤ (a.stack.drop count).length by rw [List.length_drop]; omega)
    refine .inl ⟨_, _, (EStateM.bind_of_ok (popArguments_of_le (by omega))).trans (EStateM.bind_of_ok (pop_of_cons hdrop)),
      .of_stack hnext ?_ ?_⟩
    · simp [Instruction.successors]
    · have hlength := congrArg List.length hdrop
      simp only [List.length_drop, List.length_cons] at hlength
      simp only [Request.owed, Instruction.depthAfter, Instruction.pops, Instruction.pushes]
      omega
  | returnValue =>
    obtain ⟨v, rest, hstack⟩ := exists_cons_of_pos hmeets.operands
    refine .inl ⟨_, _, EStateM.bind_of_ok (pop_of_cons hstack), rfl, rfl, rfl, rfl, ?_, .inl trivial⟩
    simp [Request.owed, Instruction.depthAfter, Instruction.pops, Instruction.pushes, hstack]
  | returnVoid =>
    refine .inl ⟨_, _, rfl, rfl, rfl, rfl, rfl, ?_, .inl trivial⟩
    simp [Request.owed, Instruction.depthAfter, Instruction.pops, Instruction.pushes]
  | throw =>
    obtain ⟨v, rest, hstack⟩ := exists_cons_of_pos hmeets.operands
    exact .inr ⟨rfl, v, rest, hstack, EStateM.bind_of_ok (pop_of_cons hstack)⟩
  | negate => exact .inl (succeeds_unary hnext hmeets rfl rfl rfl (by simp [Instruction.successors]))
  | not => exact .inl (succeeds_unary hnext hmeets rfl rfl rfl (by simp [Instruction.successors]))
  | typeOf => exact .inl (succeeds_unary hnext hmeets rfl rfl rfl (by simp [Instruction.successors]))
  | add | subtract | multiply | divide | modulo =>
    exact .inl (succeeds_binary hnext hmeets rfl rfl rfl (by simp [Instruction.successors]))
  | _ => exact .inl (succeeds_relation hnext hmeets rfl rfl rfl (by simp [Instruction.successors]))

end Activation

end MovieVm
