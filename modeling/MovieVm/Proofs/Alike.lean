import MovieVm.Proofs.Content
import MovieVm.Proofs.Execution

/-!
# Code that says the same

Two modules are alike when they have the same content, but for branches that go past the end of the code.
Activations in such modules stay in step: each instruction does the same to both, and where a branch leaves
them at different places, both places are past the end.
-/

namespace MovieVm

open Bytecode

/-! ## Modules -/

namespace Bytecode

/-- What a method says when its branches end where its code does. -/
def Module.clampedContent (m : Module) (method : Method) : MethodContent :=
  m.methodContent method.clamped

def Module.Alike (m m' : Module) : Prop :=
  m.clamped.content = m'.clamped.content

namespace Module

variable {m m' : Module}

theorem Alike.refl (m : Module) : m.Alike m := rfl

theorem Alike.label (h : m.Alike m') : m.label = m'.label :=
  congrArg ModuleContent.label h

theorem Alike.init (h : m.Alike m') : m.init = m'.init :=
  congrArg ModuleContent.init h

theorem methods_content_clamped (m : Module) :
    m.clamped.content.methods = m.methods.toList.map m.clampedContent := by
  simp only [content, clamped, Array.toList_map, List.map_map]
  rfl

/-- The same methods are in the same places. -/
theorem Alike.methods (h : m.Alike m') (index : Nat) :
    m.methods[index]?.map m.clampedContent = m'.methods[index]?.map m'.clampedContent := by
  have hmethods := congrArg (fun content => content.methods[index]?) h
  simpa only [methods_content_clamped, List.getElem?_map, Array.getElem?_toList] using hmethods

theorem Alike.methodName (h : m.Alike m') (index : Nat) : m.methodName index = m'.methodName index := by
  have hmethods := h.methods index
  unfold Module.methodName
  cases hleft : m.methods[index]? with
  | none =>
    rw [hleft, Option.map_none] at hmethods
    rw [Option.map_eq_none_iff.1 hmethods.symm]
  | some method =>
    rw [hleft, Option.map_some] at hmethods
    obtain ⟨method', hright, hcontent⟩ := Option.map_eq_some_iff.1 hmethods.symm
    have hname : m'.stringConstant method'.name = m.stringConstant method.name :=
      congrArg MethodContent.name hcontent
    rw [hright]
    simp only [hname]

end Module

/-! ## Methods -/

/-- A method of one module and one of another, which say the same. -/
structure Counterparts where
  module : Module
  method : Method
  module' : Module
  method' : Method
  modules : module.Alike module'
  methods : module.clampedContent method = module'.clampedContent method'

namespace Counterparts

variable (c : Counterparts)

/-- The instructions say the same when branches past the end of the code go to its end. -/
def Matches (i i' : Instruction) : Prop :=
  c.module.instructionContent (i.clamp c.method.code.size) =
    c.module'.instructionContent (i'.clamp c.method'.code.size)

theorem size_eq : c.method.code.size = c.method'.code.size := by
  have hcode := congrArg (fun content => content.code.length) c.methods
  simpa [Module.clampedContent, Module.methodContent, Method.clamped] using hcode

theorem code (pc : Nat) : match c.method.code[pc]?, c.method'.code[pc]? with
    | none, none => True
    | some i, some i' => c.Matches i i'
    | _, _ => False := by
  have hcode := congrArg (fun content => content.code[pc]?) c.methods
  simp only [Module.clampedContent, Module.methodContent, Method.clamped, Array.toList_map, List.map_map,
    List.getElem?_map, Array.getElem?_toList] at hcode
  cases hleft : c.method.code[pc]? <;> cases hright : c.method'.code[pc]? <;>
    simp only [hleft, hright, Option.map_some, Option.map_none, reduceCtorEq] at hcode
  · trivial
  · exact Option.some.inj hcode

end Counterparts

end Bytecode

/-! ## Computations that agree -/

namespace EStateM

variable {ε σ α β : Type} {R : σ → σ → Prop}

/-- The same answer or the same failure, in related states. -/
inductive ResultsAgree (R : σ → σ → Prop) : EStateM.Result ε σ α → EStateM.Result ε σ α → Prop where
  | ok (a : α) {s s' : σ} (h : R s s') : ResultsAgree R (.ok a s) (.ok a s')
  | error (e : ε) {s s' : σ} (h : R s s') : ResultsAgree R (.error e s) (.error e s')

/-- Two computations do the same to related states. -/
def Agree (R : σ → σ → Prop) (x x' : EStateM ε σ α) : Prop :=
  ∀ s s', R s s' → ResultsAgree R (x s) (x' s')

theorem Agree.pure (a : α) : Agree R (pure a : EStateM ε σ α) (pure a) :=
  fun _ _ h => .ok a h

theorem Agree.throw (e : ε) : Agree R (throw e : EStateM ε σ α) (throw e) :=
  fun _ _ h => .error e h

theorem Agree.bind {x x' : EStateM ε σ α} {f f' : α → EStateM ε σ β} (hx : Agree R x x')
    (hf : ∀ a, Agree R (f a) (f' a)) : Agree R (x >>= f) (x' >>= f') := by
  intro s s' h
  have hagree := hx s s' h
  rw [bind_apply, bind_apply]
  generalize x s = r, x' s' = r' at hagree
  cases hagree with
  | ok a h => exact hf a _ _ h
  | error e h => exact .error e h

end EStateM

/-! ## Activations in step -/

namespace Bytecode.Counterparts

open Activation MovieVm.EStateM

variable (c : Counterparts)

/-- One activation runs the method where the other runs its counterpart, and both are at the same place. -/
structure InStep (a a' : Activation) : Prop where
  module : a.module = c.module
  method : a.method = c.method
  same : a' = { a with module := c.module', method := c.method' }

variable {c} {i i' : Instruction} {v : Value}

theorem agree_push : Agree c.InStep (push v) (push v) := by
  rintro a _ ⟨hmodule, hmethod, rfl⟩
  exact .ok () ⟨hmodule, hmethod, rfl⟩

theorem agree_pop : Agree c.InStep pop pop := by
  rintro a _ ⟨hmodule, hmethod, rfl⟩
  cases hstack : a.stack with
  | nil =>
    simp only [pop, bind_apply, get_apply, hstack]
    exact .error _ ⟨hmodule, hmethod, by rw [hstack]⟩
  | cons v rest =>
    simp only [pop, bind_apply, get_apply, hstack]
    exact .ok v ⟨hmodule, hmethod, rfl⟩

theorem agree_pop2 : Agree c.InStep pop2 pop2 :=
  agree_pop.bind fun _ => agree_pop.bind fun _ => .pure _

theorem agree_getLocal (slot : Nat) : Agree c.InStep (getLocal slot) (getLocal slot) := by
  rintro a _ ⟨hmodule, hmethod, rfl⟩
  cases hlocal : a.locals[slot]? with
  | none =>
    simp only [getLocal, bind_apply, get_apply, hlocal]
    exact .error _ ⟨hmodule, hmethod, rfl⟩
  | some v =>
    simp only [getLocal, bind_apply, get_apply, hlocal]
    exact .ok v ⟨hmodule, hmethod, rfl⟩

theorem agree_setLocal (slot : Nat) (v : Value) :
    Agree c.InStep (setLocal slot v) (setLocal slot v) := by
  rintro a _ ⟨hmodule, hmethod, rfl⟩
  by_cases hslot : slot < a.locals.size
  · simp only [setLocal, bind_apply, get_apply, hslot, if_true]
    exact .ok () ⟨hmodule, hmethod, rfl⟩
  · simp only [setLocal, bind_apply, get_apply, hslot, if_false]
    exact .error _ ⟨hmodule, hmethod, rfl⟩

theorem agree_popArguments (count : Nat) :
    Agree c.InStep (popArguments count) (popArguments count) := by
  rintro a _ ⟨hmodule, hmethod, rfl⟩
  by_cases hcount : a.stack.length < count
  · simp only [popArguments, bind_apply, get_apply, hcount, if_true]
    exact .error _ ⟨hmodule, hmethod, rfl⟩
  · simp only [popArguments, bind_apply, get_apply, hcount, if_false]
    exact .ok _ ⟨hmodule, hmethod, rfl⟩

/-- Constants that are the same are found the same. -/
theorem agree_constant {n n' : Nat} (h : c.module.constant n = c.module'.constant n') :
    Agree c.InStep (constant n) (constant n') := by
  rintro a _ ⟨hmodule, hmethod, rfl⟩
  cases hconstant : c.module.constant n with
  | error e =>
    simp only [constant, bind_apply, get_apply, hmodule, ← h, hconstant]
    exact .error _ ⟨hmodule, hmethod, rfl⟩
  | ok v =>
    simp only [constant, bind_apply, get_apply, hmodule, ← h, hconstant]
    exact .ok _ ⟨hmodule, hmethod, rfl⟩

theorem agree_name {n n' : Nat} (h : c.module.stringConstant n = c.module'.stringConstant n') :
    Agree c.InStep (name n) (name n') := by
  rintro a _ ⟨hmodule, hmethod, rfl⟩
  cases hname : c.module.stringConstant n with
  | error e =>
    simp only [name, bind_apply, get_apply, hmodule, ← h, hname]
    exact .error _ ⟨hmodule, hmethod, rfl⟩
  | ok s =>
    simp only [name, bind_apply, get_apply, hmodule, ← h, hname]
    exact .ok _ ⟨hmodule, hmethod, rfl⟩

theorem agree_produce : Agree c.InStep (produce v) (produce v) :=
  agree_push.bind fun _ => .pure _

theorem agree_unary (f : Value → Value) : Agree c.InStep (unary f) (unary f) :=
  agree_pop.bind fun _ => agree_produce

theorem agree_binary (f : Value → Value → Value) : Agree c.InStep (binary f) (binary f) :=
  agree_pop2.bind fun _ => agree_produce

theorem agree_relation (f : Value → Value → Bool) : Agree c.InStep (relation f) (relation f) :=
  agree_binary _

/-! ## Instructions that match -/

/-- An instruction that matches another has its opcode. -/
theorem Matches.withOperand (h : c.Matches i i') : ∃ n, i' = i.opcode.withOperand n := by
  have hopcode : (i.clamp c.method.code.size).opcode = (i'.clamp c.method'.code.size).opcode :=
    congrArg InstructionContent.opcode h
  rw [Instruction.clamp, Instruction.clamp, Instruction.opcode_mapOperand,
    Instruction.opcode_mapOperand] at hopcode
  refine ⟨i'.operand?.getD 0, ?_⟩
  rw [hopcode, Instruction.withOperand_opcode]

theorem Matches.operand (h : c.Matches i i') :
    (c.module.instructionContent (i.clamp c.method.code.size)).operand =
      (c.module'.instructionContent (i'.clamp c.method'.code.size)).operand :=
  congrArg InstructionContent.operand h

/-- Instructions that match do the same, unless they branch. -/
theorem agree_execute (h : c.Matches i i') (hbranch : i.target? = none) :
    Agree c.InStep (execute i) (execute i') := by
  obtain ⟨n', rfl⟩ := h.withOperand
  have hoperand := h.operand
  -- Operands that are indices may differ, but stand for the same; the others are the same numbers.
  cases i with
  | jump | ifTrue | ifFalse => cases hbranch
  | pushInt | pushDouble | pushString =>
    have hconstant := OperandContent.constant.inj (Option.some.inj hoperand)
    exact (agree_constant hconstant).bind fun _ => agree_produce
  | getGlobal =>
    have hname := OperandContent.name.inj (Option.some.inj hoperand)
    exact (agree_name hname).bind fun _ => .pure _
  | setGlobal =>
    have hname := OperandContent.name.inj (Option.some.inj hoperand)
    exact (agree_name hname).bind fun _ => agree_pop.bind fun _ => .pure _
  | getLocal slot =>
    obtain rfl : slot = n' := OperandContent.number.inj (Option.some.inj hoperand)
    exact (agree_getLocal slot).bind fun _ => agree_produce
  | setLocal slot =>
    obtain rfl : slot = n' := OperandContent.number.inj (Option.some.inj hoperand)
    exact agree_pop.bind fun _ => (agree_setLocal slot _).bind fun _ => .pure _
  | newFunction method =>
    obtain rfl : method = n' := OperandContent.number.inj (Option.some.inj hoperand)
    rintro a _ ⟨hmodule, hmethod, rfl⟩
    exact .ok _ ⟨hmodule, hmethod, rfl⟩
  | call count =>
    obtain rfl : count = n' := OperandContent.number.inj (Option.some.inj hoperand)
    exact (agree_popArguments count).bind fun _ => agree_pop.bind fun _ => .pure _
  | pushUndefined | pushNull | pushTrue | pushFalse => exact agree_produce
  | pop => exact agree_pop.bind fun _ => .pure _
  | dup => exact agree_pop.bind fun _ => agree_push.bind fun _ => agree_produce
  | swap => exact agree_pop2.bind fun _ => agree_push.bind fun _ => agree_produce
  | returnValue => exact agree_pop.bind fun _ => .pure _
  | returnVoid => exact .pure _
  | throw => exact agree_pop.bind fun _ => .throw _
  | negate | not | typeOf => exact agree_unary _
  | add | subtract | multiply | divide | modulo => exact agree_binary _
  | _ => exact agree_relation _

variable (c) in
/-- Like `InStep`, but the two may have gone past the end of the code to different places. -/
structure Level (a a' : Activation) : Prop where
  module : a.module = c.module
  method : a.method = c.method
  same : a' = { a with module := c.module', method := c.method', next := a'.next }
  place : min a.next c.method.code.size = min a'.next c.method'.code.size

variable {a a' : Activation}

theorem InStep.level (h : c.InStep a a') : c.Level a a' := by
  obtain ⟨hmodule, hmethod, rfl⟩ := h
  exact ⟨hmodule, hmethod, rfl, by rw [c.size_eq]⟩

/-- A branch leaves both at the same place, or past the end of the code. -/
theorem branch_level {truth : Bool} {t t' : Nat} (h : c.InStep a a')
    (hplace : min t c.method.code.size = min t' c.method'.code.size) :
    ResultsAgree c.InStep (branch truth t a) (branch truth t' a') ∨
      ∃ b b', branch truth t a = .ok .proceed b ∧ branch truth t' a' = .ok .proceed b' ∧ c.Level b b' := by
  obtain ⟨hmodule, hmethod, rfl⟩ := h
  cases hstack : a.stack with
  | nil =>
    have herror : ∀ a : Activation, ∀ truth t, a.stack = [] → branch truth t a = .error underflow a := by
      intro a truth t hstack
      simp [branch, pop, bind_apply, hstack]
    rw [herror a truth t hstack, herror _ truth t' rfl]
    exact .inl (.error _ ⟨hmodule, hmethod, by rw [hstack]⟩)
  | cons v rest =>
    refine .inr ⟨_, _, branch_of_cons hstack, branch_of_cons rfl, hmodule, hmethod, rfl, ?_⟩
    -- A branch that is not taken goes on to the next instruction, in both.
    by_cases htruth : v.isTruthy = truth
    · simpa only [htruth, if_true] using hplace
    · simp only [htruth, if_false, c.size_eq]

/-- Instructions that match agree, or branch to the same place. -/
theorem execute_level (h : c.Matches i i') (ha : c.InStep a a') :
    ResultsAgree c.InStep (execute i a) (execute i' a') ∨
      ∃ b b', execute i a = .ok .proceed b ∧ execute i' a' = .ok .proceed b' ∧ c.Level b b' := by
  -- Only the targets of branches may differ in what they say.
  cases htarget : i.target? with
  | none => exact .inl (agree_execute h htarget a a' ha)
  | some t =>
    obtain ⟨n', rfl⟩ := h.withOperand
    have hoperand := h.operand
    cases i with
    | jump =>
      have hplace := OperandContent.number.inj (Option.some.inj hoperand)
      obtain ⟨hmodule, hmethod, rfl⟩ := ha
      exact .inr ⟨_, _, rfl, rfl, hmodule, hmethod, rfl, hplace⟩
    | ifTrue => exact branch_level ha (OperandContent.number.inj (Option.some.inj hoperand))
    | ifFalse => exact branch_level ha (OperandContent.number.inj (Option.some.inj hoperand))
    | _ => cases htarget

/-- Both fetch instructions that match, or both are past the end of the code. -/
theorem Level.next_instruction (h : c.Level a a') :
    a.method.code[a.next]? = none ∧ a'.method.code[a'.next]? = none ∨
      ∃ i i', a.method.code[a.next]? = some i ∧ a'.method.code[a'.next]? = some i' ∧ c.Matches i i' ∧
        c.InStep { a with next := a.next + 1 } { a' with next := a'.next + 1 } := by
  obtain ⟨hmodule, hmethod, hsame, hplace⟩ := h
  have hmethod' : a'.method = c.method' := by rw [hsame]
  have hsize := c.size_eq
  -- Inside the code the places are the same one, and past its end neither finds anything.
  rcases Nat.lt_or_ge a.next c.method.code.size with hinside | hpast
  · have hnext : a'.next = a.next := by omega
    have hcode := c.code a.next
    rw [← hmethod, ← hmethod', ← hnext] at hcode
    rw [← hnext]
    cases hleft : a.method.code[a'.next]? <;> cases hright : a'.method.code[a'.next]? <;>
      simp only [hleft, hright] at hcode
    · exact .inl ⟨rfl, rfl⟩
    · exact .inr ⟨_, _, rfl, rfl, hcode, hmodule, hmethod, by rw [hsame]⟩
  · refine .inl ⟨?_, ?_⟩
    · rw [hmethod]
      exact Array.getElem?_eq_none hpast
    · rw [hmethod']
      exact Array.getElem?_eq_none (by omega)

/-- Activations in step show the same frame. -/
theorem InStep.frame (h : c.InStep a a') : a.frame = a'.frame := by
  obtain ⟨hmodule, hmethod, rfl⟩ := h
  simp only [Activation.frame, Activation.methodName, hmodule, c.modules.label, c.modules.methodName]

end Bytecode.Counterparts

/-- Entering methods of the same index fails alike, or leaves two activations in step. -/
theorem Bytecode.Module.Alike.enter {m m' : Module} (h : m.Alike m') (function : FunctionRef)
    (args : List Value) :
    (∃ e, Activation.enter m function args = .error e ∧ Activation.enter m' function args = .error e) ∨
      ∃ c a a', Activation.enter m function args = .ok a ∧ Activation.enter m' function args = .ok a' ∧
        Counterparts.InStep c a a' := by
  have hmethods := h.methods function.method
  unfold Activation.enter Module.method
  cases hleft : m.methods[function.method]? with
  | none =>
    rw [hleft, Option.map_none] at hmethods
    rw [Option.map_eq_none_iff.1 hmethods.symm]
    exact .inl ⟨_, rfl, rfl⟩
  | some method =>
    rw [hleft, Option.map_some] at hmethods
    obtain ⟨method', hright, hcontent⟩ := Option.map_eq_some_iff.1 hmethods.symm
    have hlocals : method'.locals = method.locals := congrArg MethodContent.locals hcontent
    have hparams : method'.params = method.params := congrArg MethodContent.params hcontent
    rw [hright]
    simp only [hlocals]
    split
    · exact .inl ⟨_, rfl, rfl⟩
    · refine .inr ⟨⟨m, method, m', method', h, hcontent.symm⟩, _, _, rfl, rfl, rfl, rfl, ?_⟩
      simp only [Activation.initialLocals, hlocals, hparams]

end MovieVm
