import MovieVm.Domain.Natives
import MovieVm.Proofs.Execution

/-!
# Where function values come from

The values that an instruction works with are those of its activation, constants, and what operators make of them. The
only functions it makes are methods of its own module. If all functions of the activation are methods of loaded
modules, then so are those it leaves behind or asks for.
-/

namespace MovieVm

open Bytecode

/-- A function value refers to a method of one of the modules. -/
def Value.Known (modules : Array LoadedModule) : Value → Prop
  | .function f => ∃ loaded, modules[f.module]? = some loaded ∧ f.method < loaded.module.methods.size
  | _ => True

/-- The errors that a function value without a method causes. -/
def VmError.Dangling (e : VmError) : Prop :=
  e.kind = .internalError ∧
    ∃ index : Nat, e.message = s!"no module #{index}" ∨ e.message = s!"method index {index} out of range"

variable {modules : Array LoadedModule}

/-! ## Other errors -/

theorem head?_append_of_eq_some {s t : String} {c : Char} (h : s.toList.head? = some c) :
    (s ++ t).toList.head? = some c := by
  rw [String.toList_append, List.head?_append, h, Option.some_or]

/-- The texts of dangling references begin with one of two letters. -/
theorem VmError.Dangling.head {e : VmError} (h : e.Dangling) :
    e.message.toList.head? = some 'n' ∨ e.message.toList.head? = some 'm' := by
  obtain ⟨_, index, hmodule | hmethod⟩ := h
  · rw [hmodule]
    exact .inl (head?_append_of_eq_some rfl)
  · rw [hmethod]
    exact .inr (head?_append_of_eq_some (head?_append_of_eq_some rfl))

theorem VmError.not_dangling_of_head {e : VmError} {c : Char} (h : e.message.toList.head? = some c)
    (hmodule : c ≠ 'n') (hmethod : c ≠ 'm') : ¬ e.Dangling := by
  intro hdangling
  obtain hn | hm := hdangling.head
  · exact hmodule (Option.some.inj (h.symm.trans hn))
  · exact hmethod (Option.some.inj (h.symm.trans hm))

theorem VmError.not_dangling_of_kind {e : VmError} (h : e.kind ≠ .internalError) : ¬ e.Dangling :=
  fun hdangling => h hdangling.1

/-- A frame that an error passes leaves its text alone. -/
theorem VmError.not_dangling_withFrame {e : VmError} (h : ¬ e.Dangling) (frame : StackFrame) :
    ¬ (e.withFrame frame).Dangling :=
  h

theorem Bytecode.Module.not_dangling_of_stringConstant {m : Module} {index : Nat} {e : ModuleError}
    (h : m.stringConstant index = .error e) : ¬ (Activation.internalError e.message).Dangling := by
  have hhead : e.message.toList.head? = some 'c' := by
    unfold stringConstant at h
    split at h
    · cases h
    · cases h
      exact head?_append_of_eq_some (head?_append_of_eq_some (head?_append_of_eq_some rfl))
    · cases h
      exact head?_append_of_eq_some (head?_append_of_eq_some rfl)
  exact VmError.not_dangling_of_head hhead (by decide) (by decide)

theorem Bytecode.Module.not_dangling_of_constant {m : Module} {index : Nat} {e : ModuleError}
    (h : m.constant index = .error e) : ¬ (Activation.internalError e.message).Dangling := by
  unfold constant at h
  split at h
  · cases h
  · cases h
    exact VmError.not_dangling_of_head (c := 'c') (head?_append_of_eq_some (head?_append_of_eq_some rfl))
      (by decide) (by decide)

/-! ## Operators -/

namespace Value

theorem known_constant (c : Constant) : c.value.Known modules := by
  cases c <;> trivial

theorem known_ofNumber (x : Double) : (ofNumber x).Known modules := by
  unfold ofNumber
  split
  · split <;> trivial
  · trivial

theorem known_add (a b : Value) : (a.add b).Known modules := by
  unfold add
  split
  · trivial
  · trivial
  · exact known_ofNumber _

/-- What was known stays known when more modules are loaded. -/
theorem Known.push {v : Value} (h : v.Known modules) (loaded : LoadedModule) : v.Known (modules.push loaded) := by
  cases v with
  | function f =>
    obtain ⟨found, hfound, hmethod⟩ := h
    refine ⟨found, ?_, hmethod⟩
    obtain ⟨hlt, hget⟩ := Array.getElem?_eq_some_iff.1 hfound
    rw [Array.getElem?_push_lt hlt, hget]
  | _ => trivial

end Value

/-! ## Computations that keep a fact -/

namespace EStateM

variable {ε σ α β : Type} {P : σ → Prop} {Q : α → Prop} {R : β → Prop} {E : ε → Prop}

/-- From a state with `P` the computation comes to such a state, with a result of `Q` or an error of `E`. -/
def Ensures (P : σ → Prop) (Q : α → Prop) (E : ε → Prop) (x : EStateM ε σ α) : Prop :=
  ∀ s, P s → match x s with
    | .ok a s' => P s' ∧ Q a
    | .error e s' => P s' ∧ E e

theorem Ensures.pure {a : α} (h : Q a) : Ensures P Q E (pure a) :=
  fun _ hs => ⟨hs, h⟩

theorem Ensures.throw {e : ε} (h : E e) : Ensures P Q E (throw e : EStateM ε σ α) :=
  fun _ hs => ⟨hs, h⟩

theorem Ensures.bind {x : EStateM ε σ α} {f : α → EStateM ε σ β} (hx : Ensures P Q E x)
    (hf : ∀ a, Q a → Ensures P R E (f a)) : Ensures P R E (x >>= f) := by
  intro s hs
  have hfirst := hx s hs
  rw [bind_apply]
  cases hrun : x s with
  | ok a s' =>
    rw [hrun] at hfirst
    exact hf a hfirst.2 s' hfirst.1
  | error e s' =>
    rw [hrun] at hfirst
    exact hfirst

end EStateM

/-! ## Activations -/

namespace Activation

open MovieVm.EStateM

/-- All functions of the activation are known, its own included. -/
structure Grounded (modules : Array LoadedModule) (module : Module) (a : Activation) : Prop where
  module_eq : a.module = module
  loaded : ∃ scope, modules[a.function.module]? = some ⟨module, scope⟩
  method : module.methods[a.function.method]? = some a.method
  stack : ∀ v ∈ a.stack, v.Known modules
  locals : ∀ v ∈ a.locals, v.Known modules

/-- The values of a request are known. -/
def Request.Known (modules : Array LoadedModule) : Request → Prop
  | .writeGlobal _ v | .finish v => v.Known modules
  | .call callee args => callee.Known modules ∧ ∀ arg ∈ args, arg.Known modules
  | .proceed | .readGlobal _ => True

variable {module : Module} {a : Activation}

theorem Grounded.own (h : a.Grounded modules module) : a.Grounded modules a.module := by
  obtain rfl := h.module_eq
  exact h

theorem Grounded.withStack (h : a.Grounded modules module) {stack : List Value}
    (hstack : ∀ v ∈ stack, v.Known modules) : Grounded modules module { a with stack } :=
  ⟨h.module_eq, h.loaded, h.method, hstack, h.locals⟩

theorem Grounded.withNext (h : a.Grounded modules module) (next : Nat) : Grounded modules module { a with next } :=
  ⟨h.module_eq, h.loaded, h.method, h.stack, h.locals⟩

theorem Grounded.known_function (h : a.Grounded modules module) : (Value.function a.function).Known modules := by
  obtain ⟨scope, hscope⟩ := h.loaded
  obtain ⟨hlt, _⟩ := Array.getElem?_eq_some_iff.1 h.method
  exact ⟨_, hscope, hlt⟩

theorem Grounded.push (h : a.Grounded modules module) (loaded : LoadedModule) :
    a.Grounded (modules.push loaded) module where
  module_eq := h.module_eq
  loaded := by
    obtain ⟨scope, hscope⟩ := h.loaded
    obtain ⟨hlt, hget⟩ := Array.getElem?_eq_some_iff.1 hscope
    exact ⟨scope, by rw [Array.getElem?_push_lt hlt, hget]⟩
  method := h.method
  stack := fun v hv => (h.stack v hv).push loaded
  locals := fun v hv => (h.locals v hv).push loaded

/-- The computation works on known values only, and its errors are no dangling references. -/
abbrev Safe (modules : Array LoadedModule) (module : Module) (Q : α → Prop) (x : Execution α) : Prop :=
  Ensures (Grounded modules module) Q (¬ VmError.Dangling ·) x

/-! ## Primitives -/

theorem not_dangling_underflow : ¬ underflow.Dangling :=
  VmError.not_dangling_of_head (c := 'o') rfl (by decide) (by decide)

theorem not_dangling_localOutOfRange (slot : Nat) : ¬ (localOutOfRange slot).Dangling :=
  VmError.not_dangling_of_head (c := 'l') (head?_append_of_eq_some (head?_append_of_eq_some rfl)) (by decide)
    (by decide)

theorem safe_push {v : Value} (h : v.Known modules) : Safe modules module (fun _ => True) (push v) :=
  fun _ ha => ⟨ha.withStack (List.forall_mem_cons.2 ⟨h, ha.stack⟩), trivial⟩

theorem safe_pop : Safe modules module (Value.Known modules) pop := by
  intro a ha
  cases hstack : a.stack with
  | nil =>
    simp only [pop, bind_apply, get_apply, hstack]
    exact ⟨ha, not_dangling_underflow⟩
  | cons v rest =>
    obtain ⟨hv, hrest⟩ := List.forall_mem_cons.1 (hstack ▸ ha.stack)
    rw [pop_of_cons hstack]
    exact ⟨ha.withStack hrest, hv⟩

theorem safe_pop2 : Safe modules module (fun values => values.1.Known modules ∧ values.2.Known modules) pop2 :=
  safe_pop.bind fun _ htop => safe_pop.bind fun _ hsecond => .pure ⟨hsecond, htop⟩

theorem safe_getLocal (slot : Nat) : Safe modules module (Value.Known modules) (getLocal slot) := by
  intro a ha
  by_cases hslot : slot < a.locals.size
  · rw [getLocal_of_lt hslot]
    exact ⟨ha, ha.locals _ (Array.getElem_mem hslot)⟩
  · simp only [getLocal, bind_apply, get_apply, Array.getElem?_eq_none (Nat.not_lt.1 hslot)]
    exact ⟨ha, not_dangling_localOutOfRange slot⟩

theorem safe_setLocal {v : Value} (h : v.Known modules) (slot : Nat) :
    Safe modules module (fun _ => True) (setLocal slot v) := by
  intro a ha
  by_cases hslot : slot < a.locals.size
  · rw [setLocal_of_lt hslot]
    refine ⟨⟨ha.module_eq, ha.loaded, ha.method, ha.stack, fun w hw => ?_⟩, trivial⟩
    obtain hold | hnew := Array.mem_or_eq_of_mem_setIfInBounds hw
    · exact ha.locals w hold
    · exact hnew ▸ h
  · simp only [setLocal, bind_apply, get_apply, hslot, if_false]
    exact ⟨ha, not_dangling_localOutOfRange slot⟩

theorem safe_popArguments (count : Nat) :
    Safe modules module (fun args => ∀ arg ∈ args, arg.Known modules) (popArguments count) := by
  intro a ha
  by_cases hcount : a.stack.length < count
  · simp only [popArguments, bind_apply, get_apply, hcount, if_true]
    exact ⟨ha, not_dangling_underflow⟩
  · rw [popArguments_of_le (Nat.not_lt.1 hcount)]
    exact ⟨ha.withStack fun v hv => ha.stack v (List.mem_of_mem_drop hv),
      fun arg harg => ha.stack arg (List.mem_of_mem_take (List.mem_reverse.1 harg))⟩

theorem safe_constant (index : Nat) : Safe modules module (Value.Known modules) (constant index) := by
  intro a ha
  simp only [constant, bind_apply, get_apply]
  cases hconstant : a.module.constant index with
  | ok c => exact ⟨ha, Value.known_constant c⟩
  | error e => exact ⟨ha, Module.not_dangling_of_constant hconstant⟩

theorem safe_name (index : Nat) : Safe modules module (fun _ => True) (name index) := by
  intro a ha
  simp only [name, bind_apply, get_apply]
  cases hname : a.module.stringConstant index with
  | ok s => exact ⟨ha, trivial⟩
  | error e => exact ⟨ha, Module.not_dangling_of_stringConstant hname⟩

theorem safe_jumpTo (target : Nat) : Safe modules module (fun _ => True) (jumpTo target) :=
  fun _ ha => ⟨ha.withNext target, trivial⟩

/-! ## Instructions -/

theorem safe_produce {v : Value} (h : v.Known modules) : Safe modules module (Request.Known modules) (produce v) :=
  (safe_push h).bind fun _ _ => .pure trivial

theorem safe_unary {f : Value → Value} (h : ∀ v, (f v).Known modules) :
    Safe modules module (Request.Known modules) (unary f) :=
  safe_pop.bind fun v _ => safe_produce (h v)

theorem safe_binary {f : Value → Value → Value} (h : ∀ a b, (f a b).Known modules) :
    Safe modules module (Request.Known modules) (binary f) :=
  safe_pop2.bind fun _ _ => safe_produce (h _ _)

theorem safe_relation (f : Value → Value → Bool) : Safe modules module (Request.Known modules) (relation f) :=
  safe_binary (f := fun second top => .boolean (f second top)) fun _ _ => trivial

theorem safe_branch (truth : Bool) (target : Nat) :
    Safe modules module (Request.Known modules) (branch truth target) := by
  refine safe_pop.bind fun v _ => ?_
  split
  · exact (safe_jumpTo target).bind fun _ _ => .pure trivial
  · exact .pure trivial

/-- A method of the activation's own module. -/
theorem safe_newFunction {method : Nat} (h : method < module.methods.size) :
    Safe modules module (Request.Known modules) (execute (.newFunction method)) := by
  intro a ha
  obtain ⟨scope, hscope⟩ := ha.loaded
  exact safe_produce (v := .function ⟨a.function.module, method⟩) ⟨_, hscope, h⟩ a ha

/-- An instruction whose operand stands for something works on known values only. -/
theorem safe_execute {i : Instruction} (h : module.Resolves i) :
    Safe modules module (Request.Known modules) (execute i) := by
  cases i with
  | newFunction method => exact safe_newFunction h
  | pushUndefined | pushNull | pushTrue | pushFalse => exact safe_produce trivial
  | pushInt index | pushDouble index | pushString index =>
    exact (safe_constant index).bind fun _ hv => safe_produce hv
  | pop => exact safe_pop.bind fun _ _ => .pure trivial
  | dup => exact safe_pop.bind fun _ hv => (safe_push hv).bind fun _ _ => safe_produce hv
  | swap => exact safe_pop2.bind fun _ hvs => (safe_push hvs.2).bind fun _ _ => safe_produce hvs.1
  | getGlobal index => exact (safe_name index).bind fun _ _ => .pure trivial
  | setGlobal index => exact (safe_name index).bind fun _ _ => safe_pop.bind fun _ hv => .pure hv
  | getLocal slot => exact (safe_getLocal slot).bind fun _ hv => safe_produce hv
  | setLocal slot => exact safe_pop.bind fun _ hv => (safe_setLocal hv slot).bind fun _ _ => .pure trivial
  | jump target => exact (safe_jumpTo target).bind fun _ _ => .pure trivial
  | ifTrue target | ifFalse target => exact safe_branch _ target
  | call count =>
    exact (safe_popArguments count).bind fun _ hargs => safe_pop.bind fun _ hcallee => .pure ⟨hcallee, hargs⟩
  | returnValue => exact safe_pop.bind fun _ hv => .pure hv
  | returnVoid => exact .pure trivial
  | throw => exact safe_pop.bind fun _ _ => .throw (VmError.not_dangling_of_kind nofun)
  | negate => exact safe_unary fun _ => Value.known_ofNumber _
  | not | typeOf => exact safe_unary fun _ => trivial
  | add => exact safe_binary Value.known_add
  | subtract | multiply | divide | modulo => exact safe_binary fun _ _ => Value.known_ofNumber _
  | _ => exact safe_relation _

/-! ## Entering a method -/

/-- A method that exists is entered with its arguments, unless it has too many locals. -/
theorem enter_grounded {function : FunctionRef} {args : List Value} {scope : Scope}
    (hmodule : modules[function.module]? = some ⟨module, scope⟩) (hmethod : function.method < module.methods.size)
    (hargs : ∀ arg ∈ args, arg.Known modules) :
    match enter module function args with
    | .ok a => a.Grounded modules module
    | .error e => ¬ e.Dangling := by
  have hfound : module.methods[function.method]? = some module.methods[function.method] :=
    Array.getElem?_eq_getElem hmethod
  unfold enter Module.method
  rw [hfound]
  simp only
  by_cases hlocals : maxLocals < module.methods[function.method].locals
  · rw [if_pos hlocals]
    exact VmError.not_dangling_of_kind nofun
  · rw [if_neg hlocals]
    refine ⟨rfl, ⟨scope, hmodule⟩, hfound, nofun, fun v hv => ?_⟩
    obtain hgiven | hmissing := List.mem_append.1 (List.mem_toArray.1 hv)
    · exact hargs v (List.mem_of_mem_take (List.mem_of_mem_take hgiven))
    · rw [List.eq_of_mem_replicate hmissing]
      trivial

end Activation

/-! ## Natives -/

/-- A test that is registered has a known function. -/
def Effect.Known (modules : Array LoadedModule) : Effect → Prop
  | .register (.test _ function) => function.Known modules
  | _ => True

theorem Effect.Known.push {effect : Effect} (h : effect.Known modules) (loaded : LoadedModule) :
    effect.Known (modules.push loaded) := by
  cases effect with
  | register entry =>
    cases entry with
    | test name function => exact Value.Known.push h loaded
    | repeatNext count => trivial
  | _ => trivial

/-- A trace holds no values. -/
theorem Effect.known_trace {p : Prop} [Decidable p] {text : String} :
    ∀ effect ∈ (if p then #[.line text] else #[] : Effects), effect.Known modules := by
  intro effect heffect
  split at heffect
  · rw [Array.mem_singleton.1 heffect]
    trivial
  · exact absurd heffect (Array.not_mem_empty effect)

/-- The answer is a known value, or no dangling reference. -/
def Answers (modules : Array LoadedModule) : Except VmError Value → Prop
  | .ok v => v.Known modules
  | .error e => ¬ e.Dangling

/-- A native hands on no value but its first argument, and that as a test. -/
theorem Natives.call_known (d : Domain) (name : String) {args : List Value} (hargs : ∀ arg ∈ args, arg.Known modules) :
    (∀ effect ∈ (Natives.call d name args).1, effect.Known modules) ∧ Answers modules (Natives.call d name args).2 := by
  have hnone : ∀ effect ∈ (#[] : Effects), effect.Known modules := nofun
  have hone : ∀ {effect : Effect}, effect.Known modules → ∀ e ∈ #[effect], e.Known modules := by
    intro effect h e he
    rwa [Array.mem_singleton.1 he]
  unfold Natives.call
  split
  · exact ⟨hone trivial, trivial⟩
  split
  · exact ⟨hone trivial, trivial⟩
  split
  · have hargument : (argument args 0).Known modules := by
      unfold argument
      cases hget : args[0]? with
      | none => trivial
      | some v => exact hargs v (List.mem_of_getElem? hget)
    cases hentry : testEntry d (argument args 0) with
    | ok entry =>
      refine ⟨hone ?_, trivial⟩
      unfold testEntry at hentry
      split at hentry
      · cases hentry
        trivial
      · split at hentry
        · cases hentry
          rename_i hfunction
          exact hfunction ▸ hargument
        · cases hentry
          trivial
        · cases hentry
    | error e =>
      refine ⟨hnone, VmError.not_dangling_of_kind ?_⟩
      unfold testEntry at hentry
      split at hentry
      · cases hentry
      · split at hentry <;> cases hentry
        exact nofun
  split
  · split
    · exact ⟨hnone, trivial⟩
    · exact ⟨hnone, VmError.not_dangling_of_kind nofun⟩
  split
  · simp only
    split
    · exact ⟨hnone, trivial⟩
    · exact ⟨hnone, VmError.not_dangling_of_kind nofun⟩
  split
  · exact ⟨hnone, trivial⟩
  · exact ⟨hnone, VmError.not_dangling_of_kind nofun⟩

end MovieVm
