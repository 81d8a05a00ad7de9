import MovieVm.Proofs.CallStack
import MovieVm.Proofs.CatalogLoads
import MovieVm.Proofs.ValueFlow

/-!
# Stack traces

The instruction that a frame is at is told from the one that it will fetch next, so no instruction may fail, or ask for
a value, after it has sent its frame elsewhere. Then an error finds the innermost frame at the instruction that raised
it, and all others at those that wait for a value.
-/

namespace MovieVm

open Bytecode

/-- An error that has left no frame yet. -/
def VmError.Fresh (e : VmError) : Prop :=
  e.stack = []

/-- The instructions that wait for a value: they have one looked up, or call a function. -/
def Bytecode.Instruction.Waits : Instruction → Prop
  | .getGlobal _ | .call _ => True
  | _ => False

/-- The instructions that can send their activation elsewhere. -/
def Bytecode.Instruction.Jumps : Instruction → Prop
  | .jump _ | .ifTrue _ | .ifFalse _ => True
  | _ => False

/-! ## Instructions that stay where they are -/

namespace Activation

open MovieVm.EStateM

/-- The activations run the same method. -/
structure SameMethod (here a : Activation) : Prop where
  module : a.module = here.module
  function : a.function = here.function
  method : a.method = here.method

/-- The activations run the same method and are at the same place in it. -/
structure At (here a : Activation) : Prop extends here.SameMethod a where
  next : a.next = here.next

variable {here a : Activation}

theorem At.refl (a : Activation) : a.At a :=
  ⟨⟨rfl, rfl, rfl⟩, rfl⟩

theorem At.withStack (h : here.At a) (stack : List Value) : here.At { a with stack } :=
  ⟨⟨h.module, h.function, h.method⟩, h.next⟩

/-- The computation does not move, and its errors are new. -/
abbrev Stays (here : Activation) (Q : α → Prop) (x : Execution α) : Prop :=
  Ensures here.At Q VmError.Fresh x

/-- A request that waits for a value comes from an instruction that does. -/
def Request.From (i : Instruction) (request : Request) : Prop :=
  request.owed = 1 → i.Waits

theorem stays_push (v : Value) : here.Stays (fun _ => True) (push v) :=
  fun _ ha => ⟨ha.withStack _, trivial⟩

theorem stays_pop : here.Stays (fun _ => True) pop := by
  intro a ha
  cases hstack : a.stack with
  | nil =>
    simp only [pop, bind_apply, get_apply, hstack]
    exact ⟨ha, rfl⟩
  | cons v rest =>
    rw [pop_of_cons hstack]
    exact ⟨ha.withStack rest, trivial⟩

theorem stays_pop2 : here.Stays (fun _ => True) pop2 :=
  stays_pop.bind fun _ _ => stays_pop.bind fun _ _ => .pure trivial

theorem stays_getLocal (slot : Nat) : here.Stays (fun _ => True) (getLocal slot) := by
  intro a ha
  by_cases hslot : slot < a.locals.size
  · rw [getLocal_of_lt hslot]
    exact ⟨ha, trivial⟩
  · simp only [getLocal, bind_apply, get_apply, Array.getElem?_eq_none (Nat.not_lt.1 hslot)]
    exact ⟨ha, rfl⟩

theorem stays_setLocal (slot : Nat) (v : Value) : here.Stays (fun _ => True) (setLocal slot v) := by
  intro a ha
  by_cases hslot : slot < a.locals.size
  · rw [setLocal_of_lt hslot]
    exact ⟨⟨⟨ha.module, ha.function, ha.method⟩, ha.next⟩, trivial⟩
  · simp only [setLocal, bind_apply, get_apply, hslot, if_false]
    exact ⟨ha, rfl⟩

theorem stays_popArguments (count : Nat) : here.Stays (fun _ => True) (popArguments count) := by
  intro a ha
  by_cases hcount : a.stack.length < count
  · simp only [popArguments, bind_apply, get_apply, hcount, if_true]
    exact ⟨ha, rfl⟩
  · rw [popArguments_of_le (Nat.not_lt.1 hcount)]
    exact ⟨ha.withStack _, trivial⟩

theorem stays_constant (index : Nat) : here.Stays (fun _ => True) (constant index) := by
  intro a ha
  simp only [constant, bind_apply, get_apply]
  cases a.module.constant index with
  | ok c => exact ⟨ha, trivial⟩
  | error e => exact ⟨ha, rfl⟩

theorem stays_name (index : Nat) : here.Stays (fun _ => True) (name index) := by
  intro a ha
  simp only [name, bind_apply, get_apply]
  cases a.module.stringConstant index with
  | ok s => exact ⟨ha, trivial⟩
  | error e => exact ⟨ha, rfl⟩

section

variable {i : Instruction}

theorem stays_produce (v : Value) : here.Stays (Request.From i) (produce v) :=
  (stays_push v).bind fun _ _ => .pure nofun

theorem stays_unary (f : Value → Value) : here.Stays (Request.From i) (unary f) :=
  stays_pop.bind fun v _ => stays_produce (f v)

theorem stays_binary (f : Value → Value → Value) : here.Stays (Request.From i) (binary f) :=
  stays_pop2.bind fun values _ => stays_produce (f values.1 values.2)

theorem stays_relation (f : Value → Value → Bool) : here.Stays (Request.From i) (relation f) :=
  stays_binary fun second top => .boolean (f second top)

theorem stays_newFunction (method : Nat) : here.Stays (Request.From i) (execute (.newFunction method)) :=
  fun a ha => stays_produce (.function ⟨a.function.module, method⟩) a ha

end

theorem stays_execute {i : Instruction} (h : ¬ i.Jumps) : here.Stays (Request.From i) (execute i) := by
  cases i with
  | jump target | ifTrue target | ifFalse target => exact absurd trivial h
  | newFunction method => exact stays_newFunction method
  | pushUndefined | pushNull | pushTrue | pushFalse => exact stays_produce _
  | pushInt index | pushDouble index | pushString index =>
    exact (stays_constant index).bind fun c _ => stays_produce c
  | pop => exact stays_pop.bind fun _ _ => .pure nofun
  | dup => exact stays_pop.bind fun v _ => (stays_push v).bind fun _ _ => stays_produce v
  | swap => exact stays_pop2.bind fun values _ => (stays_push values.2).bind fun _ _ => stays_produce values.1
  | getGlobal index => exact (stays_name index).bind fun _ _ => .pure fun _ => trivial
  | setGlobal index => exact (stays_name index).bind fun _ _ => stays_pop.bind fun _ _ => .pure nofun
  | getLocal slot => exact (stays_getLocal slot).bind fun v _ => stays_produce v
  | setLocal slot => exact stays_pop.bind fun v _ => (stays_setLocal slot v).bind fun _ _ => .pure nofun
  | call count => exact (stays_popArguments count).bind fun _ _ => stays_pop.bind fun _ _ => .pure fun _ => trivial
  | returnValue => exact stays_pop.bind fun _ _ => .pure nofun
  | returnVoid => exact .pure nofun
  | throw => exact stays_pop.bind fun _ _ => .throw rfl
  | negate | not | typeOf => exact stays_unary _
  | add | subtract | multiply | divide | modulo => exact stays_binary _
  | _ => exact stays_relation _

/-- What holds of an activation after an instruction: where it may wait or fail it has not moved. -/
def Outcome (here : Activation) (i : Instruction) : EStateM.Result VmError Activation Request → Prop
  | .ok request a => here.SameMethod a ∧ (request.owed = 1 → i.Waits ∧ a.next = here.next)
  | .error e a => here.At a ∧ e.Fresh

/-- A branch moves when its operand is there, and then it succeeds. -/
theorem branch_outcome (here : Activation) (i : Instruction) (truth : Bool) (target : Nat) :
    here.Outcome i (branch truth target here) := by
  cases hstack : here.stack with
  | nil =>
    simp only [branch, pop, bind_apply, get_apply, hstack]
    exact ⟨.refl here, rfl⟩
  | cons v rest =>
    rw [branch_of_cons hstack]
    refine ⟨⟨rfl, rfl, rfl⟩, fun howed => ?_⟩
    cases howed

theorem execute_outcome (here : Activation) (i : Instruction) : here.Outcome i (execute i here) := by
  by_cases hjumps : i.Jumps
  · cases i with
    | jump target => exact ⟨⟨rfl, rfl, rfl⟩, nofun⟩
    | ifTrue target | ifFalse target => exact branch_outcome here _ _ target
    | _ => exact hjumps.elim
  · have hstays := stays_execute hjumps here (.refl here)
    cases hrun : execute i here with
    | ok request a =>
      rw [hrun] at hstays
      obtain ⟨hat, hfrom⟩ := hstays
      exact ⟨hat.toSameMethod, fun howed => ⟨hfrom howed, hat.next⟩⟩
    | error e a =>
      rw [hrun] at hstays
      exact hstays

end Activation

/-! ## New errors -/

theorem Natives.fresh_of_testEntry {d : Domain} {v : Value} {e : VmError} (h : testEntry d v = .error e) : e.Fresh := by
  unfold testEntry at h
  split at h
  · cases h
  · split at h <;> cases h
    rfl

theorem Natives.fresh_of_call {d : Domain} {name : String} {args : List Value} {e : VmError}
    (h : (Natives.call d name args).2 = .error e) : e.Fresh := by
  unfold Natives.call at h
  split at h
  · cases h
  split at h
  · cases h
  split at h
  · split at h
    · cases h
    · rename_i hentry
      cases h
      exact fresh_of_testEntry hentry
  split at h
  · split at h <;> cases h
    rfl
  split at h
  · simp only at h
    split at h <;> cases h
    rfl
  split at h <;> cases h
  rfl

theorem Activation.fresh_of_enter {module : Module} {function : FunctionRef} {args : List Value} {e : VmError}
    (h : enter module function args = .error e) : e.Fresh := by
  unfold enter at h
  split at h
  · cases h
    rfl
  · split at h <;> cases h
    rfl

namespace Domain

variable {d : Domain} {e : VmError}

theorem fresh_of_loaded {id : Nat} (h : d.loaded id = .error e) : e.Fresh := by
  unfold loaded at h
  split at h <;> cases h
  rfl

theorem fresh_of_bindingValue {m : Module} {id : Nat} {binding : Binding}
    (h : bindingValue m id binding = .error e) : e.Fresh := by
  unfold bindingValue at h
  split at h
  · cases h
  · split at h <;> cases h
    rfl
  · cases h

theorem fresh_of_bindings {m : Module} {id : Nat} {definitions : List Definition}
    (h : bindings m id definitions = .error e) : e.Fresh := by
  induction definitions with
  | nil => cases h
  | cons definition rest ih =>
    unfold bindings at h
    split at h
    · cases h
      rfl
    · cases hvalue : bindingValue m id definition.binding with
      | error e' =>
        rw [hvalue] at h
        cases h
        exact fresh_of_bindingValue hvalue
      | ok v =>
        cases hrest : bindings m id rest with
        | error e' =>
          rw [hvalue, hrest] at h
          cases h
          exact ih hrest
        | ok values =>
          rw [hvalue, hrest] at h
          cases h

theorem fresh_of_verifyFault {m : Module} (h : verifyFault m = some e) : e.Fresh := by
  unfold verifyFault at h
  split at h <;> cases h
  rfl

theorem fresh_of_load {scope : Scope} {m : Module} (h : (d.load scope m).2 = .error e) : e.Fresh := by
  unfold load at h
  split at h
  · rename_i hfault
    cases h
    split at hfault
    · cases hfault
    · exact fresh_of_verifyFault hfault
  · simp only at h
    cases hbindings : bindings m d.modules.size m.definitions with
    | error e' =>
      rw [hbindings] at h
      cases h
      exact fresh_of_bindings hbindings
    | ok values =>
      rw [hbindings] at h
      cases h

/-- The error is the one that the load of an entry has left, and a lookup meets it again. -/
def Replays (d : Domain) (scope : Scope) (name : String) (e : VmError) : Prop :=
  d.getGlobal? scope name = none ∧ ∃ entry, d.entryFor? name = some entry ∧ d.mark? entry = some (.failed e)

end Domain

/-! ## Errors that leave frames -/

/-- If the turn is over with an error, that has been raised with the frames and has left them. -/
inductive Turn.Fails (raised : VmError → Prop) (frames : List Frame) : Turn → Prop where
  | running {m : Machine} : Fails raised frames (.running m)
  | returned {d : Domain} {effects : Effects} {v : Value} : Fails raised frames (.finished ⟨d, effects, .ok v⟩)
  | failed {d : Domain} {effects : Effects} {e : VmError} (h : raised e) :
    Fails raised frames (.finished
      ⟨d.unwind ((frames.map (·.purpose)).zip (e.through frames)), effects, .error (e.traced frames)⟩)

theorem Turn.Fails.mono {raised raised' : VmError → Prop} {frames : List Frame} {t : Turn} (h : t.Fails raised frames)
    (hraised : ∀ e, raised e → raised' e) : t.Fails raised' frames := by
  cases h with
  | running => exact .running
  | returned => exact .returned
  | failed he => exact .failed (hraised _ he)

namespace Machine

variable {m : Machine} {raised : VmError → Prop}

theorem deliver_fails {result : Except VmError Value} (h : ∀ e, result = .error e → raised e) :
    (m.deliver result).Fails raised m.frames := by
  cases result with
  | error e =>
    rw [deliver, deliverTo_error_eq, VmError.getLastD_through]
    exact .failed (h e rfl)
  | ok v =>
    unfold deliver
    cases m.frames with
    | nil => exact .returned
    | cons f rest => exact .running

theorem deliver_error_fails {e : VmError} (h : raised e) : (m.deliver (.error e)).Fails raised m.frames :=
  deliver_fails fun e' he' => by
    cases he'
    exact h

theorem refuse_fails {purpose : Purpose} {e : VmError} (h : raised e) : (m.refuse purpose e).Fails raised m.frames :=
  deliver_error_fails (m := { m with domain := purpose.failed m.domain e }) h

theorem enter_fails (m : Machine) (purpose : Purpose) (function : FunctionRef) (args : List Value) :
    (m.enter purpose function args).Fails VmError.Fresh m.frames := by
  unfold enter
  split
  · exact refuse_fails rfl
  · split
    · rename_i hloaded
      exact refuse_fails (Domain.fresh_of_loaded hloaded)
    · split
      · rename_i henter
        exact refuse_fails (Activation.fresh_of_enter henter)
      · exact .running

theorem call_fails (m : Machine) (callee : Value) (args : List Value) :
    (m.call callee args).Fails VmError.Fresh m.frames := by
  cases callee with
  | function f => exact m.enter_fails .call f args
  | native name => exact deliver_fails (m := m.addEffects _) fun e he => Natives.fresh_of_call he
  | _ => exact deliver_error_fails rfl

theorem boot_fails (m : Machine) (purpose : Purpose) (module : Module) :
    (m.boot purpose module).Fails VmError.Fresh m.frames := by
  unfold boot
  cases hload : (m.domain.load .system module).2 with
  | error e =>
    simp only [hload]
    have hrefused : ((m.addEffects (m.domain.load .system module).1).refuse purpose e).Fails VmError.Fresh m.frames :=
      refuse_fails (m := m.addEffects (m.domain.load .system module).1) (Domain.fresh_of_load hload)
    exact hrefused
  | ok loaded =>
    simp only [hload]
    exact enter_fails { m.addEffects (m.domain.load .system module).1 with domain := loaded.2 } purpose _ _

theorem loadEntry_fails (m : Machine) (catalog : Catalog) (entry : Nat) (symbol : String) (requester : Scope) :
    (m.loadEntry catalog entry symbol requester).Fails VmError.Fresh m.frames := by
  let marked : Machine := { m with domain := m.domain.setMark entry .loaded }
  cases hload : catalog.load entry with
  | error e =>
    have hrefused : (marked.refuse (.catalogEntry entry symbol requester) (Activation.internalError e.message)).Fails
        VmError.Fresh marked.frames := refuse_fails rfl
    simp only [loadEntry, hload]
    exact hrefused
  | ok module =>
    rw [loadEntry_of_ok hload]
    exact boot_fails (marked.addEffects (marked.catalogTrace symbol module.label)) _ module

theorem resolve_fails (m : Machine) (scope : Scope) (name : String) :
    (m.resolve scope name).Fails (fun e => e.Fresh ∨ m.domain.Replays scope name e) m.frames := by
  unfold resolve
  split
  · exact deliver_fails nofun
  · rename_i hglobal
    split
    · rename_i catalog entry _ hentry
      split
      · rename_i e hmark
        exact deliver_error_fails (.inr ⟨hglobal, entry, hentry, hmark⟩)
      · exact deliver_error_fails (.inl rfl)
      · exact (m.loadEntry_fails catalog entry name scope).mono fun e he => .inl he
    · exact deliver_error_fails (.inl rfl)

/-- The next step raises an error with these frames standing. Either an instruction of the innermost frame fails, or what
it waits for does; or the innermost frame has returned without having defined the symbol that it was entered for. -/
inductive Raises (m : Machine) (e : VmError) : List Frame → Prop where
  | executing {f g : Frame} {rest : List Frame} {i : Instruction} (hframes : m.frames = g :: rest)
    (hfetch : g.activation.method.code[g.activation.next]? = some i)
    (hat : Activation.At { g.activation with next := g.activation.next + 1 } f.activation)
    (hpurpose : f.purpose = g.purpose)
    (horigin : e.Fresh ∨ ∃ name, m.asks? = some (f, .readGlobal name) ∧ m.domain.Replays f.scope name e) :
    Raises m e (f :: rest)
  | returned {f : Frame} {v : Value} (hasks : m.asks? = some (f, .finish v)) (hnew : e.Fresh) : Raises m e m.frames.tail

theorem fresh_of_result {purpose : Purpose} {d : Domain} {v : Value} {e : VmError}
    (h : purpose.result d v = .error e) : e.Fresh := by
  unfold Purpose.result at h
  split at h
  · cases h
  · split at h <;> cases h
    rfl

/-- A frame that is done leaves those that it stood on. -/
theorem finish_fails {f g : Frame} {rest : List Frame} {v : Value} (hframes : m.frames = g :: rest)
    (hasks : m.asks? = some (f, .finish v)) (effects : Effects) :
    (serve { m with effects } f rest (.finish v)).Fails (m.Raises · rest) rest := by
  refine deliver_fails (m := { m with effects, frames := rest }) fun e he => ?_
  have hraises := Raises.returned hasks (fresh_of_result he)
  rwa [hframes] at hraises

theorem serve_fails {f g : Frame} {rest : List Frame} {i : Instruction} {request : Activation.Request}
    (hframes : m.frames = g :: rest) (hfetch : g.activation.method.code[g.activation.next]? = some i)
    (hat : request.owed = 1 → Activation.At { g.activation with next := g.activation.next + 1 } f.activation)
    (hpurpose : f.purpose = g.purpose) (hasks : m.asks? = some (f, request)) (effects : Effects) :
    ∃ standing, (serve { m with effects } f rest request).Fails (m.Raises · standing) standing := by
  cases request with
  | proceed => exact ⟨[], .running⟩
  | writeGlobal name v => exact ⟨[], .running⟩
  | finish v => exact ⟨rest, finish_fails hframes hasks effects⟩
  | readGlobal name =>
    have hresolve := resolve_fails { m with effects, frames := f :: rest } f.scope name
    refine ⟨f :: rest, hresolve.mono fun e he => ?_⟩
    exact .executing hframes hfetch (hat rfl) hpurpose (he.imp_right fun hreplays => ⟨name, hasks, hreplays⟩)
  | call callee args =>
    have hcall := call_fails { m with effects, frames := f :: rest } callee args
    exact ⟨f :: rest, hcall.mono fun e he => .executing hframes hfetch (hat rfl) hpurpose (.inl he)⟩

theorem step_fails (m : Machine) : ∃ standing, m.step.Fails (m.Raises · standing) standing := by
  cases hframes : m.frames with
  | nil =>
    refine ⟨[], ?_⟩
    simp only [step, hframes, deliver, deliverTo]
    exact .returned
  | cons g rest =>
    cases hcode : g.activation.method.code[g.activation.next]? with
    | none =>
      have hasks : m.asks? = some (g, .finish .undefined) := by
        simp only [asks?, hframes, fetch_of_none hcode]
      refine ⟨rest, ?_⟩
      simp only [step, hframes, fetch_of_none hcode]
      exact finish_fails hframes hasks m.effects
    | some i =>
      have hfetch := Activation.fetch_of_some hcode
      have houtcome := Activation.execute_outcome { g.activation with next := g.activation.next + 1 } i
      cases hexecute : Activation.execute i { g.activation with next := g.activation.next + 1 } with
      | error e a =>
        rw [hexecute] at houtcome
        obtain ⟨hat, hnew⟩ := houtcome
        have hraises : m.Raises e ({ g with activation := a } :: rest) :=
          .executing hframes hcode hat rfl (.inl hnew)
        refine ⟨{ g with activation := a } :: rest, ?_⟩
        simp only [step, hframes, hfetch, hexecute]
        exact deliver_error_fails (m := { m.addEffects (m.instructionTrace g.activation i) with
          frames := { g with activation := a } :: rest }) hraises
      | ok request a =>
        rw [hexecute] at houtcome
        obtain ⟨hsame, hplace⟩ := houtcome
        have hasks : m.asks? = some ({ g with activation := a }, request) := by
          simp only [asks?, hframes, hfetch, hexecute]
        simp only [step, hframes, hfetch, hexecute]
        exact serve_fails (f := { g with activation := a }) hframes hcode
          (fun howed => ⟨hsame, (hplace howed).2⟩) rfl hasks _

end Machine

/-! ## What the entries keep -/

/-- No entry is loaded twice at a time, and those that are being loaded are marked. -/
structure Loading (d : Domain) (purposes : List Purpose) : Prop where
  distinct : (loading purposes).Nodup
  marked : ∀ entry ∈ loading purposes, d.mark? entry = some .loaded

/-- Only an attempt adds to what is being loaded. -/
theorem loading_sublist {event : Event} (h : event.attempt? = none) (purposes : List Purpose) :
    (loading (event.purposes purposes)).Sublist (loading purposes) := by
  cases event with
  | attempted entry symbol requester => cases h
  | returned purpose => exact (List.tail_sublist purposes).filterMap _
  | _ => exact List.Sublist.refl _

theorem kept_loading : Kept fun d purposes _ => Loading d purposes where
  event {d purposes record} h event hallowed := by
    cases hattempt : event.attempt? with
    | none =>
      have hsublist := loading_sublist hattempt purposes
      refine ⟨h.distinct.sublist hsublist, fun entry hentry => ?_⟩
      rw [d.mark?_apply hattempt]
      exact h.marked entry (hsublist.mem hentry)
    | some entry =>
      cases event with
      | attempted entry symbol requester =>
        have hmark : d.mark? entry = none := (Domain.wanted?_eq_some.1 hallowed).2.2
        refine ⟨List.nodup_cons.2 ⟨fun hmem => ?_, h.distinct⟩, fun other hother => ?_⟩
        · cases hmark.symm.trans (h.marked entry hmem)
        · by_cases hsame : other = entry
          · rw [hsame]
            exact Domain.mark?_loaded hmark
          · rw [Domain.apply, Domain.mark?_setMark_of_ne _ hsame]
            exact h.marked other ((List.mem_cons.1 hother).resolve_left hsame)
      | _ => cases hattempt
  left {d purpose purposes record} h e := by
    cases purpose with
    | call => exact ⟨h.distinct, h.marked⟩
    | catalogEntry entry symbol requester =>
      obtain ⟨hentry, hdistinct⟩ : entry ∉ loading purposes ∧ (loading purposes).Nodup := List.nodup_cons.1 h.distinct
      refine ⟨hdistinct, fun other hother => ?_⟩
      have hne : other ≠ entry := fun hsame => hentry (hsame ▸ hother)
      rw [Purpose.failed, Domain.mark?_setMark_of_ne _ hne]
      exact h.marked other (List.mem_cons_of_mem _ hother)

namespace Domain

variable {d : Domain} {entry : Nat}

/-- Errors that leave other frames do not touch the mark of an entry. -/
theorem mark?_unwind_of_notMem {purposes : List Purpose} {errors : List VmError} (h : entry ∉ loading purposes) :
    (d.unwind (purposes.zip errors)).mark? entry = d.mark? entry := by
  induction purposes generalizing d errors with
  | nil => rfl
  | cons purpose purposes ih =>
    cases errors with
    | nil => rfl
    | cons e errors =>
      rw [loading_cons, List.mem_append, not_or] at h
      rw [List.zip_cons_cons, unwind, ih h.2]
      cases purpose with
      | call => rfl
      | catalogEntry other symbol requester =>
        have hne : entry ≠ other := fun hsame => h.1 (hsame ▸ List.mem_singleton_self _)
        rw [Purpose.failed, mark?_setMark_of_ne _ hne]

/-- An entry whose initializer an error leaves keeps the error as it is then. -/
theorem mark?_unwind_through {e : VmError} {above below : List Frame} {f : Frame} {symbol : String} {requester : Scope}
    (hpurpose : f.purpose = .catalogEntry entry symbol requester)
    (hdistinct : (loading ((above ++ f :: below).map (·.purpose))).Nodup) :
    (d.unwind (((above ++ f :: below).map (·.purpose)).zip (e.through (above ++ f :: below)))).mark? entry =
      some (.failed (e.traced (above ++ [f]))) := by
  induction above generalizing d e with
  | nil =>
    rw [List.nil_append, List.map_cons, loading_cons, hpurpose] at hdistinct
    have hentry : entry ∉ loading (below.map (·.purpose)) := (List.nodup_cons.1 hdistinct).1
    rw [List.nil_append, List.map_cons, VmError.through, List.zip_cons_cons, unwind, mark?_unwind_of_notMem hentry,
      hpurpose, Purpose.failed, mark?_failed, List.nil_append, VmError.traced_cons, VmError.traced_nil]
  | cons g above ih =>
    rw [List.cons_append, List.map_cons, loading_cons] at hdistinct
    rw [List.cons_append, List.map_cons, VmError.through, List.zip_cons_cons, unwind,
      ih (List.Nodup.of_append_right hdistinct), List.cons_append, VmError.traced_cons]

end Domain

/-! ## Frames that wait -/

/-- The frame stood over `below` when it last made a step, at the instruction `i` with the number `pc`; there have been
frames above it ever since. -/
def Frame.LastAt (f : Frame) (past : List Machine) (below : List Frame) (pc : Nat) (i : Instruction) : Prop :=
  ∃ later m earlier g, past = later ++ m :: earlier ∧ m.frames = g :: below ∧ g.activation.SameMethod f.activation ∧
    g.activation.next = pc ∧ g.activation.method.code[pc]? = some i ∧ ∀ m' ∈ later, below.length + 1 < m'.frames.length

/-- Each of the frames is at an instruction that waits for a value, since its last step. -/
inductive AllWait (past : List Machine) : List Frame → Prop where
  | nil : AllWait past []
  | cons {f : Frame} {below : List Frame} {pc : Nat} {i : Instruction} (hnext : f.activation.next = pc + 1)
    (hwaits : i.Waits) (hlast : f.LastAt past below pc i) (hbelow : AllWait past below) : AllWait past (f :: below)

namespace AllWait

variable {past : List Machine} {m m' : Machine} {f : Frame} {above below frames : List Frame}

theorem later (h : AllWait past frames) (hlength : frames.length < m.frames.length) : AllWait (m :: past) frames := by
  induction h with
  | nil => exact .nil
  | @cons f below pc i hnext hwaits hlast _ ih =>
    obtain ⟨later, m₀, earlier, g, rfl, hframes, hsame, hpc, hfetch, hlater⟩ := hlast
    refine .cons hnext hwaits ⟨m :: later, m₀, earlier, g, rfl, hframes, hsame, hpc, hfetch, ?_⟩
      (ih (Nat.lt_of_succ_lt hlength))
    exact List.forall_mem_cons.2 ⟨hlength, hlater⟩

theorem split (h : AllWait past (above ++ f :: below)) :
    ∃ pc i, f.activation.next = pc + 1 ∧ i.Waits ∧ f.LastAt past below pc i := by
  induction above with
  | nil =>
    cases h with
    | cons hnext hwaits hlast _ => exact ⟨_, _, hnext, hwaits, hlast⟩
  | cons g above ih =>
    cases h with
    | cons _ _ _ hbelow => exact ih hbelow

/-- The innermost frame waits from its next step on. -/
theorem stepped (hframes : m.frames = f :: below) (h : AllWait past below) (hstep : Machine.Stepped f below m') :
    AllWait (m :: past) m'.frames.tail := by
  have hbelow : AllWait (m :: past) below := h.later (by rw [hframes, List.length_cons]; exact Nat.lt_succ_self _)
  cases hstep with
  | advanced i request a hfetch hexecute howed hfinish hframes' => rwa [hframes']
  | served i request a hfetch hexecute howed hfinish hserves =>
    cases hserves with
    | answered g rest v hsplit hframes' =>
      obtain ⟨rfl, rfl⟩ := List.cons.inj hsplit
      rwa [hframes']
    | entered g hg hframes' =>
      have houtcome := Activation.execute_outcome { f.activation with next := f.activation.next + 1 } i
      rw [hexecute] at houtcome
      obtain ⟨hsame, hplace⟩ := houtcome
      obtain ⟨hwaits, hnext⟩ := hplace howed
      rw [hframes']
      refine .cons hnext hwaits ?_ hbelow
      exact ⟨[], m, past, f, rfl, hframes, ⟨hsame.module, hsame.function, hsame.method⟩, rfl, hfetch, nofun⟩
  | returned g rest v hsplit hframes' =>
    subst hsplit
    rw [hframes']
    cases hbelow with
    | cons _ _ _ hrest => exact hrest

end AllWait

/-- At every moment of a run the frames below the innermost one wait. -/
theorem Turn.Passes.allWait {d : Domain} {demand : Demand} {past : List Machine} {t : Turn}
    (h : (demand.start d).Passes past t) {m : Machine} (hm : t = .running m) : AllWait past m.frames.tail := by
  induction h generalizing m with
  | start =>
    obtain ⟨g, hframes, _, _⟩ := Demand.start_running hm
    rw [hframes]
    exact .nil
  | @step past earlier hearlier ih =>
    obtain ⟨hsome, _⟩ := hearlier.nested rfl
    obtain ⟨f, rest, hframes⟩ := List.exists_cons_of_ne_nil hsome
    have hrest := ih rfl
    rw [hframes] at hrest
    exact hrest.stepped hframes (Machine.step_running hframes hm)
  | @wait past t' _ elapsed ih =>
    cases t' with
    | finished o => cases hm
    | running earlier =>
      obtain rfl := Turn.running.inj hm
      have hbefore := ih (m := earlier) rfl
      exact hbefore

/-! ## Traces -/

/-- Where an error comes from that ends a run: the run has not come to a frame, or it was the last step that raised it. -/
inductive Demand.Raises (d : Domain) (demand : Demand) (e : VmError) : List Machine → List Frame → Prop where
  | outside (h : e.Fresh ∨ ∃ scope name depth, demand = .resolve scope name depth ∧ d.Replays scope name e) :
    Raises d demand e [] []
  | inside {m : Machine} {earlier : List Machine} {standing : List Frame} (h : m.Raises e standing) :
    Raises d demand e (m :: earlier) standing

theorem Demand.start_fails (d : Domain) (demand : Demand) :
    (demand.start d).Fails (demand.Raises d · [] []) [] := by
  have hrefused : ∀ e, e.Fresh → (Turn.finished (d.fail e)).Fails (demand.Raises d · [] []) [] := by
    intro e he
    have hraises : demand.Raises d e [] [] := .outside (.inl he)
    have hfailed : (Turn.finished (d.fail (e.traced []))).Fails (demand.Raises d · [] []) [] := .failed hraises
    rwa [VmError.traced_nil] at hfailed
  cases demand with
  | invoke function args =>
    exact (Machine.call_fails { domain := d } function args).mono fun e he => .outside (.inl he)
  | resolve scope name depth =>
    refine (Machine.resolve_fails { domain := d, base := depth } scope name).mono fun e he => ?_
    exact .outside (he.imp_right fun hreplays => ⟨scope, name, depth, rfl, hreplays⟩)
  | execute id =>
    simp only [start]
    split
    · exact hrefused _ rfl
    · split
      · exact hrefused _ rfl
      · exact (Machine.enter_fails { domain := d } .call _ []).mono fun e he => .outside (.inl he)

/-- The frames that an error leaves are those of the machine, or all of them but the innermost. -/
theorem Machine.Raises.sublist {m : Machine} {e : VmError} {standing : List Frame} (h : m.Raises e standing) :
    (standing.map (·.purpose)).Sublist m.purposes := by
  cases h with
  | executing hframes _ _ hpurpose _ =>
    rw [purposes, hframes, List.map_cons, List.map_cons, hpurpose]
  | returned hasks hnew => exact (List.tail_sublist _).map _

/-- A frame that an error leaves is at the instruction that raised it, or waits for a value. -/
theorem Machine.Raises.lastAt {m : Machine} {e : VmError} {standing : List Frame} {past : List Machine}
    (h : m.Raises e standing) (hwait : AllWait past m.frames.tail) {above below : List Frame} {f : Frame}
    (hsplit : standing = above ++ f :: below) :
    ∃ pc i, f.activation.next = pc + 1 ∧ f.LastAt (m :: past) below pc i ∧ (above ≠ [] → i.Waits) := by
  have hsuspended : ∀ {above}, m.frames.tail = above ++ f :: below →
      ∃ pc i, f.activation.next = pc + 1 ∧ f.LastAt (m :: past) below pc i ∧ i.Waits := by
    intro above hframes
    have hlater : AllWait (m :: past) m.frames.tail := by
      refine hwait.later ?_
      have hlength := congrArg List.length hframes
      rw [List.length_append, List.length_cons, List.length_tail] at hlength
      rw [List.length_tail]
      omega
    obtain ⟨pc, i, hnext, hwaits, hlast⟩ := (hframes ▸ hlater).split
    exact ⟨pc, i, hnext, hlast, hwaits⟩
  cases h with
  | returned hasks hnew =>
    obtain ⟨pc, i, hnext, hlast, hwaits⟩ := hsuspended hsplit
    exact ⟨pc, i, hnext, hlast, fun _ => hwaits⟩
  | @executing f' g rest i hframes hfetch hat hpurpose horigin =>
    cases above with
    | nil =>
      obtain ⟨rfl, rfl⟩ := List.cons.inj hsplit
      refine ⟨g.activation.next, i, hat.next, ?_, fun hne => absurd rfl hne⟩
      exact ⟨[], m, past, g, rfl, hframes, ⟨hat.module, hat.function, hat.method⟩, rfl, hfetch, nofun⟩
    | cons _ above =>
      obtain ⟨rfl, hrest⟩ := List.cons.inj hsplit
      have htail : m.frames.tail = above ++ f :: below := by
        rw [hframes, List.tail_cons]
        exact hrest
      obtain ⟨pc, i, hnext, hlast, hwaits⟩ := hsuspended htail
      exact ⟨pc, i, hnext, hlast, fun _ => hwaits⟩

/-- What an error tells of the frames that it has left. -/
structure Traced (past : List Machine) (d : Domain) (raised : VmError) (standing : List Frame) (lines : List StackFrame) :
    Prop where
  length : lines.length = standing.length
  line : ∀ above f below, standing = above ++ f :: below → ∃ pc i,
    lines[above.length]? = some ⟨f.activation.methodName, f.activation.module.label, pc⟩ ∧
      f.LastAt past below pc i ∧ (above ≠ [] → i.Waits)
  kept : ∀ above f below entry symbol requester, standing = above ++ f :: below →
    f.purpose = .catalogEntry entry symbol requester →
    d.mark? entry = some (.failed { raised with stack := raised.stack ++ lines.take (above.length + 1) })

theorem Traced.of_lastAt {past : List Machine} {d : Domain} {raised : VmError} {standing : List Frame}
    (hlast : ∀ above f below, standing = above ++ f :: below →
      ∃ pc i, f.activation.next = pc + 1 ∧ f.LastAt past below pc i ∧ (above ≠ [] → i.Waits))
    (hdistinct : (loading (standing.map (·.purpose))).Nodup) :
    Traced past (d.unwind ((standing.map (·.purpose)).zip (raised.through standing))) raised standing
      (standing.map (·.activation.frame)) where
  length := List.length_map _
  line above f below hsplit := by
    obtain ⟨pc, i, hnext, hat, hwaits⟩ := hlast above f below hsplit
    refine ⟨pc, i, ?_, hat, hwaits⟩
    have hindex : f.activation.next - 1 = pc := by rw [hnext, Nat.add_sub_cancel]
    simp [hsplit, Activation.frame, hindex]
  kept above f below entry symbol requester hsplit hpurpose := by
    subst hsplit
    have hinner : (above ++ f :: below).take (above.length + 1) = above ++ [f] := by
      rw [List.take_length_add_append, List.take_one, List.head?_cons, Option.toList_some]
    rw [Domain.mark?_unwind_through hpurpose hdistinct, VmError.traced, ← List.map_take, hinner]

/-- An error that ends a run carries the stack frames that it was raised with, none if it is new, and after them one for
each frame that stood as it was raised, innermost first: with the method, the label of its module and the instruction
that the frame was at, however it had come there. That is the instruction that raised the error, or one that waited for
a value. An entry whose initializer the error has left keeps it as it was then. -/
theorem stack_traces_are_exact {d : Domain} {demand : Demand} {past : List Machine} {o : Outcome Value} {e : VmError}
    (h : (demand.start d).Passes past (.finished o)) (hresult : o.result = .error e) :
    ∃ raised standing lines, demand.Raises d raised past standing ∧
      e = { raised with stack := raised.stack ++ lines } ∧ Traced past o.domain raised standing lines := by
  generalize hturn : Turn.finished o = t at h
  induction h generalizing o with
  | start =>
    have hfails := Demand.start_fails d demand
    rw [← hturn] at hfails
    cases hfails with
    | returned => cases hresult
    | failed hraises =>
      cases hresult
      refine ⟨_, [], _, hraises, rfl, .of_lastAt (fun above f below hsplit => ?_) List.nodup_nil⟩
      exact absurd hsplit.symm (List.append_ne_nil_of_right_ne_nil _ (List.cons_ne_nil _ _))
  | @step past m hearlier ih =>
    obtain ⟨standing, hfails⟩ := m.step_fails
    rw [← hturn] at hfails
    cases hfails with
    | returned => cases hresult
    | failed hraises =>
      cases hresult
      obtain ⟨_, hloading⟩ := kept_loading.passes hearlier ⟨List.nodup_nil, nofun⟩
      refine ⟨_, standing, _, .inside hraises, rfl, .of_lastAt (fun above f below hsplit => ?_) ?_⟩
      · exact hraises.lastAt (hearlier.allWait rfl) hsplit
      · exact hloading.distinct.sublist (hraises.sublist.filterMap _)
  | @wait past t' _ elapsed ih =>
    cases t' with
    | running m => cases hturn
    | finished o' =>
      obtain rfl := Turn.finished.inj hturn
      obtain ⟨raised, standing, lines, hraises, he, htraced⟩ := ih (o := o') hresult rfl
      exact ⟨raised, standing, lines, hraises, he, htraced.length, htraced.line, htraced.kept⟩

/-! A method that jumps to a call, and one that throws. -/

namespace Thrower

def outerMethod : Method where
  name := 0
  params := 0
  locals := 0
  code := #[.jump 2, .returnVoid, .newFunction 1, .call 0, .returnVoid]

def innerMethod : Method where
  name := 1
  params := 0
  locals := 0
  code := #[.pushNull, .throw]

def module : Module where
  label := "thrower"
  minorVersion := supportedMinor
  majorVersion := supportedMajor
  constants := #[.string "outer", .string "inner"]
  methods := #[outerMethod, innerMethod]
  definitions := []
  init := 0

def domain : Domain :=
  { modules := #[⟨module, .system⟩] }

def outer (next : Nat) (stack : List Value) : Frame :=
  ⟨{ module, function := ⟨0, 0⟩, method := outerMethod, locals := #[], stack, next }, .system, .call, 0⟩

def inner (next : Nat) (stack : List Value) : Frame :=
  ⟨{ module, function := ⟨0, 1⟩, method := innerMethod, locals := #[], stack, next }, .system, .call, 1⟩

def machine (frames : List Frame) : Machine :=
  { domain, frames }

def thrown : VmError :=
  { kind := .error, message := "null", stack := [⟨"inner", "thrower", 1⟩, ⟨"outer", "thrower", 3⟩] }

theorem step_jump : (machine [outer 0 []]).step = .running (machine [outer 2 []]) :=
  rfl

theorem step_newFunction :
    (machine [outer 2 []]).step = .running (machine [outer 3 [.function ⟨0, 1⟩]]) :=
  rfl

theorem step_call :
    (machine [outer 3 [.function ⟨0, 1⟩]]).step = .running (machine [inner 0 [], outer 4 []]) :=
  rfl

theorem step_pushNull :
    (machine [inner 0 [], outer 4 []]).step = .running (machine [inner 1 [.null], outer 4 []]) :=
  rfl

theorem step_throw :
    (machine [inner 1 [.null], outer 4 []]).step = .finished ⟨domain, #[], .error thrown⟩ :=
  rfl

theorem run_start :
    ((Demand.invoke (.function ⟨0, 0⟩) []).start domain).run 5 = some ⟨domain, #[], .error thrown⟩ := by
  have hstart : (Demand.invoke (.function ⟨0, 0⟩) []).start domain = .running (machine [outer 0 []]) := rfl
  rw [hstart, Turn.run, step_jump, Turn.run, step_newFunction, Turn.run, step_call, Turn.run, step_pushNull, Turn.run,
    step_throw, Turn.run]

end Thrower

theorem thrown_trace_is_exact :
    ∃ past o e, ((Demand.invoke (.function ⟨0, 0⟩) []).start Thrower.domain).Passes past (.finished o) ∧
      o.result = .error e ∧ e.stack = [⟨"inner", "thrower", 1⟩, ⟨"outer", "thrower", 3⟩] ∧
      ∃ raised standing lines, (Demand.invoke (.function ⟨0, 0⟩) []).Raises Thrower.domain raised past standing ∧
        e = { raised with stack := raised.stack ++ lines } ∧ Traced past o.domain raised standing lines := by
  obtain ⟨past, hpast⟩ := Turn.passes_of_run Thrower.run_start
  exact ⟨past, _, Thrower.thrown, hpast, rfl, rfl, stack_traces_are_exact hpast rfl⟩

end MovieVm
