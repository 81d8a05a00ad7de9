import MovieVm.Proofs.Grounding
import MovieVm.Proofs.Lives

/-!
# Function values never dangle

Modules are only ever added to a domain, and code makes functions of its own module only. So all functions that a
domain holds, that its frames work with and that it hands out are methods of loaded modules, and stay that.
-/

namespace MovieVm

open Bytecode

/-! ## Machines -/

/-- All functions that the machine holds are known. -/
structure Machine.Grounded (m : Machine) : Prop where
  domain : m.domain.Grounded
  frames : ∀ f ∈ m.frames, f.activation.Grounded m.domain.modules f.activation.module
  effects : ∀ effect ∈ m.effects, effect.Known m.domain.modules

structure Outcome.Grounded (o : Outcome Value) : Prop where
  domain : o.domain.Grounded
  effects : ∀ effect ∈ o.effects, effect.Known o.domain.modules
  result : Answers o.domain.modules o.result

def Turn.Grounded : Turn → Prop
  | .running m => m.Grounded
  | .finished o => o.Grounded

theorem Purpose.modules_failed (purpose : Purpose) (d : Domain) (e : VmError) :
    (purpose.failed d e).modules = d.modules := by
  cases purpose <;> rfl

namespace Machine

variable {m : Machine}

theorem Grounded.withFrames (h : m.Grounded) {frames : List Frame}
    (hframes : ∀ f ∈ frames, f.activation.Grounded m.domain.modules f.activation.module) :
    Grounded { m with frames } :=
  ⟨h.domain, hframes, h.effects⟩

/-- Another domain with the same modules. -/
theorem Grounded.withDomain (h : m.Grounded) {d : Domain} (hd : d.Grounded) (hmodules : d.modules = m.domain.modules) :
    Grounded { m with domain := d } := by
  refine ⟨hd, ?_, ?_⟩
  · rw [hmodules]
    exact h.frames
  · rw [hmodules]
    exact h.effects

theorem Grounded.addEffects (h : m.Grounded) {effects : Effects}
    (heffects : ∀ effect ∈ effects, effect.Known m.domain.modules) : (m.addEffects effects).Grounded := by
  refine ⟨h.domain, h.frames, fun effect heffect => ?_⟩
  obtain hold | hnew := Array.mem_append.1 heffect
  · exact h.effects effect hold
  · exact heffects effect hnew

/-- Another domain with one module more. -/
theorem Grounded.push (h : m.Grounded) {d : Domain} {loaded : LoadedModule} (hd : d.Grounded)
    (hmodules : d.modules = m.domain.modules.push loaded) : Grounded { m with domain := d } := by
  refine ⟨hd, ?_, ?_⟩
  · rw [hmodules]
    exact fun f hf => (h.frames f hf).push loaded
  · rw [hmodules]
    exact fun effect heffect => (h.effects effect heffect).push loaded

/-! ## Results -/

theorem Grounded.deliverTo (h : m.Grounded) {result : Except VmError Value} (hresult : Answers m.domain.modules result)
    {frames : List Frame} (hframes : ∀ f ∈ frames, f.activation.Grounded m.domain.modules f.activation.module) :
    (m.deliverTo result frames).Grounded := by
  induction frames generalizing m result with
  | nil => exact ⟨h.domain, h.effects, hresult⟩
  | cons f rest ih =>
    obtain ⟨hf, hrest⟩ := List.forall_mem_cons.1 hframes
    cases result with
    | ok v =>
      have hreceives := hf.withStack (List.forall_mem_cons.2 ⟨hresult, hf.stack⟩)
      exact h.withFrames (List.forall_mem_cons.2 ⟨hreceives, hrest⟩)
    | error e =>
      have he := VmError.not_dangling_withFrame hresult f.activation.frame
      have hmodules := f.purpose.modules_failed m.domain (e.withFrame f.activation.frame)
      refine ih (h.withDomain (h.domain.failed f.purpose he) hmodules) he ?_
      rw [hmodules]
      exact hrest

theorem Grounded.deliver (h : m.Grounded) {result : Except VmError Value} (hresult : Answers m.domain.modules result) :
    (m.deliver result).Grounded :=
  h.deliverTo hresult h.frames

theorem Grounded.refuse (h : m.Grounded) (purpose : Purpose) {e : VmError} (he : ¬ e.Dangling) :
    (m.refuse purpose e).Grounded :=
  (h.withDomain (h.domain.failed purpose he) (purpose.modules_failed m.domain e)).deliver he

/-! ## Calls and globals -/

theorem Grounded.enter (h : m.Grounded) (purpose : Purpose) {function : FunctionRef} {args : List Value}
    (hfunction : (Value.function function).Known m.domain.modules) (hargs : ∀ arg ∈ args, arg.Known m.domain.modules) :
    (m.enter purpose function args).Grounded := by
  obtain ⟨loaded, hloaded, hmethod⟩ := hfunction
  unfold Machine.enter Domain.loaded
  rw [hloaded]
  split
  · exact h.refuse purpose (VmError.not_dangling_of_kind nofun)
  · have hentered := Activation.enter_grounded hloaded hmethod hargs
    simp only
    cases henter : Activation.enter loaded.module function args with
    | error e =>
      rw [henter] at hentered
      exact h.refuse purpose hentered
    | ok a =>
      rw [henter] at hentered
      exact h.withFrames (List.forall_mem_cons.2 ⟨hentered.own, h.frames⟩)

theorem Grounded.call (h : m.Grounded) {callee : Value} {args : List Value} (hcallee : callee.Known m.domain.modules)
    (hargs : ∀ arg ∈ args, arg.Known m.domain.modules) : (m.call callee args).Grounded := by
  cases callee with
  | function f => exact h.enter .call hcallee hargs
  | native name =>
    obtain ⟨heffects, hresult⟩ := Natives.call_known m.domain name hargs
    exact (h.addEffects heffects).deliver hresult
  | _ => exact h.deliver (VmError.not_dangling_of_kind nofun)

/-- The initializer is a method of the module that has just been loaded. -/
theorem Grounded.boot (h : m.Grounded) (purpose : Purpose) {module : Module}
    (hmodule : module.checkReferences = .ok ()) : (m.boot purpose module).Grounded := by
  unfold Machine.boot
  obtain ⟨effects, heffects, ⟨e, hfails, he⟩ | ⟨hloads, hd, hmodules⟩⟩ := h.domain.load .system fun _ => hmodule
  · simp only [hfails]
    exact (h.addEffects (heffects _)).refuse purpose he
  · simp only [hloads]
    have hinit := (Module.checkReferences_eq_ok.1 hmodule).init
    refine ((h.addEffects (heffects _)).push hd hmodules).enter purpose ⟨⟨module, .system⟩, ?_, hinit⟩
      (List.forall_mem_nil _)
    exact (congrArg (·[_]?) hmodules).trans Array.getElem?_push_size

theorem Grounded.loadEntry (h : m.Grounded) (catalog : Catalog) (entry : Nat) (symbol : String) (requester : Scope) :
    (m.loadEntry catalog entry symbol requester).Grounded := by
  have hmarked : Grounded { m with domain := m.domain.setMark entry .loaded } :=
    h.withDomain (h.domain.setMark entry nofun) rfl
  have hload := catalog.load_grounded entry
  cases hmodule : catalog.load entry with
  | error e =>
    rw [hmodule] at hload
    simp only [Machine.loadEntry, hmodule]
    exact hmarked.refuse _ hload
  | ok module =>
    rw [hmodule] at hload
    rw [loadEntry_of_ok hmodule]
    exact (hmarked.addEffects Effect.known_trace).boot _ hload

theorem Grounded.resolve (h : m.Grounded) (scope : Scope) (name : String) : (m.resolve scope name).Grounded := by
  cases hwanted : m.domain.wanted? scope name with
  | none =>
    rw [resolve_of_not_wanted hwanted]
    exact h.deliver (h.domain.lookup scope name)
  | some entry =>
    obtain ⟨catalog, _, hresolve⟩ := resolve_of_wanted hwanted
    rw [hresolve]
    exact h.loadEntry catalog entry name scope

/-! ## Steps -/

theorem Grounded.serve (h : m.Grounded) {f : Frame} {rest : List Frame} {request : Activation.Request}
    (hf : f.activation.Grounded m.domain.modules f.activation.module)
    (hrest : ∀ f ∈ rest, f.activation.Grounded m.domain.modules f.activation.module)
    (hrequest : request.Known m.domain.modules) : (m.serve f rest request).Grounded := by
  have hwaiting := h.withFrames (List.forall_mem_cons.2 ⟨hf, hrest⟩)
  cases request with
  | proceed => exact hwaiting
  | readGlobal name => exact hwaiting.resolve f.scope name
  | writeGlobal name v =>
    refine hwaiting.withDomain (h.domain.setGlobal hrequest) ?_
    cases f.scope <;> rfl
  | call callee args => exact hwaiting.call hrequest.1 hrequest.2
  | finish v =>
    refine (h.withFrames hrest).deliver ?_
    unfold Purpose.result
    split
    · exact hrequest
    · split
      · rename_i hget
        exact h.domain.getGlobal? hget
      · exact VmError.not_dangling_of_kind nofun

/-- A step makes no function dangle: the code of a frame has been checked with its module. -/
theorem Grounded.step (h : m.Grounded) : m.step.Grounded := by
  have hall := h.frames
  unfold Machine.step
  cases hframes : m.frames with
  | nil => exact h.deliver trivial
  | cons f rest =>
    rw [hframes] at hall
    obtain ⟨hf, hrest⟩ := List.forall_mem_cons.1 hall
    simp only
    cases hcode : f.activation.method.code[f.activation.next]? with
    | none =>
      rw [fetch_of_none hcode]
      exact h.serve hf hrest trivial
    | some i =>
      rw [Activation.fetch_of_some hcode]
      obtain ⟨scope, hloaded⟩ := hf.loaded
      have hresolved := h.domain.modules _ (Array.mem_of_getElem? hloaded)
      have hresolves := hresolved.code _ (Array.mem_of_getElem? hf.method) i (Array.mem_of_getElem? hcode)
      have hsafe := Activation.safe_execute hresolves _ (hf.withNext (f.activation.next + 1))
      have htraced : (m.addEffects (m.instructionTrace f.activation i)).Grounded := h.addEffects Effect.known_trace
      simp only
      cases hexecute : Activation.execute i { f.activation with next := f.activation.next + 1 } with
      | ok request a =>
        rw [hexecute] at hsafe
        obtain ⟨ha, hrequest⟩ := hsafe
        exact htraced.serve (f := { f with activation := a }) ha.own hrest hrequest
      | error e a =>
        rw [hexecute] at hsafe
        obtain ⟨ha, he⟩ := hsafe
        have hwaiting : ∀ g ∈ { f with activation := a } :: rest,
            g.activation.Grounded m.domain.modules g.activation.module :=
          List.forall_mem_cons.2 ⟨ha.own, hrest⟩
        exact (htraced.withFrames hwaiting).deliver he

end Machine

/-! ## Operations -/

/-- What the program around a domain hands in refers to what exists; a module need not if it does not get loaded. -/
def Operation.Valid (d : Domain) : Operation → Prop
  | .load scope m | .execute scope m => (d.load scope m).2.isOk → m.checkReferences = .ok ()
  | .store _ _ v => v.Known d.modules
  | .run (.invoke function args) => function.Known d.modules ∧ ∀ arg ∈ args, arg.Known d.modules
  | .run (.execute id) => id < d.moduleCount
  | .attach _ | .install | .run (.resolve ..) => True

namespace Domain.Grounded

variable {d : Domain}

theorem machine (h : d.Grounded) (base : Nat) : Machine.Grounded { domain := d, base } :=
  ⟨h, nofun, nofun⟩

theorem fail (h : d.Grounded) {e : VmError} (he : ¬ e.Dangling) : (Turn.finished (d.fail e)).Grounded :=
  ⟨h, nofun, he⟩

theorem done (h : d.Grounded) : (Turn.finished ⟨d, #[], .ok .undefined⟩).Grounded :=
  ⟨h, nofun, trivial⟩

theorem notInitialized (h : d.Grounded) : (Turn.finished (d.fail Domain.notInitialized)).Grounded :=
  h.fail (VmError.not_dangling_of_head (c := 's') rfl (by decide) (by decide))

/-- The initializer of a loaded module exists. -/
theorem execute (h : d.Grounded) {id : Nat} (hid : id < d.moduleCount) : ((Demand.execute id).start d).Grounded := by
  have hget : d.modules[id]? = some d.modules[id] := Array.getElem?_eq_getElem hid
  simp only [Demand.start, module?, hget, Option.map_some]
  split
  · exact h.notInitialized
  · exact (h.machine 0).enter .call ⟨_, hget, (h.modules _ (Array.getElem_mem hid)).init⟩ (List.forall_mem_nil _)

/-- A valid operation begins well. -/
theorem start (h : d.Grounded) {operation : Operation} (hvalid : operation.Valid d) :
    (operation.start d).Grounded := by
  cases operation with
  | attach catalog =>
    simp only [Operation.start, setCatalog]
    split
    · rename_i hcatalog
      split at hcatalog <;> cases hcatalog
      exact (h.attached catalog).done
    · rename_i hcatalog
      split at hcatalog <;> cases hcatalog
      exact h.fail (VmError.not_dangling_of_head (c := 'c') rfl (by decide) (by decide))
  | install => exact h.install.done
  | load scope m =>
    obtain ⟨effects, _, ⟨e, hfails, he⟩ | ⟨hloads, hd, _⟩⟩ := h.load scope hvalid
    · simp only [Operation.start, hfails]
      exact h.fail he
    · simp only [Operation.start, hloads]
      exact hd.done
  | execute scope m =>
    simp only [Operation.start]
    split
    · exact h.notInitialized
    · obtain ⟨effects, _, ⟨e, hfails, he⟩ | ⟨hloads, hd, hmodules⟩⟩ := h.load scope hvalid
      · simp only [hfails]
        exact h.fail he
      · simp only [hloads]
        exact hd.execute (by rw [moduleCount, hmodules, Array.size_push]; exact Nat.lt_succ_self _)
  | store scope name v => exact (h.setGlobal hvalid).done
  | run demand =>
    cases demand with
    | invoke function args => exact (h.machine 0).call hvalid.1 hvalid.2
    | execute id => exact h.execute hvalid
    | resolve scope name depth => exact (h.machine depth).resolve scope name

end Domain.Grounded

/-! ## Lives -/

/-- A valid operation is begun, or none. -/
def Act.Valid (life : Life) : Act → Prop
  | .begin operation => ∀ o, life.turn = .finished o → operation.Valid o.domain
  | .step | .wait _ => True

/-- All operations that are begun are valid then. -/
def Life.Proper (life : Life) : List Act → Prop
  | [] => True
  | act :: acts => act.Valid life ∧ (life.act act).Proper acts

theorem Life.proper_steps (life : Life) (steps : Nat) : life.Proper (List.replicate steps .step) := by
  induction steps generalizing life with
  | zero => trivial
  | succ steps ih => exact ⟨trivial, ih _⟩

theorem Life.grounded_act {life : Life} (h : life.turn.Grounded) {act : Act} (hvalid : act.Valid life) :
    (life.act act).turn.Grounded := by
  obtain ⟨turn, record⟩ := life
  cases turn with
  | running m =>
    cases act with
    | begin operation => exact h
    | step => exact Machine.Grounded.step h
    | wait elapsed =>
      exact Machine.Grounded.withDomain h (h.domain.aged elapsed) rfl
  | finished o =>
    cases act with
    | begin operation => exact h.domain.start (hvalid o rfl)
    | step => exact h
    | wait elapsed =>
      exact ⟨h.domain.aged elapsed, h.effects, h.result⟩

theorem Life.grounded_after {life : Life} (h : life.turn.Grounded) {acts : List Act} (hproper : life.Proper acts) :
    (life.after acts).turn.Grounded := by
  induction acts generalizing life with
  | nil => exact h
  | cons act acts ih => exact ih (grounded_act h hproper.1) hproper.2

theorem Life.grounded_new (options : DomainOptions) : (Life.new options).turn.Grounded :=
  (Domain.grounded_new options).done

/-! ## The table of modules -/

theorem Domain.known_apply {d : Domain} {v : Value} (h : v.Known d.modules) (event : Event) :
    v.Known (d.apply event).modules := by
  cases event with
  | installed =>
    unfold apply install
    cases d.isInitialized <;> exact h
  | stored scope name w => cases scope <;> exact h
  | loaded scope m =>
    change v.Known (d.withModule scope m).modules
    cases hvalues : bindings m d.modules.size m.definitions with
    | error e =>
      rw [withModule, hvalues]
      exact h
    | ok values =>
      rw [withModule_of_ok hvalues, modules_bind]
      exact h.push _
  | _ => exact h

/-- A known value stays known, whatever happens. -/
theorem kept_known (v : Value) : Kept fun d _ _ => v.Known d.modules where
  event h event _ := Domain.known_apply h event
  left {d purpose _ _} h e := by
    rw [purpose.modules_failed]
    exact h

/-! ## Values that are held -/

namespace Turn

def frames : Turn → List Frame
  | .running m => m.frames
  | .finished _ => []

def effects : Turn → Effects
  | .running m => m.effects
  | .finished o => o.effects

/-- A value is held as a global, by a frame, as a test handed to the program around, or as a result. -/
inductive Holds (v : Value) (t : Turn) : Prop where
  | global (scope : Scope) (name : String) (h : (name, v) ∈ (t.domain.scope scope).globals)
  | function {f : Frame} (hf : f ∈ t.frames) (h : v = .function f.activation.function)
  | operand {f : Frame} (hf : f ∈ t.frames) (h : v ∈ f.activation.stack)
  | slot {f : Frame} (hf : f ∈ t.frames) (h : v ∈ f.activation.locals)
  | test (name : String) (h : .register (.test name v) ∈ t.effects)
  | result {o : Outcome Value} (hturn : t = .finished o) (h : o.result = .ok v)

end Turn

namespace Turn.Grounded

variable {t : Turn}

theorem domain (h : t.Grounded) : t.domain.Grounded := by
  cases t with
  | running m => exact Machine.Grounded.domain h
  | finished o => exact Outcome.Grounded.domain h

theorem frames (h : t.Grounded) : ∀ f ∈ t.frames, f.activation.Grounded t.domain.modules f.activation.module := by
  cases t with
  | running m => exact Machine.Grounded.frames h
  | finished o => exact nofun

theorem effects (h : t.Grounded) : ∀ effect ∈ t.effects, effect.Known t.domain.modules := by
  cases t with
  | running m => exact Machine.Grounded.effects h
  | finished o => exact Outcome.Grounded.effects h

theorem result (h : t.Grounded) {o : Outcome Value} (hturn : t = .finished o) : Answers o.domain.modules o.result := by
  cases hturn
  exact Outcome.Grounded.result h

theorem known (h : t.Grounded) {v : Value} (hholds : t.Holds v) : v.Known t.domain.modules := by
  cases hholds with
  | global scope name hv => exact h.domain.known_scope scope _ hv
  | function hf hv => exact hv ▸ (h.frames _ hf).known_function
  | operand hf hv => exact (h.frames _ hf).stack v hv
  | slot hf hv => exact (h.frames _ hf).locals v hv
  | test name hv => exact h.effects _ hv
  | result hturn hv =>
    have hanswers := h.result hturn
    rw [hv] at hanswers
    rw [hturn]
    exact hanswers

end Turn.Grounded

/-- If all that is handed in refers to what exists, then every function that is ever held is a method of a loaded
module, then and at all later times, and no operation fails because of a function without a method. -/
theorem function_values_resolve (options : DomainOptions) (acts more : List Act)
    (hproper : (Life.new options).Proper acts) :
    (∀ v, ((Life.new options).after acts).turn.Holds v →
      v.Known ((Life.new options).after (acts ++ more)).turn.domain.modules) ∧
    ∀ o e, ((Life.new options).after acts).turn = .finished o → o.result = .error e → ¬ e.Dangling := by
  have hgrounded := Life.grounded_after (Life.grounded_new options) hproper
  constructor
  · intro v hholds
    rw [Life.after_append]
    exact (kept_known v).after (hgrounded.known hholds) more
  · intro o e hturn herror
    have hanswers := hgrounded.result hturn
    rw [herror] at hanswers
    exact hanswers

/-- A module whose initializer registers a function that it makes as a test. -/
def tester : Module where
  label := "tester"
  minorVersion := supportedMinor
  majorVersion := supportedMajor
  constants := #[.string "tester", .string "pushUnitTest", .string "case"]
  methods := #[
    { name := 0, params := 0, locals := 0, code := #[.getGlobal 1, .newFunction 1, .call 1, .pop, .returnVoid] },
    { name := 2, params := 0, locals := 0, code := #[.returnVoid] }]
  definitions := []
  init := 0

def testerActs : List Act :=
  .begin .install :: .begin (.execute .application tester) :: List.replicate 10 .step

/-- The test that the tester registers is its second method, then and later. -/
theorem tester_function_resolves :
    let life := Life.new { release := true }
    life.Proper testerActs ∧ (life.after testerActs).turn.Holds (.function ⟨0, 1⟩) ∧
      (Value.function ⟨0, 1⟩).Known
        (life.after (testerActs ++ [.begin (.execute .system tester)])).turn.domain.modules := by
  intro life
  have hproper : life.Proper testerActs := ⟨fun _ _ => trivial, fun _ _ _ => rfl, Life.proper_steps _ 10⟩
  have hholds : (life.after testerActs).turn.Holds (.function ⟨0, 1⟩) := .test "case" (by decide +kernel)
  exact ⟨hproper, hholds, (function_values_resolve _ testerActs _ hproper).1 _ hholds⟩

end MovieVm
