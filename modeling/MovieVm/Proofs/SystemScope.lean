import MovieVm.Domain.Execution
import MovieVm.Proofs.Frames

/-!
# System code and the globals of the application

Two domains that differ only in the globals of the application are told apart by no code of the system scope. As
long as all frames belong to the system scope, the machines of both go the same way, and neither touches the globals
of its application.
-/

namespace MovieVm

open Bytecode

/-! ## Other globals -/

/-- The domain with other globals in its application scope. -/
def Domain.withGlobals (d : Domain) (globals : Globals) : Domain :=
  { d with application := { d.application with globals } }

def Outcome.withGlobals (o : Outcome Value) (globals : Globals) : Outcome Value :=
  { o with domain := o.domain.withGlobals globals }

def Machine.withGlobals (m : Machine) (globals : Globals) : Machine :=
  { m with domain := m.domain.withGlobals globals }

/-- A scope that finds the name in neither globals of the application. The system scope never looks there. -/
def Blind (own other : Globals) (scope : Scope) (name : String) : Prop :=
  scope = .application → own.get? name = none ∧ other.get? name = none

theorem Blind.system {own other : Globals} {name : String} : Blind own other .system name :=
  nofun

/-- An initializer whose requester looks for its symbol blindly. -/
def Purpose.Blind (own other : Globals) : Purpose → Prop
  | .call => True
  | .catalogEntry _ symbol requester => MovieVm.Blind own other requester symbol

theorem Purpose.blind_call {own other : Globals} : Purpose.call.Blind own other :=
  trivial

/-- A machine whose application has the globals `own`, and whose frames cannot tell them from `other`. -/
structure Machine.Sealed (own other : Globals) (m : Machine) : Prop where
  globals : m.domain.application.globals = own
  frames : ∀ f ∈ m.frames, f.purpose.Blind own other

/-- A turn with globals `own`, and the same with globals `other`. -/
inductive Turn.Parallel (own other : Globals) : Turn → Turn → Prop where
  | running {m : Machine} (h : m.Sealed own other) : Parallel own other (.running m) (.running (m.withGlobals other))
  | finished {o : Outcome Value} (h : o.domain.application.globals = own) :
    Parallel own other (.finished o) (.finished (o.withGlobals other))

variable {own other : Globals} {d : Domain} {scope : Scope} {name : String}

/-! ## Domains -/

namespace Domain

theorem getGlobal?_withGlobals (h : Blind d.application.globals other scope name) :
    (d.withGlobals other).getGlobal? scope name = d.getGlobal? scope name := by
  cases scope with
  | system => rfl
  | application =>
    obtain ⟨hown, hother⟩ := h rfl
    simp only [getGlobal?, withGlobals, hown, hother]

/-- Natives see nothing of the globals. -/
theorem call_withGlobals (args : List Value) :
    Natives.call (d.withGlobals other) name args = Natives.call d name args :=
  rfl

/-- A module is loaded into the system scope in the same way, and the application keeps its globals. -/
theorem load_withGlobals (d : Domain) (other : Globals) (m : Module) :
    ∃ effects, (∃ e, d.load .system m = (effects, .error e) ∧
        (d.withGlobals other).load .system m = (effects, .error e)) ∨
      ∃ id d', d.load .system m = (effects, .ok (id, d')) ∧
        (d.withGlobals other).load .system m = (effects, .ok (id, d'.withGlobals other)) ∧
        d'.application.globals = d.application.globals := by
  have hoptions : (d.withGlobals other).options = d.options := rfl
  have htrace : (d.withGlobals other).loadTrace .system m = d.loadTrace .system m := rfl
  have hmodules : (d.withGlobals other).modules = d.modules := rfl
  unfold Domain.load
  rw [hoptions, htrace, hmodules]
  split
  · exact ⟨_, .inl ⟨_, rfl, rfl⟩⟩
  · simp only
    cases bindings m d.modules.size m.definitions with
    | error e => exact ⟨_, .inl ⟨e, rfl, rfl⟩⟩
    | ok values => exact ⟨_, .inr ⟨_, _, rfl, rfl, rfl⟩⟩

end Domain

theorem Purpose.failed_withGlobals (purpose : Purpose) (d : Domain) (e : VmError) :
    purpose.failed (d.withGlobals other) e = (purpose.failed d e).withGlobals other := by
  cases purpose <;> rfl

theorem Purpose.globals_failed (purpose : Purpose) (d : Domain) (e : VmError) :
    (purpose.failed d e).application.globals = d.application.globals := by
  cases purpose <;> rfl

/-- What a frame returns does not depend on the globals of the application. -/
theorem Purpose.Blind.result {purpose : Purpose} (h : purpose.Blind d.application.globals other) (v : Value) :
    purpose.result (d.withGlobals other) v = purpose.result d v := by
  cases purpose with
  | call => rfl
  | catalogEntry entry symbol requester => simp only [Purpose.result, Domain.getGlobal?_withGlobals h]

/-! ## Machines -/

namespace Machine

variable {m : Machine}

theorem Sealed.addEffects (h : m.Sealed own other) (effects : Effects) : (m.addEffects effects).Sealed own other :=
  ⟨h.globals, h.frames⟩

theorem Sealed.withDomain (h : m.Sealed own other) (hd : d.application.globals = own) :
    Sealed own other { m with domain := d } :=
  ⟨hd, h.frames⟩

theorem Sealed.withFrames (h : m.Sealed own other) {frames : List Frame}
    (hframes : ∀ f ∈ frames, f.purpose.Blind own other) : Sealed own other { m with frames } :=
  ⟨h.globals, hframes⟩

/-- A result goes the same way through the frames. -/
theorem Sealed.deliverTo (h : m.Sealed own other) (result : Except VmError Value) {frames : List Frame}
    (hframes : ∀ f ∈ frames, f.purpose.Blind own other) :
    Turn.Parallel own other (m.deliverTo result frames) ((m.withGlobals other).deliverTo result frames) := by
  induction frames generalizing m result with
  | nil => exact .finished h.globals
  | cons f rest ih =>
    obtain ⟨hf, hrest⟩ := List.forall_mem_cons.1 hframes
    cases result with
    | ok v => exact .running (h.withFrames (List.forall_mem_cons.2 ⟨hf, hrest⟩))
    | error e =>
      simp only [Machine.deliverTo, withGlobals, Purpose.failed_withGlobals]
      exact ih (h.withDomain ((f.purpose.globals_failed _ _).trans h.globals)) _ hrest

theorem Sealed.deliver (h : m.Sealed own other) (result : Except VmError Value) :
    Turn.Parallel own other (m.deliver result) ((m.withGlobals other).deliver result) :=
  h.deliverTo result h.frames

theorem Sealed.refuse (h : m.Sealed own other) (purpose : Purpose) (e : VmError) :
    Turn.Parallel own other (m.refuse purpose e) ((m.withGlobals other).refuse purpose e) := by
  simp only [Machine.refuse, withGlobals, Purpose.failed_withGlobals]
  exact (h.withDomain ((purpose.globals_failed _ _).trans h.globals)).deliver _

/-! ## Calls and globals -/

theorem Sealed.enter (h : m.Sealed own other) {purpose : Purpose} (hpurpose : purpose.Blind own other)
    (function : FunctionRef) (args : List Value) :
    Turn.Parallel own other (m.enter purpose function args) ((m.withGlobals other).enter purpose function args) := by
  have hdepth : (m.withGlobals other).depth = m.depth := rfl
  have hloaded : (m.withGlobals other).domain.loaded function.module = m.domain.loaded function.module := rfl
  unfold Machine.enter
  rw [hdepth, hloaded]
  split
  · exact h.refuse purpose _
  · split
    · exact h.refuse purpose _
    · split
      · exact h.refuse purpose _
      · exact .running (h.withFrames (List.forall_mem_cons.2 ⟨hpurpose, h.frames⟩))

theorem Sealed.call (h : m.Sealed own other) (callee : Value) (args : List Value) :
    Turn.Parallel own other (m.call callee args) ((m.withGlobals other).call callee args) := by
  cases callee with
  | function f => exact h.enter Purpose.blind_call f args
  | native name =>
    simp only [Machine.call, withGlobals, Domain.call_withGlobals]
    exact (h.addEffects _).deliver _
  | _ => exact h.deliver _

/-- Loads a module into the system scope and enters its initializer. -/
def boot (m : Machine) (purpose : Purpose) (module : Module) : Turn :=
  let (effects, loaded) := m.domain.load .system module
  let m := m.addEffects effects
  match loaded with
  | .error e => m.refuse purpose e
  | .ok (id, domain) => enter { m with domain } purpose ⟨id, module.init⟩ []

theorem loadEntry_of_ok {catalog : Catalog} {entry : Nat} {module : Module} (hload : catalog.load entry = .ok module)
    (symbol : String) (requester : Scope) :
    m.loadEntry catalog entry symbol requester =
      let marked : Machine := { m with domain := m.domain.setMark entry .loaded }
      (marked.addEffects (marked.catalogTrace symbol module.label)).boot
        (.catalogEntry entry symbol requester) module := by
  simp only [loadEntry, hload]
  rfl

theorem Sealed.boot (h : m.Sealed own other) {purpose : Purpose} (hpurpose : purpose.Blind own other)
    (module : Module) :
    Turn.Parallel own other (m.boot purpose module) ((m.withGlobals other).boot purpose module) := by
  unfold Machine.boot
  obtain ⟨effects, ⟨e, hfails, hfails'⟩ | ⟨id, d, hloads, hloads', hglobals⟩⟩ :=
    m.domain.load_withGlobals other module
  · simp only [withGlobals, hfails, hfails']
    exact (h.addEffects effects).refuse purpose e
  · simp only [withGlobals, hloads, hloads']
    exact ((h.addEffects effects).withDomain (hglobals.trans h.globals)).enter hpurpose _ _

/-- The initializer of an entry runs over the same frames, and its requester looks for the symbol blindly. -/
theorem Sealed.loadEntry (h : m.Sealed own other) {requester : Scope} {symbol : String}
    (hblind : Blind own other requester symbol) (catalog : Catalog) (entry : Nat) :
    Turn.Parallel own other (m.loadEntry catalog entry symbol requester)
      ((m.withGlobals other).loadEntry catalog entry symbol requester) := by
  have hmarked : Sealed own other { m with domain := m.domain.setMark entry .loaded } := h.withDomain h.globals
  cases hload : catalog.load entry with
  | error e =>
    simp only [Machine.loadEntry, hload]
    exact hmarked.refuse _ _
  | ok module =>
    have hpurpose : (Purpose.catalogEntry entry symbol requester).Blind own other := hblind
    rw [loadEntry_of_ok hload, loadEntry_of_ok hload]
    exact (hmarked.addEffects _).boot hpurpose module

theorem Sealed.resolve (h : m.Sealed own other) (hblind : Blind own other scope name) :
    Turn.Parallel own other (m.resolve scope name) ((m.withGlobals other).resolve scope name) := by
  have hglobal : (m.withGlobals other).domain.getGlobal? scope name = m.domain.getGlobal? scope name :=
    Domain.getGlobal?_withGlobals (h.globals ▸ hblind)
  have hcatalog : (m.withGlobals other).domain.catalog = m.domain.catalog := rfl
  have hentry : (m.withGlobals other).domain.entryFor? name = m.domain.entryFor? name := rfl
  have hmark : (m.withGlobals other).domain.mark? = m.domain.mark? := rfl
  unfold Machine.resolve
  rw [hglobal, hcatalog, hentry, hmark]
  split
  · exact h.deliver _
  · split
    · split
      · exact h.deliver _
      · exact h.deliver _
      · exact h.loadEntry hblind _ _
    · exact h.deliver _

/-! ## Steps -/

/-- A frame of the system scope is served in the same way. -/
theorem Sealed.serve (h : m.Sealed own other) {f : Frame} {rest : List Frame} (hscope : f.scope = .system)
    (hf : f.purpose.Blind own other) (hrest : ∀ f ∈ rest, f.purpose.Blind own other)
    (request : Activation.Request) :
    Turn.Parallel own other (m.serve f rest request) ((m.withGlobals other).serve f rest request) := by
  have hwaiting := h.withFrames (List.forall_mem_cons.2 ⟨hf, hrest⟩)
  cases request with
  | proceed => exact .running hwaiting
  | readGlobal name =>
    rw [Machine.serve, Machine.serve, hscope]
    exact hwaiting.resolve .system
  | writeGlobal name v =>
    rw [Machine.serve, Machine.serve, hscope]
    exact .running (hwaiting.withDomain h.globals)
  | call callee args => exact hwaiting.call callee args
  | finish v =>
    have hresult : f.purpose.result (m.withGlobals other).domain v = f.purpose.result m.domain v :=
      Purpose.Blind.result (h.globals ▸ hf) v
    rw [Machine.serve, Machine.serve, hresult]
    exact (h.withFrames hrest).deliver _

theorem Sealed.step (h : m.Sealed own other) (hscope : ∀ f ∈ m.frames, f.scope = .system) :
    Turn.Parallel own other m.step (m.withGlobals other).step := by
  have hframes : (m.withGlobals other).frames = m.frames := rfl
  have hsealed := h.frames
  unfold Machine.step
  rw [hframes]
  cases hm : m.frames with
  | nil => exact h.deliver _
  | cons f rest =>
    rw [hm] at hscope hsealed
    obtain ⟨hf, hrest⟩ := List.forall_mem_cons.1 hsealed
    have hsystem := hscope f List.mem_cons_self
    simp only
    cases hcode : f.activation.method.code[f.activation.next]? with
    | none =>
      rw [fetch_of_none hcode]
      exact h.serve hsystem hf hrest _
    | some i =>
      rw [Activation.fetch_of_some hcode]
      have htraced := h.addEffects (m.instructionTrace f.activation i)
      simp only
      cases Activation.execute i { f.activation with next := f.activation.next + 1 } with
      | ok request a => exact htraced.serve (f := { f with activation := a }) hsystem hf hrest request
      | error e a =>
        exact (htraced.withFrames (List.forall_mem_cons.2 ⟨hf, hrest⟩) :
          Sealed own other { m.addEffects _ with frames := { f with activation := a } :: rest }).deliver _

end Machine

/-! ## Runs -/

/-- All frames belong to the scope, for as many steps as there is fuel. -/
def Turn.staysIn (scope : Scope) : (fuel : Nat) → Turn → Bool
  | _, .finished _ => true
  | 0, .running m => m.frames.all (·.scope = scope)
  | fuel + 1, .running m => m.frames.all (·.scope = scope) && staysIn scope fuel m.step

theorem Turn.Parallel.run {t t' : Turn} (h : t.Parallel own other t') {fuel : Nat}
    (hstays : t.staysIn .system fuel = true) :
    t'.run fuel = (t.run fuel).map (·.withGlobals other) ∧
      ∀ o, t.run fuel = some o → o.domain.application.globals = own := by
  induction fuel generalizing t t' with
  | zero =>
    cases h with
    | running h =>
      refine ⟨rfl, fun o ho => ?_⟩
      cases ho
    | finished h => exact ⟨rfl, fun o ho => Option.some.inj ho ▸ h⟩
  | succ fuel ih =>
    cases h with
    | running h =>
      obtain ⟨hscope, hstays⟩ := Bool.and_eq_true_iff.1 hstays
      have hstep := h.step fun f hf => of_decide_eq_true (List.all_eq_true.1 hscope f hf)
      rw [Turn.run, Turn.run]
      exact ih hstep hstays
    | finished h => exact ⟨rfl, fun o ho => Option.some.inj ho ▸ h⟩

/-! ## Demands -/

/-- What a program around a domain can have its code do: a call, the initializer of a module, or the lookup of a
global, for which the initializer of a catalog entry may have to run. -/
inductive Demand where
  | invoke (function : Value) (args : List Value)
  | execute (id : Nat)
  | resolve (scope : Scope) (name : String) (depth : Nat)

namespace Demand

def run (d : Domain) (fuel : Nat) : Demand → Option (Outcome Value)
  | .invoke function args => d.invoke fuel function args
  | .execute id => d.executeModule fuel id
  | .resolve scope name depth => d.resolveGlobal fuel scope name depth

/-- The first turn of the run. -/
def start (d : Domain) : Demand → Turn
  | .invoke function args => Machine.call { domain := d } function args
  | .execute id =>
    if !d.isInitialized then .finished (d.fail Domain.notInitialized)
    else match d.module? id with
      | none => .finished (d.fail (Domain.noModule id))
      | some m => Machine.enter { domain := d } .call ⟨id, m.init⟩ []
  | .resolve scope name depth => Machine.resolve { domain := d, base := depth } scope name

/-- A lookup is blind when the name is in neither globals of the application, or when it is made by the system. -/
def Blind (own other : Globals) : Demand → Prop
  | .resolve scope name _ => MovieVm.Blind own other scope name
  | _ => True

theorem run_eq (demand : Demand) (d : Domain) (fuel : Nat) : demand.run d fuel = (demand.start d).run fuel := by
  have hfinished : ∀ o, (Turn.finished o).run fuel = some o := fun o => by cases fuel <;> rfl
  cases demand with
  | execute id =>
    simp only [run, start, Domain.executeModule]
    split
    · exact (hfinished _).symm
    · cases d.module? id with
      | none => exact (hfinished _).symm
      | some m => rfl
  | _ => rfl

theorem parallel {demand : Demand} (h : demand.Blind d.application.globals other) :
    Turn.Parallel d.application.globals other (demand.start d) (demand.start (d.withGlobals other)) := by
  have hsealed : ∀ depth, Machine.Sealed d.application.globals other { domain := d, base := depth } :=
    fun _ => ⟨rfl, nofun⟩
  cases demand with
  | invoke function args => exact (hsealed 0).call function args
  | resolve scope name depth => exact (hsealed depth).resolve h
  | execute id =>
    have hready : (d.withGlobals other).isInitialized = d.isInitialized := rfl
    have hmodule : (d.withGlobals other).module? id = d.module? id := rfl
    simp only [start, hready, hmodule]
    split
    · exact .finished rfl
    · split
      · exact .finished rfl
      · exact (hsealed 0).enter Purpose.blind_call _ _

end Demand

/-- While no frame of the application is entered, two domains that differ only in the globals of the application meet
a demand in the same way: the results, the effects and all that is left of the domains are the same, but for those
globals, which both keep. -/
theorem system_code_ignores_application (d : Domain) (other : Globals) (demand : Demand) (fuel : Nat)
    (hblind : demand.Blind d.application.globals other)
    (hstays : (demand.start d).staysIn .system fuel = true) :
    demand.run (d.withGlobals other) fuel = (demand.run d fuel).map (·.withGlobals other) ∧
      ∀ o, demand.run d fuel = some o → o.domain.application.globals = d.application.globals := by
  rw [demand.run_eq, demand.run_eq]
  exact (Demand.parallel hblind).run hstays

/-- A module whose initializer traces a text and keeps what it has traced. -/
def reporter : Module where
  label := "reporter"
  minorVersion := supportedMinor
  majorVersion := supportedMajor
  constants := #[.string "report", .string "trace", .string "last"]
  methods := #[{
    name := 0, params := 0, locals := 0
    code := #[.getGlobal 1, .pushString 0, .call 1, .pop, .pushString 0, .setGlobal 2, .returnVoid] }]
  definitions := [⟨0, .method 0⟩]
  init := 0

/-- The reporter is in the catalog, and the application has a trace of its own. -/
def reporterDomain : Domain :=
  { Domain.install { options := { release := true } } with
    application := { globals := [("trace", .int 1)] }
    catalog := some ⟨reporter.encode, [⟨"reporter", 0, reporter.encode.length, ["report"]⟩]⟩ }

/-- Code of the application looks the reporter up, whose initializer then runs. -/
def reporterDemand : Demand :=
  .resolve .application "report" 3

theorem reporter_ignores_application :
    let other : Globals := [("last", .null)]
    reporterDemand.Blind reporterDomain.application.globals other ∧
      (reporterDemand.start reporterDomain).staysIn .system 10 = true ∧
      reporterDemand.run (reporterDomain.withGlobals other) 10 =
        (reporterDemand.run reporterDomain 10).map (·.withGlobals other) ∧
      ∀ o, reporterDemand.run reporterDomain 10 = some o →
        o.domain.application.globals = reporterDomain.application.globals := by
  intro other
  have hblind : reporterDemand.Blind reporterDomain.application.globals other := fun _ => ⟨rfl, rfl⟩
  have hstays : (reporterDemand.start reporterDomain).staysIn .system 10 = true := by decide +kernel
  exact ⟨hblind, hstays, system_code_ignores_application reporterDomain other reporterDemand 10 hblind hstays⟩

end MovieVm
