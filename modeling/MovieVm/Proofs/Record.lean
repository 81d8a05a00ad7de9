import MovieVm.Domain.Execution
import MovieVm.Proofs.Frames

/-!
# The record of a run

Code does few things to its domain: it stores globals, comes to entries of the catalog and loads their modules, calls
functions and returns from them. What a step does is written down before it is done, and the record tells all of the
domain that follows: a step carries its events out, and an error then marks the entries whose initializers it leaves.
-/

namespace MovieVm

open Bytecode

/-! ## Events -/

/-- What code, the program around a domain, or time does to it. A call and a return change the frames only. -/
inductive Event where
  | attached (catalog : Catalog)
  | installed
  | stored (scope : Scope) (name : String) (v : Value)
  | loaded (scope : Scope) (m : Module)
  | attempted (entry : Nat) (symbol : String) (requester : Scope)
  | called (function : FunctionRef)
  | returned (purpose : Purpose)
  | aged (elapsed : Nat)

namespace Domain

/-- The domain with a module loaded into a scope, if all its definitions have a value. -/
def withModule (d : Domain) (scope : Scope) (m : Module) : Domain :=
  match bindings m d.modules.size m.definitions with
  | .ok values => d.bind scope m values
  | .error _ => d

theorem load_cases (d : Domain) (scope : Scope) (m : Module) :
    ∃ effects, (∃ e, d.load scope m = (effects, .error e)) ∨
      ∃ values, bindings m d.modules.size m.definitions = .ok values ∧
        d.load scope m = (effects, .ok (d.moduleCount, d.withModule scope m)) := by
  unfold load withModule
  split
  · exact ⟨_, .inl ⟨_, rfl⟩⟩
  · simp only
    cases bindings m d.modules.size m.definitions with
    | error e => exact ⟨_, .inl ⟨e, rfl⟩⟩
    | ok values => exact ⟨_, .inr ⟨values, rfl, rfl⟩⟩

def apply (d : Domain) : Event → Domain
  | .attached catalog => { d with catalog := some catalog }
  | .installed => d.install
  | .stored scope name v => d.setGlobal scope name v
  | .loaded scope m => d.withModule scope m
  | .attempted entry _ _ => d.setMark entry .loaded
  | .aged elapsed => { d with elapsed }
  | .called _ | .returned _ => d

def replay (d : Domain) (events : List Event) : Domain :=
  events.foldl apply d

end Domain

/-- What the frames run for after an event, innermost first. -/
def Event.purposes (purposes : List Purpose) : Event → List Purpose
  | .called _ => .call :: purposes
  | .attempted entry symbol requester => .catalogEntry entry symbol requester :: purposes
  | .returned _ => purposes.tail
  | _ => purposes

/-! ## What happens next -/

namespace Domain

/-- The entry that has to be loaded before a global can be looked up. -/
def wanted? (d : Domain) (scope : Scope) (name : String) : Option Nat :=
  if (d.getGlobal? scope name).isSome then none
  else (d.entryFor? name).filter fun entry => (d.mark? entry).isNone

theorem wanted?_eq_some {d : Domain} {scope : Scope} {name : String} {entry : Nat} :
    d.wanted? scope name = some entry ↔
      d.getGlobal? scope name = none ∧ d.entryFor? name = some entry ∧ d.mark? entry = none := by
  unfold wanted?
  cases d.getGlobal? scope name with
  | some v => simp
  | none => simp [Option.filter_eq_some_iff]

/-- The answer to a lookup that loads nothing. -/
def lookup (d : Domain) (scope : Scope) (name : String) : Except VmError Value :=
  match d.getGlobal? scope name with
  | some v => .ok v
  | none =>
    match (d.entryFor? name).bind d.mark? with
    | some (.failed e) => .error e
    | _ => .error (undefinedGlobal name)

def loadEvents (d : Domain) (scope : Scope) (m : Module) : List Event :=
  match (d.load scope m).2 with
  | .ok _ => [.loaded scope m]
  | .error _ => []

def entryModule? (d : Domain) (entry : Nat) : Option Module :=
  d.catalog.bind fun catalog => (catalog.load entry).toOption

/-- The module of an entry that is marked already gets loaded, if it can be decoded. -/
def arrivalEvents (d : Domain) (entry : Nat) : List Event :=
  match d.entryModule? entry with
  | some m => d.loadEvents .system m
  | none => []

def attemptEvents (d : Domain) (entry : Nat) (symbol : String) (requester : Scope) : List Event :=
  .attempted entry symbol requester :: (d.setMark entry .loaded).arrivalEvents entry

def lookupEvents (d : Domain) (scope : Scope) (name : String) : List Event :=
  match d.wanted? scope name with
  | some entry => d.attemptEvents entry name scope
  | none => []

end Domain

namespace Machine

/-- The innermost frame after its next instruction, and what that asks for; none if the instruction fails. -/
def asks? (m : Machine) : Option (Frame × Activation.Request) :=
  match m.frames with
  | [] => none
  | f :: _ =>
    match Activation.fetch f.activation with
    | .error _ _ => none
    | .ok none _ => some (f, .finish .undefined)
    | .ok (some i) fetched =>
      match Activation.execute i fetched with
      | .ok request a => some ({ f with activation := a }, request)
      | .error _ _ => none

def callEvents : Value → List Event
  | .function f => [.called f]
  | _ => []

/-- What a frame that asks for something makes happen. -/
def serveEvents (d : Domain) (f : Frame) : Activation.Request → List Event
  | .proceed => []
  | .readGlobal name => d.lookupEvents f.scope name
  | .writeGlobal name v => [.stored f.scope name v]
  | .call callee _ => callEvents callee
  | .finish _ => [.returned f.purpose]

/-- What the next step does. -/
def events (m : Machine) : List Event :=
  match m.asks? with
  | some (f, request) => serveEvents m.domain f request
  | none => []

def purposes (m : Machine) : List Purpose :=
  m.frames.map (·.purpose)

end Machine

/-! ## What is left of a step -/

/-- The domain after frames with these purposes have been left, each by its error. -/
def Domain.unwind (d : Domain) : List (Purpose × VmError) → Domain
  | [] => d
  | (purpose, e) :: rest => (purpose.failed d e).unwind rest

/-- The errors that leave the frames, one after the other. -/
def VmError.through (e : VmError) : List Frame → List VmError
  | [] => []
  | f :: rest => e.withFrame f.activation.frame :: (e.withFrame f.activation.frame).through rest

theorem VmError.length_through (e : VmError) (frames : List Frame) : (e.through frames).length = frames.length := by
  induction frames generalizing e with
  | nil => rfl
  | cons f rest ih => rw [through, List.length_cons, List.length_cons, ih]

/-- The turn has the domain, and frames with the purposes or none. If an error has ended the run, then it has left
frames with the purposes, and the error of the outermost one is the result. -/
inductive Turn.Leaves (d : Domain) (purposes : List Purpose) : Turn → Prop where
  | running {m : Machine} (hdomain : m.domain = d) (hpurposes : m.purposes = purposes) : Leaves d purposes (.running m)
  | returned {effects : Effects} {v : Value} (hpurposes : purposes = []) :
    Leaves d purposes (.finished ⟨d, effects, .ok v⟩)
  | failed {effects : Effects} {errors : List VmError} {e : VmError} (hlength : errors.length = purposes.length)
    (hlast : ∀ last, errors.getLast? = some last → last = e) :
    Leaves d purposes (.finished ⟨d.unwind (purposes.zip errors), effects, .error e⟩)

namespace Machine

variable {m : Machine}

theorem deliverTo_error_eq (m : Machine) (e : VmError) (frames : List Frame) :
    m.deliverTo (.error e) frames = .finished
      ⟨m.domain.unwind ((frames.map (·.purpose)).zip (e.through frames)), m.effects,
        .error ((e.through frames).getLastD e)⟩ := by
  induction frames generalizing m e with
  | nil => rfl
  | cons f rest ih =>
    rw [deliverTo, ih, VmError.through, List.map_cons, List.zip_cons_cons, Domain.unwind, List.getLastD_cons]

theorem deliver_leaves (m : Machine) (result : Except VmError Value) :
    (m.deliver result).Leaves m.domain m.purposes := by
  cases result with
  | error e =>
    rw [deliver, deliverTo_error_eq]
    refine .failed (by rw [VmError.length_through, purposes, List.length_map]) fun last hlast => ?_
    rw [List.getLastD_eq_getLast?, hlast, Option.getD_some]
  | ok v =>
    unfold deliver purposes
    cases m.frames with
    | nil => exact .returned rfl
    | cons f rest => exact .running rfl rfl

/-- A frame that cannot be entered is left like one that was. -/
theorem refuse_leaves (m : Machine) (purpose : Purpose) (e : VmError) :
    (m.refuse purpose e).Leaves m.domain (purpose :: m.purposes) := by
  have hrefuse : m.refuse purpose e = .finished
      ⟨m.domain.unwind ((purpose :: m.purposes).zip (e :: e.through m.frames)), m.effects,
        .error ((e :: e.through m.frames).getLastD e)⟩ := by
    rw [refuse, deliver, deliverTo_error_eq, List.getLastD_cons]
    rfl
  rw [hrefuse]
  refine .failed ?_ fun last hlast => ?_
  · rw [List.length_cons, List.length_cons, VmError.length_through, purposes, List.length_map]
  · rw [List.getLastD_eq_getLast?, hlast, Option.getD_some]

/-! ## Calls and globals -/

theorem enter_leaves (m : Machine) (purpose : Purpose) (function : FunctionRef) (args : List Value) :
    (m.enter purpose function args).Leaves m.domain (purpose :: m.purposes) := by
  unfold enter
  split
  · exact m.refuse_leaves purpose _
  · split
    · exact m.refuse_leaves purpose _
    · split
      · exact m.refuse_leaves purpose _
      · exact .running rfl rfl

theorem call_leaves (m : Machine) (callee : Value) (args : List Value) :
    (m.call callee args).Leaves (m.domain.replay (callEvents callee))
      ((callEvents callee).foldl Event.purposes m.purposes) := by
  cases callee with
  | function f => exact m.enter_leaves .call f args
  | native name => exact (m.addEffects _).deliver_leaves _
  | _ => exact m.deliver_leaves _

theorem loadEntry_leaves {catalog : Catalog} (hcatalog : m.domain.catalog = some catalog) (entry : Nat)
    (symbol : String) (requester : Scope) :
    (m.loadEntry catalog entry symbol requester).Leaves
      (m.domain.replay (m.domain.attemptEvents entry symbol requester))
      ((m.domain.attemptEvents entry symbol requester).foldl Event.purposes m.purposes) := by
  have hmodule : (m.domain.setMark entry .loaded).entryModule? entry = (catalog.load entry).toOption := by
    rw [Domain.entryModule?, Domain.setMark, hcatalog, Option.bind_some]
  rw [loadEntry, Domain.attemptEvents, Domain.arrivalEvents, hmodule]
  let purpose := Purpose.catalogEntry entry symbol requester
  let marked : Machine := { m with domain := m.domain.setMark entry .loaded }
  cases catalog.load entry with
  | error e => exact marked.refuse_leaves purpose _
  | ok module =>
    let announced := marked.addEffects (marked.catalogTrace symbol module.label)
    simp only [Except.toOption, Domain.loadEvents, addEffects]
    obtain ⟨effects, ⟨e, hfails⟩ | ⟨_, _, hloads⟩⟩ := (m.domain.setMark entry .loaded).load_cases .system module
    · simp only [hfails]
      exact (announced.addEffects effects).refuse_leaves purpose e
    · simp only [hloads]
      exact enter_leaves { announced.addEffects effects with domain := marked.domain.withModule .system module }
        purpose _ _

theorem resolve_of_wanted {scope : Scope} {name : String} {entry : Nat} (h : m.domain.wanted? scope name = some entry) :
    ∃ catalog, m.domain.catalog = some catalog ∧ m.resolve scope name = m.loadEntry catalog entry name scope := by
  obtain ⟨hglobal, hentry, hmark⟩ := Domain.wanted?_eq_some.1 h
  obtain ⟨catalog, hcatalog, _⟩ := Option.bind_eq_some_iff.1 hentry
  refine ⟨catalog, hcatalog, ?_⟩
  simp only [resolve, hglobal, hcatalog, hentry, hmark]

theorem resolve_of_not_wanted {scope : Scope} {name : String} (h : m.domain.wanted? scope name = none) :
    m.resolve scope name = m.deliver (m.domain.lookup scope name) := by
  unfold resolve Domain.lookup
  cases hglobal : m.domain.getGlobal? scope name with
  | some v => rfl
  | none =>
    cases hentry : m.domain.entryFor? name with
    | none => cases m.domain.catalog <;> rfl
    | some entry =>
      obtain ⟨catalog, hcatalog, _⟩ := Option.bind_eq_some_iff.1 hentry
      rw [hcatalog, Option.bind_some]
      cases hmark : m.domain.mark? entry with
      | none =>
        rw [Domain.wanted?_eq_some.2 ⟨hglobal, hentry, hmark⟩] at h
        cases h
      | some mark => cases mark <;> simp only [hmark]

theorem resolve_leaves (m : Machine) (scope : Scope) (name : String) :
    (m.resolve scope name).Leaves (m.domain.replay (m.domain.lookupEvents scope name))
      ((m.domain.lookupEvents scope name).foldl Event.purposes m.purposes) := by
  unfold Domain.lookupEvents
  cases hwanted : m.domain.wanted? scope name with
  | none =>
    rw [resolve_of_not_wanted hwanted]
    exact m.deliver_leaves _
  | some entry =>
    obtain ⟨catalog, hcatalog, hresolve⟩ := resolve_of_wanted hwanted
    rw [hresolve]
    exact loadEntry_leaves hcatalog entry name scope

/-! ## Steps -/

theorem serve_leaves (m : Machine) (f : Frame) (rest : List Frame) (request : Activation.Request) :
    (m.serve f rest request).Leaves (m.domain.replay (serveEvents m.domain f request))
      ((serveEvents m.domain f request).foldl Event.purposes (f.purpose :: rest.map (·.purpose))) := by
  cases request with
  | proceed => exact .running rfl rfl
  | readGlobal name => exact resolve_leaves { m with frames := f :: rest } f.scope name
  | writeGlobal name v => exact .running rfl rfl
  | call callee args => exact call_leaves { m with frames := f :: rest } callee args
  | finish v => exact deliver_leaves { m with frames := rest } _

/-- A step carries out its events. -/
theorem step_leaves (m : Machine) :
    m.step.Leaves (m.domain.replay m.events) (m.events.foldl Event.purposes m.purposes) := by
  have hidle := m.deliver_leaves (.ok .undefined)
  unfold step events asks?
  rw [purposes] at hidle ⊢
  cases hframes : m.frames with
  | nil =>
    rw [hframes] at hidle
    exact hidle
  | cons f rest =>
    simp only
    cases hcode : f.activation.method.code[f.activation.next]? with
    | none =>
      rw [fetch_of_none hcode]
      exact m.serve_leaves f rest _
    | some i =>
      rw [Activation.fetch_of_some hcode]
      simp only
      cases Activation.execute i { f.activation with next := f.activation.next + 1 } with
      | ok request a => exact serve_leaves (m.addEffects _) { f with activation := a } rest request
      | error e a => exact deliver_leaves { m.addEffects _ with frames := { f with activation := a } :: rest } _

end Machine

end MovieVm
