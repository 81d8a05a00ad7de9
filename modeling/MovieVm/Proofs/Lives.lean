import MovieVm.Proofs.Record
import MovieVm.Proofs.SystemScope

/-!
# Lives of a domain

A program around a domain begins one operation after the other, code runs step by step in between, and time passes.
A life is any sequence of such acts on a new domain, with the record of what has happened to the domain. What every
event keeps holds all through a life.
-/

namespace MovieVm

open Bytecode

theorem Turn.run_finished (o : Outcome Value) (fuel : Nat) : (Turn.finished o).run fuel = some o := by
  cases fuel <;> rfl

/-! ## Operations -/

/-- What a program around a domain can do with it. -/
inductive Operation where
  | attach (catalog : Catalog)
  | install
  | load (scope : Scope) (m : Module)
  | execute (scope : Scope) (m : Module)
  | store (scope : Scope) (name : String) (v : Value)
  | run (demand : Demand)

namespace Operation

/-- The first turn of an operation; one that runs no code is over with it. -/
def start (d : Domain) : Operation → Turn
  | .attach catalog =>
    match d.setCatalog catalog with
    | .ok d => .finished ⟨d, #[], .ok .undefined⟩
    | .error e => .finished (d.fail e)
  | .install => .finished ⟨d.install, #[], .ok .undefined⟩
  | .load scope m =>
    match (d.load scope m).2 with
    | .ok (_, d) => .finished ⟨d, #[], .ok .undefined⟩
    | .error e => .finished (d.fail e)
  | .execute scope m =>
    if !d.isInitialized then .finished (d.fail Domain.notInitialized)
    else match (d.load scope m).2 with
      | .ok (id, d) => (Demand.execute id).start d
      | .error e => .finished (d.fail e)
  | .store scope name v => .finished ⟨d.setGlobal scope name v, #[], .ok .undefined⟩
  | .run demand => demand.start d

/-- The line that announces a load, which no turn lists. -/
def announcement (d : Domain) : Operation → Effects
  | .load scope m => (d.load scope m).1
  | .execute scope m => if !d.isInitialized then #[] else (d.load scope m).1
  | _ => #[]

/-- The run of a module that is loaded and executed at once begins with the announcement. -/
theorem execute_eq (d : Domain) (fuel : Nat) (scope : Scope) (m : Module) :
    d.execute fuel scope m = (((execute scope m).start d).run fuel).map fun o =>
      { o with effects := (execute scope m).announcement d ++ o.effects } := by
  simp only [Domain.execute, start, announcement]
  split
  · rw [Turn.run_finished]
    rfl
  · obtain ⟨effects, ⟨e, hload⟩ | ⟨_, _, hload⟩⟩ := d.load_cases scope m
    · simp only [hload, Turn.run_finished, Option.map_some, Domain.fail, Array.append_empty]
    · simp only [hload, ← Demand.run_eq, Demand.run]
      cases (d.withModule scope m).executeModule fuel d.moduleCount <;> rfl

end Operation

/-! ## Their events -/

def Demand.events (d : Domain) : Demand → List Event
  | .invoke function _ => Machine.callEvents function
  | .execute id =>
    if !d.isInitialized then []
    else match d.module? id with
      | none => []
      | some m => [.called ⟨id, m.init⟩]
  | .resolve scope name _ => d.lookupEvents scope name

def Operation.events (d : Domain) : Operation → List Event
  | .attach catalog => if d.isInitialized then [] else [.attached catalog]
  | .install => if d.isInitialized then [] else [.installed]
  | .load scope m => d.loadEvents scope m
  | .execute scope m =>
    if !d.isInitialized then []
    else match (d.load scope m).2 with
      | .ok (id, d) => .loaded scope m :: (Demand.execute id).events d
      | .error _ => []
  | .store scope name v => [.stored scope name v]
  | .run demand => demand.events d

/-- A failure that changes nothing. -/
theorem Turn.Leaves.fail {d : Domain} {effects : Effects} (e : VmError) :
    (Turn.finished ⟨d, effects, .error e⟩).Leaves d [] := by
  have hnone : ([] : List VmError).length = ([] : List Purpose).length := rfl
  exact .failed hnone nofun

theorem Demand.start_leaves (d : Domain) (demand : Demand) :
    (demand.start d).Leaves (d.replay (demand.events d)) ((demand.events d).foldl Event.purposes []) := by
  cases demand with
  | invoke function args => exact Machine.call_leaves (m := { domain := d }) function args
  | resolve scope name depth => exact Machine.resolve_leaves { domain := d, base := depth } scope name
  | execute id =>
    simp only [start, events]
    split
    · exact .fail _
    · cases d.module? id with
      | none => exact .fail _
      | some m => exact Machine.enter_leaves { domain := d } .call ⟨id, m.init⟩ []

theorem Operation.start_leaves (d : Domain) (operation : Operation) :
    (operation.start d).Leaves (d.replay (operation.events d)) ((operation.events d).foldl Event.purposes []) := by
  cases operation with
  | attach catalog =>
    simp only [start, events, Domain.setCatalog]
    split
    · exact .fail _
    · exact .returned rfl
  | install =>
    simp only [start, events]
    split
    · rename_i hinstalled
      rw [Domain.install, if_pos hinstalled]
      exact .returned rfl
    · exact .returned rfl
  | load scope m =>
    simp only [start, events, Domain.loadEvents]
    obtain ⟨effects, ⟨e, hload⟩ | ⟨_, _, hload⟩⟩ := d.load_cases scope m
    · rw [hload]
      exact .fail e
    · rw [hload]
      exact .returned rfl
  | execute scope m =>
    simp only [start, events]
    split
    · exact .fail _
    · obtain ⟨effects, ⟨e, hload⟩ | ⟨_, _, hload⟩⟩ := d.load_cases scope m
      · simp only [hload]
        exact .fail e
      · simp only [hload]
        exact Demand.start_leaves (d.withModule scope m) _
  | store scope name v => exact .returned rfl
  | run demand => exact demand.start_leaves d

/-! ## What can happen -/

/-- Whether an event can happen to a domain while frames run for the purposes. -/
def Event.Allowed (d : Domain) (purposes : List Purpose) : Event → Prop
  | .attached _ => d.isInitialized = false ∧ purposes = []
  | .installed => d.isInitialized = false
  | .loaded _ m => ∃ values, Domain.bindings m d.modules.size m.definitions = .ok values
  | .attempted entry symbol requester => d.wanted? requester symbol = some entry
  | .returned purpose => ∃ rest, purposes = purpose :: rest
  | .stored _ _ _ | .called _ | .aged _ => True

/-- Events that can happen one after the other. -/
def Lawful (d : Domain) (purposes : List Purpose) : List Event → Prop
  | [] => True
  | event :: rest => event.Allowed d purposes ∧ Lawful (d.apply event) (event.purposes purposes) rest

namespace Domain

theorem lawful_loadEvents (d : Domain) (purposes : List Purpose) (scope : Scope) (m : Module) :
    Lawful d purposes (d.loadEvents scope m) := by
  unfold loadEvents
  obtain ⟨effects, ⟨e, hload⟩ | ⟨values, hvalues, hload⟩⟩ := d.load_cases scope m
  · rw [hload]
    trivial
  · rw [hload]
    exact ⟨⟨values, hvalues⟩, trivial⟩

theorem lawful_lookupEvents (d : Domain) (purposes : List Purpose) (scope : Scope) (name : String) :
    Lawful d purposes (d.lookupEvents scope name) := by
  unfold lookupEvents
  cases hwanted : d.wanted? scope name with
  | none => trivial
  | some entry =>
    refine ⟨hwanted, ?_⟩
    unfold arrivalEvents
    split
    · exact lawful_loadEvents _ _ _ _
    · trivial

end Domain

namespace Machine

theorem lawful_callEvents (d : Domain) (purposes : List Purpose) (callee : Value) :
    Lawful d purposes (callEvents callee) := by
  cases callee with
  | function f => exact ⟨trivial, trivial⟩
  | _ => trivial

theorem lawful_serveEvents (d : Domain) (f : Frame) (rest : List Purpose) (request : Activation.Request) :
    Lawful d (f.purpose :: rest) (serveEvents d f request) := by
  cases request with
  | proceed => trivial
  | readGlobal name => exact d.lawful_lookupEvents _ _ name
  | writeGlobal name v => exact ⟨trivial, trivial⟩
  | call callee args => exact lawful_callEvents _ _ callee
  | finish v => exact ⟨⟨rest, rfl⟩, trivial⟩

/-- The frame that asks for something is the innermost one. -/
theorem frame_of_asks? {m : Machine} {f : Frame} {request : Activation.Request} (h : m.asks? = some (f, request)) :
    ∃ g rest, m.frames = g :: rest ∧ f.scope = g.scope ∧ f.purpose = g.purpose := by
  unfold asks? at h
  split at h
  · cases h
  · rename_i g rest hframes
    refine ⟨g, rest, hframes, ?_⟩
    split at h
    · cases h
    · cases h
      exact ⟨rfl, rfl⟩
    · split at h
      · cases h
        exact ⟨rfl, rfl⟩
      · cases h

theorem lawful_events (m : Machine) : Lawful m.domain m.purposes m.events := by
  unfold events
  cases hasks : m.asks? with
  | none => trivial
  | some asked =>
    obtain ⟨g, rest, hframes, _, hpurpose⟩ := frame_of_asks? hasks
    rw [purposes, hframes, List.map_cons, ← hpurpose]
    exact lawful_serveEvents _ _ _ _

end Machine

theorem Demand.lawful_events (d : Domain) (demand : Demand) (purposes : List Purpose) :
    Lawful d purposes (demand.events d) := by
  cases demand with
  | invoke function args => exact Machine.lawful_callEvents _ _ function
  | resolve scope name depth => exact d.lawful_lookupEvents _ scope name
  | execute id =>
    simp only [events]
    split
    · trivial
    · split
      · trivial
      · exact ⟨trivial, trivial⟩

theorem Operation.lawful_events (d : Domain) (operation : Operation) : Lawful d [] (operation.events d) := by
  cases operation with
  | attach catalog =>
    simp only [events]
    split
    · trivial
    · rename_i hinstalled
      exact ⟨⟨Bool.eq_false_iff.2 hinstalled, rfl⟩, trivial⟩
  | install =>
    simp only [events]
    split
    · trivial
    · rename_i hinstalled
      exact ⟨Bool.eq_false_iff.2 hinstalled, trivial⟩
  | load scope m => exact d.lawful_loadEvents _ scope m
  | execute scope m =>
    simp only [events]
    split
    · trivial
    · obtain ⟨effects, ⟨e, hload⟩ | ⟨values, hvalues, hload⟩⟩ := d.load_cases scope m
      · simp only [hload]
        trivial
      · simp only [hload]
        exact ⟨⟨values, hvalues⟩, Demand.lawful_events _ _ _⟩
  | store scope name v => exact ⟨trivial, trivial⟩
  | run demand => exact demand.lawful_events d []

/-! ## Lives -/

namespace Turn

def domain : Turn → Domain
  | .running m => m.domain
  | .finished o => o.domain

/-- What the frames run for; a finished turn has no frames. -/
def purposes : Turn → List Purpose
  | .running m => m.purposes
  | .finished _ => []

/-- A turn in which nothing more happens. -/
theorem leaves_self (t : Turn) : t.Leaves t.domain t.purposes := by
  cases t with
  | running m => exact .running rfl rfl
  | finished o =>
    obtain ⟨d, effects, result⟩ := o
    cases result with
    | ok v => exact .returned rfl
    | error e => exact .fail e

/-- The turn when the clock is read again. -/
def aged (elapsed : Nat) : Turn → Turn
  | .running m => .running { m with domain := { m.domain with elapsed } }
  | .finished o => .finished { o with domain := { o.domain with elapsed } }

theorem domain_aged (t : Turn) (elapsed : Nat) : (t.aged elapsed).domain = t.domain.apply (.aged elapsed) := by
  cases t <;> rfl

theorem purposes_aged (t : Turn) (elapsed : Nat) : (t.aged elapsed).purposes = t.purposes := by
  cases t <;> rfl

end Turn

inductive Act where
  | begin (operation : Operation)
  | step
  | wait (elapsed : Nat)

/-- A domain in use: the turn it is at, and the record of what has happened to it. -/
structure Life where
  turn : Turn
  record : List Event := []

namespace Life

/-- A new domain. -/
def new (options : DomainOptions) : Life :=
  { turn := .finished ⟨{ options }, #[], .ok .undefined⟩ }

/-- An operation can begin when no code runs, and only running code makes steps. -/
def act (life : Life) : Act → Life
  | .begin operation =>
    match life.turn with
    | .finished o => ⟨operation.start o.domain, life.record ++ operation.events o.domain⟩
    | .running _ => life
  | .step =>
    match life.turn with
    | .running m => ⟨m.step, life.record ++ m.events⟩
    | .finished _ => life
  | .wait elapsed => ⟨life.turn.aged elapsed, life.record ++ [.aged elapsed]⟩

def after (life : Life) (acts : List Act) : Life :=
  acts.foldl act life

theorem after_cons (life : Life) (act : Act) (acts : List Act) :
    life.after (act :: acts) = (life.act act).after acts := rfl

theorem act_begin_of_finished {o : Outcome Value} {record : List Event} (operation : Operation) :
    act ⟨.finished o, record⟩ (.begin operation) =
      ⟨operation.start o.domain, record ++ operation.events o.domain⟩ := rfl

theorem act_step_of_running {m : Machine} {record : List Event} :
    act ⟨.running m, record⟩ .step = ⟨m.step, record ++ m.events⟩ := rfl

theorem act_step_of_finished {o : Outcome Value} {record : List Event} :
    act ⟨.finished o, record⟩ .step = ⟨.finished o, record⟩ := rfl

/-- What an act adds to the record can happen, and is what it does to the domain. -/
theorem act_leaves (life : Life) (act : Act) : ∃ events, (life.act act).record = life.record ++ events ∧
    Lawful life.turn.domain life.turn.purposes events ∧
    (life.act act).turn.Leaves (life.turn.domain.replay events) (events.foldl Event.purposes life.turn.purposes) := by
  obtain ⟨turn, record⟩ := life
  have hidle : turn.Leaves turn.domain turn.purposes := turn.leaves_self
  cases act with
  | begin operation =>
    cases turn with
    | running m => exact ⟨[], (List.append_nil _).symm, trivial, hidle⟩
    | finished o => exact ⟨_, rfl, operation.lawful_events o.domain, operation.start_leaves o.domain⟩
  | step =>
    cases turn with
    | running m => exact ⟨_, rfl, m.lawful_events, m.step_leaves⟩
    | finished o => exact ⟨[], (List.append_nil _).symm, trivial, hidle⟩
  | wait elapsed =>
    have haged := (turn.aged elapsed).leaves_self
    rw [Turn.domain_aged, Turn.purposes_aged] at haged
    exact ⟨[.aged elapsed], rfl, ⟨trivial, trivial⟩, haged⟩

theorem record_act (life : Life) (act : Act) : life.record <+: (life.act act).record := by
  obtain ⟨events, hrecord, _⟩ := life.act_leaves act
  exact ⟨events, hrecord.symm⟩

/-- What has happened stays on record. -/
theorem record_after (life : Life) (acts : List Act) : life.record <+: (life.after acts).record := by
  induction acts generalizing life with
  | nil => exact List.prefix_rfl
  | cons act acts ih => exact (life.record_act act).trans (ih _)

theorem after_append (life : Life) (acts more : List Act) :
    life.after (acts ++ more) = (life.after acts).after more :=
  List.foldl_append

/-- A run is a sequence of steps. -/
theorem turn_of_run {life : Life} {fuel : Nat} {o : Outcome Value} (h : life.turn.run fuel = some o) :
    (life.after (List.replicate fuel .step)).turn = .finished o := by
  induction fuel generalizing life with
  | zero =>
    obtain ⟨turn, record⟩ := life
    cases turn with
    | running m => cases h
    | finished o' => exact congrArg _ (Option.some.inj h)
  | succ fuel ih =>
    rw [List.replicate_succ, after_cons]
    obtain ⟨turn, record⟩ := life
    cases turn with
    | running m =>
      rw [act_step_of_running]
      exact ih h
    | finished o' =>
      rw [act_step_of_finished]
      exact ih ((Turn.run_finished o' fuel).trans ((Turn.run_finished o' (fuel + 1)).symm.trans h))

end Life

/-! ## What is kept -/

/-- A fact about a domain, what its frames run for and its record that every event keeps, and every error that leaves
a frame. -/
structure Kept (P : Domain → List Purpose → List Event → Prop) : Prop where
  event {d purposes record} : P d purposes record → ∀ event : Event, event.Allowed d purposes →
    P (d.apply event) (event.purposes purposes) (record ++ [event])
  left {d purpose purposes record} : P d (purpose :: purposes) record → ∀ e, P (purpose.failed d e) purposes record

namespace Kept

variable {P : Domain → List Purpose → List Event → Prop} {d : Domain} {purposes : List Purpose} {record : List Event}
variable {life : Life}

theorem replay (kept : Kept P) (h : P d purposes record) {events : List Event} (hlawful : Lawful d purposes events) :
    P (d.replay events) (events.foldl Event.purposes purposes) (record ++ events) := by
  induction events generalizing d purposes record with
  | nil => rwa [List.append_nil]
  | cons event events ih =>
    have hrest := ih (kept.event h event hlawful.1) hlawful.2
    rwa [List.append_assoc] at hrest

theorem unwind (kept : Kept P) (h : P d purposes record) {errors : List VmError}
    (hlength : errors.length = purposes.length) : P (d.unwind (purposes.zip errors)) [] record := by
  induction purposes generalizing d errors with
  | nil => exact h
  | cons purpose purposes ih =>
    cases errors with
    | nil => cases hlength
    | cons e errors => exact ih (kept.left h e) (Nat.succ.inj hlength)

theorem leaves (kept : Kept P) (h : P d purposes record) {t : Turn} (hleaves : t.Leaves d purposes) :
    P t.domain t.purposes record := by
  cases hleaves with
  | running hdomain hpurposes => rwa [← hdomain, ← hpurposes] at h
  | returned hpurposes => rwa [hpurposes] at h
  | failed hlength hlast => exact kept.unwind h hlength

theorem act (kept : Kept P) (h : P life.turn.domain life.turn.purposes life.record) (act : Act) :
    P (life.act act).turn.domain (life.act act).turn.purposes (life.act act).record := by
  obtain ⟨events, hrecord, hlawful, hleaves⟩ := life.act_leaves act
  rw [hrecord]
  exact kept.leaves (kept.replay h hlawful) hleaves

/-- What is kept holds on. -/
theorem after (kept : Kept P) (h : P life.turn.domain life.turn.purposes life.record) (acts : List Act) :
    P (life.after acts).turn.domain (life.after acts).turn.purposes (life.after acts).record := by
  induction acts generalizing life with
  | nil => exact h
  | cons act acts ih => exact ih (kept.act h act)

/-- What holds of a new domain, and is kept, holds all through its life. -/
theorem holds (kept : Kept P) {options : DomainOptions} (hnew : P { options } [] []) (acts : List Act) :
    P ((Life.new options).after acts).turn.domain ((Life.new options).after acts).turn.purposes
      ((Life.new options).after acts).record := by
  have hstart : P (Life.new options).turn.domain (Life.new options).turn.purposes (Life.new options).record := hnew
  exact kept.after hstart acts

end Kept

end MovieVm
