import MovieVm.Proofs.Lives

/-!
# Who changes a scope

Code stores into the scope of its own frame, whatever scope its callers belong to and wherever the name is defined,
and catalog entries are loaded into the system scope. A scope that no frame belongs to and no entry is loaded into
comes out of a run as it went in.
-/

namespace MovieVm

open Bytecode

variable {d : Domain} {scope own : Scope} {event : Event}

/-! ## Events -/

/-- Whether an event can change the globals or the modules of a scope. -/
def Event.Touches (scope : Scope) : Event → Prop
  | .installed => scope = .system
  | .stored target _ _ | .loaded target _ => target = scope
  | _ => False

/-- A module that is loaded into the system scope. -/
def Event.IsSystemLoad (event : Event) : Prop :=
  ∃ m, event = .loaded .system m

namespace Domain

theorem scope_updateScope {target : Scope} (h : target ≠ scope) (f : Namespace → Namespace) :
    (d.updateScope target f).scope scope = d.scope scope := by
  cases target with
  | system =>
    cases scope with
    | system => exact absurd rfl h
    | application => rfl
  | application =>
    cases scope with
    | system => rfl
    | application => exact absurd rfl h

theorem scope_withModule {target : Scope} (h : target ≠ scope) (m : Module) :
    (d.withModule target m).scope scope = d.scope scope := by
  unfold withModule
  cases bindings m d.modules.size m.definitions with
  | error e => rfl
  | ok values => exact scope_updateScope h _

theorem application_install (d : Domain) : d.install.application = d.application := by
  unfold install
  cases d.isInitialized <;> rfl

/-- An event changes only what it touches. -/
theorem scope_apply (h : ¬ event.Touches scope) : (d.apply event).scope scope = d.scope scope := by
  cases event with
  | installed =>
    cases scope with
    | system => exact absurd rfl h
    | application => exact d.application_install
  | stored target name v => exact scope_updateScope h _
  | loaded target m => exact scope_withModule h m
  | _ => cases scope <;> rfl

theorem scope_replay {events : List Event} (h : ∀ event ∈ events, ¬ event.Touches scope) :
    (d.replay events).scope scope = d.scope scope := by
  induction events generalizing d with
  | nil => rfl
  | cons event events ih =>
    obtain ⟨hevent, hevents⟩ := List.forall_mem_cons.1 h
    exact (ih hevents).trans (scope_apply hevent)

theorem scope_failed (d : Domain) (purpose : Purpose) (e : VmError) :
    (purpose.failed d e).scope scope = d.scope scope := by
  cases purpose <;> cases scope <;> rfl

theorem scope_unwind (d : Domain) (left : List (Purpose × VmError)) :
    (d.unwind left).scope scope = d.scope scope := by
  induction left generalizing d with
  | nil => rfl
  | cons entry left ih => exact (ih _).trans (d.scope_failed _ _)

theorem lookupEvents_touches {requester : Scope} {name : String} (hevent : event ∈ d.lookupEvents requester name)
    (htouches : event.Touches scope) : event.IsSystemLoad ∧ scope = .system := by
  unfold lookupEvents at hevent
  split at hevent
  · rename_i entry _
    obtain rfl | hevent := List.mem_cons.1 hevent
    · exact htouches.elim
    · unfold arrivalEvents at hevent
      split at hevent
      · rename_i m _
        unfold loadEvents at hevent
        split at hevent
        · obtain rfl := List.mem_singleton.1 hevent
          exact ⟨⟨m, rfl⟩, htouches.symm⟩
        · cases hevent
      · cases hevent
  · cases hevent

end Domain

theorem Turn.Leaves.scope_domain {purposes : List Purpose} {t : Turn} (h : t.Leaves d purposes) (scope : Scope) :
    t.domain.scope scope = d.scope scope := by
  cases h with
  | running hdomain hpurposes => rw [← hdomain, Turn.domain]
  | returned hpurposes => rfl
  | failed hlength hlast => exact d.scope_unwind _

/-! ## Steps -/

theorem Machine.callEvents_touches {callee : Value} (hevent : event ∈ callEvents callee) : ¬ event.Touches scope := by
  cases callee with
  | function f =>
    obtain rfl := List.mem_singleton.1 hevent
    exact id
  | _ => cases hevent

/-- A frame touches its own scope, unless its lookup has an entry loaded. -/
theorem Machine.serveEvents_touches {f : Frame} {request : Activation.Request}
    (hevent : event ∈ serveEvents d f request) (htouches : event.Touches scope) :
    f.scope = scope ∨ event.IsSystemLoad ∧ scope = .system := by
  cases request with
  | proceed => cases hevent
  | readGlobal name => exact .inr (Domain.lookupEvents_touches hevent htouches)
  | writeGlobal name v =>
    obtain rfl := List.mem_singleton.1 hevent
    exact .inl htouches
  | call callee args => exact absurd htouches (callEvents_touches hevent)
  | finish v =>
    obtain rfl := List.mem_singleton.1 hevent
    exact htouches.elim

theorem Machine.events_touches {m : Machine} (hown : ∀ f ∈ m.frames, f.scope = own) (hevent : event ∈ m.events)
    (htouches : event.Touches scope) : own = scope ∨ event.IsSystemLoad ∧ scope = .system := by
  unfold events at hevent
  cases hasks : m.asks? with
  | none =>
    rw [hasks] at hevent
    cases hevent
  | some asked =>
    rw [hasks] at hevent
    obtain ⟨g, rest, hframes, hscope, _⟩ := frame_of_asks? hasks
    have hg := hown g (hframes ▸ List.mem_cons_self)
    rw [← hg, ← hscope]
    exact serveEvents_touches hevent htouches

theorem Demand.events_touches {demand : Demand} (hevent : event ∈ demand.events d) (htouches : event.Touches scope) :
    event.IsSystemLoad ∧ scope = .system := by
  cases demand with
  | invoke function args => exact absurd htouches (Machine.callEvents_touches hevent)
  | resolve requester name depth => exact Domain.lookupEvents_touches hevent htouches
  | execute id =>
    simp only [events] at hevent
    split at hevent
    · cases hevent
    · split at hevent
      · cases hevent
      · obtain rfl := List.mem_singleton.1 hevent
        exact htouches.elim

/-! ## Runs -/

/-- While all frames belong to one scope, the other changes by loads of entries only. -/
theorem Life.scope_of_staysIn {life : Life} {steps : Nat} (hscope : own ≠ scope)
    (hstays : life.turn.staysIn own steps = true)
    (hloads : ∀ event ∈ (life.after (List.replicate steps .step)).record, event.IsSystemLoad → scope ≠ .system) :
    (life.after (List.replicate steps .step)).turn.domain.scope scope = life.turn.domain.scope scope := by
  induction steps generalizing life with
  | zero => rfl
  | succ steps ih =>
    rw [List.replicate_succ, after_cons] at hloads ⊢
    obtain ⟨turn, record⟩ := life
    cases turn with
    | finished o =>
      rw [act_step_of_finished] at hloads ⊢
      refine ih (Eq.trans ?_ hstays) hloads
      cases steps <;> rfl
    | running m =>
      obtain ⟨hframes, hstays⟩ := Bool.and_eq_true_iff.1 hstays
      rw [act_step_of_running] at hloads ⊢
      refine (ih hstays hloads).trans ((m.step_leaves.scope_domain scope).trans ?_)
      refine Domain.scope_replay fun event hevent htouches => ?_
      have hown : ∀ f ∈ m.frames, f.scope = own := fun f hf =>
        of_decide_eq_true (List.all_eq_true.1 hframes f hf)
      obtain hsame | ⟨hload, hsystem⟩ := Machine.events_touches hown hevent htouches
      · exact hscope hsame
      · have hrecorded := (record_after ⟨m.step, record ++ m.events⟩ (List.replicate steps .step)).subset
          (List.mem_append_right _ hevent)
        exact hloads event hrecorded hload hsystem

/-- The run of a demand, from its first turn on. -/
def Demand.life (d : Domain) (demand : Demand) : Life :=
  ⟨demand.start d, demand.events d⟩

/-- What happens in a run. -/
def Demand.record (d : Domain) (fuel : Nat) (demand : Demand) : List Event :=
  ((demand.life d).after (List.replicate fuel .step)).record

theorem Demand.scope_of_staysIn {demand : Demand} {fuel : Nat} {o : Outcome Value} (hscope : own ≠ scope)
    (hrun : demand.run d fuel = some o) (hstays : (demand.start d).staysIn own fuel = true)
    (hloads : ∀ event ∈ demand.record d fuel, event.IsSystemLoad → scope ≠ .system) :
    o.domain.scope scope = d.scope scope := by
  have hturn : ((demand.life d).after (List.replicate fuel .step)).turn = .finished o :=
    Life.turn_of_run (by rw [← hrun, demand.run_eq]; rfl)
  have hlife : (demand.life d).turn.staysIn own fuel = true := hstays
  have hsteps := Life.scope_of_staysIn hscope hlife hloads
  rw [hturn] at hsteps
  refine hsteps.trans (((demand.start_leaves d).scope_domain scope).trans ?_)
  refine Domain.scope_replay fun event hevent htouches => ?_
  obtain ⟨hload, hsystem⟩ := demand.events_touches hevent htouches
  exact hloads event (((demand.life d).record_after _).subset hevent) hload hsystem

/-- A run that enters no frame of the system and loads no entry leaves the system scope as it was; one that enters no
frame of the application leaves the application's. -/
theorem stores_stay_in_scope (d : Domain) (demand : Demand) (fuel : Nat) (o : Outcome Value)
    (hrun : demand.run d fuel = some o) :
    ((demand.start d).staysIn .application fuel = true → (∀ m, .loaded .system m ∉ demand.record d fuel) →
      o.domain.system = d.system) ∧
    ((demand.start d).staysIn .system fuel = true → o.domain.application = d.application) := by
  constructor
  · intro hstays hloads
    have hscope : Scope.application ≠ .system := nofun
    refine demand.scope_of_staysIn hscope hrun hstays ?_
    rintro _ hevent ⟨m, rfl⟩
    exact absurd hevent (hloads m)
  · intro hstays
    have hscope : Scope.system ≠ .application := nofun
    exact demand.scope_of_staysIn hscope hrun hstays fun _ _ _ => nofun

/-- A module whose initializer gives the name of a native another value. -/
def usurper : Module where
  label := "usurper"
  minorVersion := supportedMinor
  majorVersion := supportedMajor
  constants := #[.string "usurper", .string "trace"]
  methods := #[{ name := 0, params := 0, locals := 0, code := #[.pushString 0, .setGlobal 1, .returnVoid] }]
  definitions := []
  init := 0

def usurpedDomain : Domain :=
  reporterDomain.withModule .application usurper

/-- The usurper leaves the system's trace alone, and what the reporter keeps is not kept in the application. -/
theorem usurper_and_reporter_stay :
    (∃ o, (Demand.execute 0).run usurpedDomain 10 = some o ∧
      ((Demand.execute 0).start usurpedDomain).staysIn .application 10 = true ∧
      (∀ m, .loaded .system m ∉ (Demand.execute 0).record usurpedDomain 10) ∧
      o.domain.system = usurpedDomain.system) ∧
    ∃ o, reporterDemand.run usurpedDomain 10 = some o ∧
      (reporterDemand.start usurpedDomain).staysIn .system 10 = true ∧
      o.domain.application = usurpedDomain.application := by
  constructor
  · obtain ⟨o, hrun⟩ := Option.isSome_iff_exists.1
      (by decide +kernel : ((Demand.execute 0).run usurpedDomain 10).isSome = true)
    have hstays : ((Demand.execute 0).start usurpedDomain).staysIn .application 10 = true := by decide +kernel
    have hrecord : (Demand.execute 0).record usurpedDomain 10 =
        [.called ⟨0, 0⟩, .stored .application "trace" (.string "usurper"), .returned .call] := rfl
    have hloads : ∀ m, .loaded .system m ∉ (Demand.execute 0).record usurpedDomain 10 := by
      intro m
      rw [hrecord]
      simp
    exact ⟨o, hrun, hstays, hloads, (stores_stay_in_scope usurpedDomain _ 10 o hrun).1 hstays hloads⟩
  · obtain ⟨o, hrun⟩ := Option.isSome_iff_exists.1
      (by decide +kernel : (reporterDemand.run usurpedDomain 10).isSome = true)
    have hstays : (reporterDemand.start usurpedDomain).staysIn .system 10 = true := by decide +kernel
    exact ⟨o, hrun, hstays, (stores_stay_in_scope usurpedDomain _ 10 o hrun).2 hstays⟩

end MovieVm
