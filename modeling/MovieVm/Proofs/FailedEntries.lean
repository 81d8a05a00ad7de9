import MovieVm.Proofs.CatalogLoads
import MovieVm.Proofs.VisibleNames

/-!
# Failed entries

The mark of a failed entry keeps the error of its load for good. But a lookup consults the globals first, and a module
has bound its definitions already when its initializer fails. So it is the other symbols of a failed entry that are
answered with its error; those that the half-initialized module defines have their values from then on.
-/

namespace MovieVm

open Bytecode

variable {d : Domain} {purposes : List Purpose} {record : List Event} {entry : Nat} {e : VmError}

/-! ## The mark stays -/

/-- An entry that has failed is neither attempted nor being loaded. -/
theorem kept_failed (entry : Nat) (e : VmError) : Kept fun d purposes record =>
    Orderly d purposes record ∧ d.mark? entry = some (.failed e) where
  event {d purposes record} h event hallowed := by
    obtain ⟨horderly, hmark⟩ := h
    refine ⟨kept_orderly.event horderly event hallowed, ?_⟩
    cases event with
    | attempted other symbol requester =>
      have hother : entry ≠ other := by
        rintro rfl
        rw [(Domain.wanted?_eq_some.1 hallowed).2.2] at hmark
        cases hmark
      rw [Domain.apply, Domain.mark?_setMark_of_ne _ hother, hmark]
    | _ => exact (congrFun (d.mark?_apply rfl) entry).trans hmark
  left {d purpose purposes record} h e' := by
    obtain ⟨horderly, hmark⟩ := h
    refine ⟨horderly.left e', ?_⟩
    cases purpose with
    | call => exact hmark
    | catalogEntry other symbol requester =>
      have hother : entry ≠ other := by
        rintro rfl
        rw [(horderly.loaded entry).2 (.inl List.mem_cons_self)] at hmark
        cases hmark
      rw [Purpose.failed, Domain.mark?_setMark_of_ne _ hother, hmark]

/-! ## A load that fails -/

/-- The outermost frame stays until it returns. -/
theorem getLast?_foldl {purpose : Purpose} {events : List Event} (hlawful : Lawful d purposes events)
    (hlast : purposes.getLast? = some purpose) :
    (events.foldl Event.purposes purposes).getLast? = some purpose ∨ .returned purpose ∈ events := by
  induction events generalizing d purposes with
  | nil => exact .inl hlast
  | cons event events ih =>
    obtain ⟨hevent, hevents⟩ := hlawful
    have hnext : (event.purposes purposes).getLast? = some purpose ∨ event = .returned purpose := by
      cases event with
      | called function => exact .inl (by rw [Event.purposes, List.getLast?_cons, hlast, Option.getD_some])
      | attempted other symbol requester =>
        exact .inl (by rw [Event.purposes, List.getLast?_cons, hlast, Option.getD_some])
      | returned inner =>
        obtain ⟨rest, rfl⟩ := hevent
        cases rest with
        | nil => exact .inr (congrArg _ (Option.some.inj hlast))
        | cons next rest => exact .inl hlast
      | _ => exact .inl hlast
    obtain hnext | rfl := hnext
    · exact (ih hevents hnext).imp_right (List.mem_cons_of_mem _)
    · exact .inr List.mem_cons_self

/-- The error of the outermost frame is the one its entry is marked with. -/
theorem Domain.mark?_unwind {symbol : String} {requester : Scope} {errors : List VmError}
    (hlength : errors.length = purposes.length)
    (hlast : purposes.getLast? = some (.catalogEntry entry symbol requester)) :
    ∃ e, errors.getLast? = some e ∧ (d.unwind (purposes.zip errors)).mark? entry = some (.failed e) := by
  induction purposes generalizing d errors with
  | nil => cases hlast
  | cons purpose purposes ih =>
    cases errors with
    | nil => cases hlength
    | cons e errors =>
      cases purposes with
      | nil =>
        obtain rfl := Option.some.inj hlast
        obtain rfl := List.length_eq_zero_iff.1 (Nat.succ.inj hlength)
        refine ⟨e, rfl, ?_⟩
        rw [List.zip_cons_cons, List.zip_nil_left, unwind, unwind, Purpose.failed, mark?_failed]
      | cons next purposes =>
        obtain ⟨last, herrors, hmark⟩ := ih (d := purpose.failed d e) (Nat.succ.inj hlength) hlast
        refine ⟨last, ?_, hmark⟩
        rw [List.getLast?_cons, herrors, Option.getD_some]

namespace Life

/-- How far the load of an entry has come that the outermost frame is there for. -/
inductive Loads (entry : Nat) (symbol : String) (requester : Scope) (life : Life) : Prop where
  | running (h : life.turn.purposes.getLast? = some (.catalogEntry entry symbol requester))
  | complete (h : entry ∈ completions life.record)
  | failed {o : Outcome Value} {e : VmError} (hturn : life.turn = .finished o) (hresult : o.result = .error e)
    (hmark : o.domain.mark? entry = some (.failed e))

variable {life : Life} {symbol : String} {requester : Scope}

theorem mem_completions {purpose : Purpose} (hevent : .returned purpose ∈ record)
    (hentry : purpose.entry? = some entry) : entry ∈ completions record :=
  List.mem_filterMap.2 ⟨.returned purpose, hevent, hentry⟩

/-- The load goes on, or it is over. -/
theorem Loads.of_leaves {t : Turn} {events : List Event} (hlawful : Lawful d purposes events)
    (hlast : purposes.getLast? = some (.catalogEntry entry symbol requester))
    (hleaves : t.Leaves (d.replay events) (events.foldl Event.purposes purposes)) :
    Loads entry symbol requester ⟨t, record ++ events⟩ := by
  obtain hlast | hreturned := getLast?_foldl hlawful hlast
  · generalize hafter : events.foldl Event.purposes purposes = after at hleaves hlast
    cases hleaves with
    | running hdomain hpurposes => exact .running (by rwa [Turn.purposes, hpurposes])
    | returned hpurposes =>
      rw [hpurposes] at hlast
      cases hlast
    | failed hlength herror =>
      obtain ⟨last, hgetLast, hmark⟩ := Domain.mark?_unwind hlength hlast
      rw [herror last hgetLast] at hmark
      exact .failed rfl rfl hmark
  · exact .complete (mem_completions (List.mem_append_right _ hreturned) rfl)

theorem Loads.act (h : life.Loads entry symbol requester) {act : Act} (hact : ∀ operation, act ≠ .begin operation) :
    (life.act act).Loads entry symbol requester := by
  obtain ⟨turn, record⟩ := life
  cases h with
  | complete hcomplete =>
    obtain ⟨more, hmore⟩ := record_act ⟨turn, record⟩ act
    refine .complete ?_
    rw [← hmore, completions, List.filterMap_append]
    exact List.mem_append_left _ hcomplete
  | running hlast =>
    cases turn with
    | finished o => cases hlast
    | running m =>
      cases act with
      | begin operation => exact absurd rfl (hact operation)
      | step => exact .of_leaves m.lawful_events hlast m.step_leaves
      | wait elapsed => exact .running hlast
  | failed hturn hresult hmark =>
    cases hturn
    cases act with
    | begin operation => exact absurd rfl (hact operation)
    | step => exact .failed rfl hresult hmark
    | wait elapsed => exact .failed rfl hresult hmark

theorem Loads.after (h : life.Loads entry symbol requester) {acts : List Act}
    (hacts : ∀ operation, .begin operation ∉ acts) : (life.after acts).Loads entry symbol requester := by
  induction acts generalizing life with
  | nil => exact h
  | cons act acts ih =>
    have hact : ∀ operation, act ≠ .begin operation := fun operation hsame =>
      hacts operation (hsame ▸ List.mem_cons_self)
    exact ih (h.act hact) fun operation hmem => hacts operation (List.mem_cons_of_mem _ hmem)

/-- The lookup of a symbol begins with the load of its entry. -/
theorem loads_of_begin {o : Outcome Value} (hidle : life.turn = .finished o)
    (hwanted : o.domain.wanted? requester symbol = some entry) (depth : Nat) :
    (life.act (.begin (.run (.resolve requester symbol depth)))).Loads entry symbol requester := by
  obtain ⟨turn, record⟩ := life
  cases hidle
  have hevents : (Operation.run (.resolve requester symbol depth)).events o.domain =
      o.domain.attemptEvents entry symbol requester := by
    simp only [Operation.events, Demand.events, Domain.lookupEvents, hwanted]
  have hlawful := (Operation.run (.resolve requester symbol depth)).lawful_events o.domain
  have hleaves := (Operation.run (.resolve requester symbol depth)).start_leaves o.domain
  rw [act_begin_of_finished, hevents]
  rw [hevents] at hlawful hleaves
  -- The first event is the attempt; the frame for it is the outermost one.
  have hloads : Loads entry symbol requester ⟨_, (record ++ [.attempted entry symbol requester]) ++ _⟩ :=
    .of_leaves hlawful.2 rfl hleaves
  rwa [List.append_assoc] at hloads

/-- From an idle moment on, a lookup has an entry loaded, and that fails with an error. -/
structure FailedLoad (before after : Life) (entry : Nat) (e : VmError) : Prop where
  idle : ∃ o, before.turn = .finished o
  run : ∃ scope symbol depth during, before.turn.domain.wanted? scope symbol = some entry ∧
    (∀ operation, .begin operation ∉ during) ∧
    after = before.after (.begin (.run (.resolve scope symbol depth)) :: during)
  result : ∃ o, after.turn = .finished o ∧ o.result = .error e
  incomplete : entry ∉ completions after.record

/-- The entry is marked with the error of the lookup. -/
theorem FailedLoad.mark {before after : Life} (h : before.FailedLoad after entry e) :
    after.turn.domain.mark? entry = some (.failed e) := by
  obtain ⟨⟨o, hidle⟩, ⟨scope, symbol, depth, during, hwanted, hduring, rfl⟩, ⟨o', hturn, hresult⟩, hincomplete⟩ := h
  rw [hidle] at hwanted
  have hloads := (loads_of_begin hidle hwanted depth).after hduring
  rw [after_cons] at hturn hincomplete ⊢
  cases hloads with
  | running hlast =>
    rw [hturn] at hlast
    cases hlast
  | complete hcomplete => exact absurd hcomplete hincomplete
  | failed hturn' hresult' hmark =>
    rw [hturn']
    obtain rfl : o' = _ := Turn.finished.inj (hturn.symm.trans hturn')
    rw [hresult] at hresult'
    obtain rfl := Except.error.inj hresult'
    exact hmark

end Life

/-! ## Later lookups -/

/-- The answer to a lookup of a symbol whose entry has failed. -/
theorem Domain.lookup_of_failed {scope : Scope} {symbol : String} (hentry : d.entryFor? symbol = some entry)
    (hmark : d.mark? entry = some (.failed e)) :
    d.lookup scope symbol = .error e ↔ (d.getGlobal? scope symbol).isSome = false := by
  unfold lookup
  cases d.getGlobal? scope symbol with
  | some v => simp
  | none => simp [hentry, hmark]

theorem Domain.wanted?_of_marked {scope : Scope} {symbol : String} {mark : EntryMark}
    (hentry : d.entryFor? symbol = some entry) (hmark : d.mark? entry = some mark) : d.wanted? scope symbol = none := by
  cases hwanted : d.wanted? scope symbol with
  | none => rfl
  | some other =>
    obtain ⟨_, hother, hfree⟩ := Domain.wanted?_eq_some.1 hwanted
    obtain rfl := Option.some.inj (hentry.symm.trans hother)
    rw [hmark] at hfree
    cases hfree

/-- Code that asks for a symbol of a failed entry gets the answer at once, and no load begins. -/
theorem Machine.resolve_of_failed {m : Machine} {scope : Scope} {symbol : String}
    (hentry : m.domain.entryFor? symbol = some entry) (hmark : m.domain.mark? entry = some (.failed e)) :
    m.resolve scope symbol = m.deliver (m.domain.lookup scope symbol) :=
  resolve_of_not_wanted (Domain.wanted?_of_marked hentry hmark)

namespace Life

/-- In a life of a new domain a failed entry stays failed. -/
theorem mark_after (options : DomainOptions) (acts more : List Act)
    (hmark : ((Life.new options).after acts).turn.domain.mark? entry = some (.failed e)) :
    (((Life.new options).after acts).after more).turn.domain.mark? entry = some (.failed e) :=
  ((kept_failed entry e).after ⟨Life.orderly options acts, hmark⟩ more).2

/-- What has happened since an earlier moment. -/
def since (before after : Life) : List Event :=
  after.record.drop before.record.length

theorem record_eq_append_since {before after : Life} (h : before.record <+: after.record) :
    after.record = before.record ++ before.since after := by
  obtain ⟨events, hevents⟩ := h
  rw [since, ← hevents, List.drop_left]

/-- A name that was not visible, and has not been stored since, is visible when a definition of it has come in. -/
theorem visible_since {options : DomainOptions} {acts more : List Act} {before after : Life} {scope : Scope}
    {name : String} (hbefore : before = (Life.new options).after acts) (hafter : after = before.after more)
    (hhidden : before.turn.domain.getGlobal? scope name = none)
    (hstores : ∀ event ∈ before.since after, ¬ event.Stores scope name) :
    (after.turn.domain.getGlobal? scope name).isSome ↔ ∃ event ∈ before.since after, event.Defines scope name := by
  have hunbound : ¬ ∃ event ∈ before.record, event.Binds scope name := by
    rw [hbefore] at hhidden ⊢
    rw [← Life.visible, hhidden]
    exact nofun
  have hrecord : after.record = before.record ++ before.since after :=
    record_eq_append_since (hafter ▸ before.record_after more)
  have hvisible := Life.visible options (acts ++ more) scope name
  rw [after_append, ← hbefore, ← hafter, hrecord] at hvisible
  rw [hvisible]
  constructor
  · rintro ⟨event, hevent, hbinds⟩
    obtain hearlier | hlater := List.mem_append.1 hevent
    · exact absurd ⟨event, hearlier, hbinds⟩ hunbound
    · exact ⟨event, hlater, hbinds.resolve_left (hstores event hlater)⟩
  · rintro ⟨event, hevent, hdefines⟩
    exact ⟨event, List.mem_append_right _ hevent, .inr hdefines⟩

end Life

/-- When the load of an entry has failed with an error, the entry keeps that error for good, and no lookup has it
loaded again. A symbol of the entry that was not visible before the load, and that nothing has stored since, is answered
with this same error exactly as long as no definition of it has come in; the module of the entry can have brought one. -/
theorem failed_entry_answers (options : DomainOptions) (acts more : List Act) (failed : Life) (entry : Nat)
    (e : VmError) (hfailed : ((Life.new options).after acts).FailedLoad failed entry e) :
    let before := (Life.new options).after acts
    let since := before.since (failed.after more)
    let d := (failed.after more).turn.domain
    d.mark? entry = some (.failed e) ∧ ∀ scope symbol, d.entryFor? symbol = some entry →
      (∀ m : Machine, m.domain = d → m.resolve scope symbol = m.deliver (d.lookup scope symbol)) ∧
      (before.turn.domain.getGlobal? scope symbol = none → (∀ event ∈ since, ¬ event.Stores scope symbol) →
        (d.lookup scope symbol = .error e ↔ ∀ event ∈ since, ¬ event.Defines scope symbol)) := by
  intro before since d
  obtain ⟨_, _, _, during, _, _, hrun⟩ := hfailed.run
  have hmark : d.mark? entry = some (.failed e) := by
    have hfirst := hfailed.mark
    rw [hrun, ← Life.after_append] at hfirst
    have hlater := Life.mark_after options _ more hfirst
    rwa [Life.after_append, ← hrun] at hlater
  refine ⟨hmark, fun scope symbol hentry => ⟨fun m hm => ?_, fun hhidden hstores => ?_⟩⟩
  · rw [← hm] at hentry hmark ⊢
    exact Machine.resolve_of_failed hentry hmark
  · have hafter := congrArg (Life.after · more) hrun
    rw [← Life.after_append] at hafter
    rw [Domain.lookup_of_failed hentry hmark, ← Bool.not_eq_true, Life.visible_since rfl hafter hhidden hstores]
    exact ⟨fun h event hevent hdefines => h ⟨event, hevent, hdefines⟩, fun h ⟨event, hevent, hdefines⟩ =>
      h event hevent hdefines⟩

/-- A module that defines a slot, and whose initializer throws. -/
def half : Module where
  label := "half"
  minorVersion := supportedMinor
  majorVersion := supportedMajor
  constants := #[.string "init", .string "boom", .string "Half", .int 7]
  methods := #[{ name := 0, params := 0, locals := 0, code := #[.pushString 1, .throw] }]
  definitions := [⟨2, .slot (some 3)⟩]
  init := 0

/-- A catalog with this module, and with a symbol for it that the module does not define. -/
def halfCatalog : Catalog :=
  ⟨half.encode, [⟨"half.abc", 0, half.encode.length, ["Half", "Rest"]⟩]⟩

def halfError : VmError :=
  { kind := .error, message := "boom", stack := [⟨"init", "half.abc", 1⟩] }

/-- The symbol that the module does not define is answered with the error of the load. -/
theorem half_rest_keeps_error :
    let before := (Life.new { release := true }).after [.begin (.attach halfCatalog)]
    let failed := before.after (.begin (.run (.resolve .application "Half" 0)) :: List.replicate 2 .step)
    before.FailedLoad failed 0 halfError ∧
      failed.turn.domain.mark? 0 = some (.failed halfError) ∧
      failed.turn.domain.lookup .system "Rest" = .error halfError := by
  intro before failed
  have hresult : ((Demand.resolve .application "Half" 0).run before.turn.domain 2).map (·.result) =
      some (.error halfError) := by decide +kernel
  obtain ⟨o, hrun, hresult⟩ := Option.map_eq_some_iff.1 hresult
  have hturn : failed.turn = .finished o := Life.turn_of_run hrun
  have hduring : ∀ operation, .begin operation ∉ List.replicate 2 Act.step := by simp
  have hfailed : before.FailedLoad failed 0 halfError :=
    ⟨⟨_, rfl⟩, ⟨.application, "Half", 0, _, by decide +kernel, hduring, rfl⟩, ⟨o, hturn, hresult⟩, by decide +kernel⟩
  obtain ⟨hmark, hlookups⟩ := failed_entry_answers _ _ [] failed 0 halfError hfailed
  obtain ⟨_, hanswer⟩ := hlookups .system "Rest" (by decide +kernel)
  exact ⟨hfailed, hmark, (hanswer (by decide +kernel) (by decide +kernel)).2 (by decide +kernel)⟩

/-- The first lookup of the slot fails with the error of the initializer, and the second one finds it. -/
theorem half_definition_becomes_visible :
    let d : Domain := { catalog := some halfCatalog }
    let lookup : Demand := .resolve .application "Half" 0
    d.getGlobal? .application "Half" = none ∧
      (lookup.run d 3).map (·.result) = some (.error halfError) ∧
      ((lookup.run d 3).bind fun o => lookup.run o.domain 3).map (·.result) = some (.ok (.int 7)) := by
  decide +kernel

end MovieVm
