import Mathlib.Data.List.Nodup
import Mathlib.Data.List.Perm.Subperm
import MovieVm.Proofs.Lives

/-!
# Loading catalog entries

An entry is marked before anything of it is read, and nothing ever takes a mark away. So it is attempted once at most,
however the initializers of entries look up each other's symbols, and all that an error can still change is that the
entries that were being loaded have failed.
-/

namespace MovieVm

open Bytecode

/-! ## What the record tells of entries -/

/-- The entry whose initializer a frame runs. -/
def Purpose.entry? : Purpose → Option Nat
  | .call => none
  | .catalogEntry entry _ _ => some entry

/-- The entries that are being loaded, innermost first. -/
def loading (purposes : List Purpose) : List Nat :=
  purposes.filterMap Purpose.entry?

def Event.attempt? : Event → Option Nat
  | .attempted entry _ _ => some entry
  | _ => none

def Event.completion? : Event → Option Nat
  | .returned purpose => purpose.entry?
  | _ => none

/-- The entries that were decoded and initialized, or came to fail at that. -/
def attempts (record : List Event) : List Nat :=
  record.filterMap Event.attempt?

/-- The entries whose initializers have returned. -/
def completions (record : List Event) : List Nat :=
  record.filterMap Event.completion?

theorem loading_cons (purpose : Purpose) (purposes : List Purpose) :
    loading (purpose :: purposes) = purpose.entry?.toList ++ loading purposes := by
  cases purpose <;> rfl

theorem attempts_concat (record : List Event) (event : Event) :
    attempts (record ++ [event]) = attempts record ++ event.attempt?.toList := by
  rw [attempts, List.filterMap_append]
  cases event <;> rfl

theorem completions_concat (record : List Event) (event : Event) :
    completions (record ++ [event]) = completions record ++ event.completion?.toList := by
  rw [completions, List.filterMap_append, List.filterMap_cons]
  cases event.completion? <;> rfl

/-! ## Marks -/

namespace Domain

variable {d : Domain} {entry other : Nat}

theorem lookup_filter_ne {failures : List (Nat × VmError)} (h : other ≠ entry) :
    (failures.filter (·.1 ≠ entry)).lookup other = failures.lookup other := by
  induction failures with
  | nil => rfl
  | cons head rest ih =>
    by_cases hhead : head.1 = entry
    · rw [List.filter_cons_of_neg (by simpa using hhead), ih, List.lookup_cons, beq_eq_false_iff_ne.2 (hhead ▸ h)]
    · rw [List.filter_cons_of_pos (by simpa using hhead), List.lookup_cons, List.lookup_cons, ih]

theorem mark?_eq_none : d.mark? entry = none ↔ d.failedEntries.lookup entry = none ∧ entry ∉ d.loadedEntries := by
  unfold mark?
  split
  · simp [*]
  · simp [*]

theorem mark?_eq_loaded :
    d.mark? entry = some .loaded ↔ d.failedEntries.lookup entry = none ∧ entry ∈ d.loadedEntries := by
  unfold mark?
  split
  · simp [*]
  · simp [*]

theorem isSome_mark? :
    (d.mark? entry).isSome ↔ entry ∈ d.loadedEntries ∨ ∃ e, d.failedEntries.lookup entry = some e := by
  unfold mark?
  split
  · simp [*]
  · simp [*]

theorem mark?_loaded (h : d.mark? entry = none) : (d.setMark entry .loaded).mark? entry = some .loaded := by
  have hmem : entry ∈ (d.setMark entry .loaded).loadedEntries := List.mem_insert_self
  have hlookup : (d.setMark entry .loaded).failedEntries.lookup entry = none := (mark?_eq_none.1 h).1
  rw [mark?, hlookup]
  exact if_pos hmem

theorem mark?_failed (d : Domain) (entry : Nat) (e : VmError) :
    (d.setMark entry (.failed e)).mark? entry = some (.failed e) :=
  mark?_eq_failed.2 List.lookup_cons_self

theorem lookup_setMark_of_ne (e : VmError) (h : other ≠ entry) :
    (d.setMark entry (.failed e)).failedEntries.lookup other = d.failedEntries.lookup other := by
  rw [setMark, List.lookup_cons, beq_eq_false_iff_ne.2 h]
  exact lookup_filter_ne h

theorem mark?_setMark_of_ne (mark : EntryMark) (h : other ≠ entry) :
    (d.setMark entry mark).mark? other = d.mark? other := by
  cases mark with
  | loaded => simp [mark?, setMark, List.mem_insert_iff, h]
  | failed e =>
    rw [mark?, lookup_setMark_of_ne e h, mark?]
    simp [setMark, h]

/-- Only attempts change what is known of the entries. -/
theorem entries_apply (d : Domain) {event : Event} (h : event.attempt? = none) :
    (d.apply event).loadedEntries = d.loadedEntries ∧ (d.apply event).failedEntries = d.failedEntries := by
  cases event with
  | attempted entry symbol requester => cases h
  | installed =>
    unfold apply install
    cases d.isInitialized <;> exact ⟨rfl, rfl⟩
  | stored scope name v => cases scope <;> exact ⟨rfl, rfl⟩
  | loaded scope m =>
    change (d.withModule scope m).loadedEntries = d.loadedEntries ∧
      (d.withModule scope m).failedEntries = d.failedEntries
    unfold withModule
    cases bindings m d.modules.size m.definitions with
    | error e => exact ⟨rfl, rfl⟩
    | ok values => cases scope <;> exact ⟨rfl, rfl⟩
  | _ => exact ⟨rfl, rfl⟩

theorem mark?_apply (d : Domain) {event : Event} (h : event.attempt? = none) : (d.apply event).mark? = d.mark? := by
  obtain ⟨hloaded, hfailed⟩ := d.entries_apply h
  funext entry
  rw [mark?, hloaded, hfailed, mark?]

theorem catalog_apply (d : Domain) {event : Event} (h : ∀ catalog, event ≠ .attached catalog) :
    (d.apply event).catalog = d.catalog := by
  cases event with
  | attached catalog => exact absurd rfl (h catalog)
  | installed =>
    unfold apply install
    cases d.isInitialized <;> rfl
  | stored scope name v => cases scope <;> rfl
  | loaded scope m =>
    change (d.withModule scope m).catalog = d.catalog
    unfold withModule
    cases bindings m d.modules.size m.definitions with
    | error e => rfl
    | ok values => cases scope <;> rfl
  | _ => rfl

end Domain

/-! ## The order of loads -/

/-- The marks agree with the record: an entry is marked when it has been attempted, and has not failed while it is
being loaded or when it is complete. -/
structure Orderly (d : Domain) (purposes : List Purpose) (record : List Event) : Prop where
  exclusive : ∀ entry ∈ d.loadedEntries, d.failedEntries.lookup entry = none
  attempts : (attempts record).Nodup
  loading : (loading purposes).Nodup
  marked : ∀ entry, (d.mark? entry).isSome ↔ entry ∈ MovieVm.attempts record
  loaded : ∀ entry, d.mark? entry = some .loaded ↔ entry ∈ MovieVm.loading purposes ∨ entry ∈ completions record
  apart : ∀ entry ∈ MovieVm.loading purposes, entry ∉ completions record
  bounded : ∀ entry ∈ MovieVm.loading purposes, ∃ catalog, d.catalog = some catalog ∧ entry < catalog.entries.length

namespace Orderly

variable {d : Domain} {purposes : List Purpose} {record : List Event} {event : Event} {entry : Nat}

theorem mem_attempts (h : Orderly d purposes record) (entry : Nat) : entry ∈ MovieVm.attempts record ↔
    entry ∈ d.loadedEntries ∨ ∃ e, d.failedEntries.lookup entry = some e :=
  (h.marked entry).symm.trans Domain.isSome_mark?

/-- A wanted entry has not been attempted. -/
theorem not_mem_attempts (h : Orderly d purposes record) {scope : Scope} {name : String}
    (hwanted : d.wanted? scope name = some entry) : entry ∉ MovieVm.attempts record := by
  rw [← h.marked entry, (Domain.wanted?_eq_some.1 hwanted).2.2]
  exact nofun

theorem mem_loadedEntries (h : Orderly d purposes record) (hentry : entry ∈ MovieVm.loading purposes) :
    entry ∈ d.loadedEntries :=
  (Domain.mark?_eq_loaded.1 ((h.loaded entry).2 (.inl hentry))).2

/-- The entries that are being loaded are different ones of the catalog. -/
theorem length_loading_le (h : Orderly d purposes record) (catalog : Catalog) (hcatalog : d.catalog = some catalog) :
    (MovieVm.loading purposes).length ≤ catalog.entries.length := by
  have hsubset : MovieVm.loading purposes ⊆ List.range catalog.entries.length := by
    intro entry hentry
    obtain ⟨catalog', hcatalog', hlt⟩ := h.bounded entry hentry
    obtain rfl := Option.some.inj (hcatalog.symm.trans hcatalog')
    exact List.mem_range.2 hlt
  simpa using (h.loading.subperm hsubset).length_le

theorem failed (h : Orderly d purposes record) (entry : Nat) (hentry : entry ∈ MovieVm.attempts record)
    (hloading : entry ∉ MovieVm.loading purposes) (hcompletion : entry ∉ completions record) :
    ∃ e, d.failedEntries.lookup entry = some e := by
  obtain ⟨mark, hmark⟩ := Option.isSome_iff_exists.1 ((h.marked entry).2 hentry)
  cases mark with
  | loaded => exact (((h.loaded entry).1 hmark).elim hloading hcompletion).elim
  | failed e => exact ⟨e, Domain.mark?_eq_failed.1 hmark⟩

/-! ### What keeps it -/

theorem new (options : DomainOptions) : Orderly { options } [] [] where
  exclusive := nofun
  attempts := List.nodup_nil
  loading := List.nodup_nil
  marked := fun _ => by simp [Domain.mark?, MovieVm.attempts]
  loaded := fun _ => by simp [Domain.mark?, MovieVm.loading, completions]
  apart := nofun
  bounded := nofun

/-- An event that is neither an attempt nor a completion, and leaves the loads as they are. -/
theorem quiet (h : Orderly d purposes record) (hattempt : event.attempt? = none)
    (hcompletion : event.completion? = none)
    (hloading : MovieVm.loading (event.purposes purposes) = MovieVm.loading purposes)
    (hcatalog : (d.apply event).catalog = d.catalog ∨ purposes = []) :
    Orderly (d.apply event) (event.purposes purposes) (record ++ [event]) := by
  obtain ⟨hloaded, hfailed⟩ := d.entries_apply hattempt
  have hmark := d.mark?_apply hattempt
  constructor
  · rw [hloaded, hfailed]
    exact h.exclusive
  · rw [attempts_concat, hattempt, Option.toList_none, List.append_nil]
    exact h.attempts
  · rw [hloading]
    exact h.loading
  · rw [attempts_concat, hattempt, Option.toList_none, List.append_nil, hmark]
    exact h.marked
  · rw [completions_concat, hcompletion, Option.toList_none, List.append_nil, hmark, hloading]
    exact h.loaded
  · rw [completions_concat, hcompletion, Option.toList_none, List.append_nil, hloading]
    exact h.apart
  · rw [hloading]
    obtain hsame | rfl := hcatalog
    · rw [hsame]
      exact h.bounded
    · exact nofun

/-- An entry that is attempted has not been marked before. -/
theorem attempted (h : Orderly d purposes record) {symbol : String} {requester : Scope}
    (hwanted : d.wanted? requester symbol = some entry) :
    Orderly (d.setMark entry .loaded) (.catalogEntry entry symbol requester :: purposes)
      (record ++ [.attempted entry symbol requester]) := by
  obtain ⟨_, hentry, hmark⟩ := Domain.wanted?_eq_some.1 hwanted
  have hfresh : entry ∉ MovieVm.attempts record := h.not_mem_attempts hwanted
  have hidle : entry ∉ MovieVm.loading purposes ∧ entry ∉ completions record := by
    rw [← not_or, ← h.loaded entry, hmark]
    exact nofun
  obtain ⟨catalog, hcatalog, hfind⟩ := Option.bind_eq_some_iff.1 hentry
  have hlt : entry < catalog.entries.length := (List.findIdx?_eq_some_iff_getElem.1 hfind).1
  constructor
  · intro other hother
    obtain rfl | hother := List.mem_insert_iff.1 hother
    · exact (Domain.mark?_eq_none.1 hmark).1
    · exact h.exclusive other hother
  · rw [attempts_concat]
    exact List.nodup_append.2 ⟨h.attempts, List.nodup_singleton entry, fun other hother last hlast hsame =>
      hfresh (List.mem_singleton.1 hlast ▸ hsame ▸ hother)⟩
  · exact List.nodup_cons.2 ⟨hidle.1, h.loading⟩
  · intro other
    rw [attempts_concat]
    by_cases hother : other = entry
    · simp [hother, Domain.mark?_loaded hmark, Event.attempt?]
    · simp [hother, Domain.mark?_setMark_of_ne _ hother, h.marked other, Event.attempt?]
  · intro other
    rw [completions_concat, loading_cons]
    by_cases hother : other = entry
    · simp [hother, Domain.mark?_loaded hmark, Purpose.entry?]
    · simp [hother, Domain.mark?_setMark_of_ne _ hother, h.loaded other, Purpose.entry?, Event.completion?]
  · rw [completions_concat]
    simp only [Event.completion?, Option.toList_none, List.append_nil]
    exact List.forall_mem_cons.2 ⟨hidle.2, h.apart⟩
  · exact List.forall_mem_cons.2 ⟨⟨catalog, hcatalog, hlt⟩, h.bounded⟩

/-- A frame that has returned; if it ran the initializer of an entry, the entry is complete. -/
theorem returned {purpose : Purpose} (h : Orderly d (purpose :: purposes) record) :
    Orderly d purposes (record ++ [.returned purpose]) := by
  cases purpose with
  | call =>
    have hloading : MovieVm.loading (Event.purposes (.call :: purposes) (.returned .call)) =
        MovieVm.loading (.call :: purposes) := rfl
    exact h.quiet rfl rfl hloading (.inl rfl)
  | catalogEntry entry symbol requester =>
    obtain ⟨hentry, hloading⟩ := List.nodup_cons.1 h.loading
    constructor
    · exact h.exclusive
    · rw [attempts_concat]
      simpa [Event.attempt?] using h.attempts
    · exact hloading
    · intro other
      rw [attempts_concat]
      simpa [Event.attempt?] using h.marked other
    · intro other
      rw [h.loaded other, loading_cons, completions_concat]
      simp only [Purpose.entry?, Event.completion?, Option.toList_some, List.mem_append, List.mem_singleton]
      tauto
    · intro other hother
      rw [completions_concat]
      simp only [Event.completion?, Purpose.entry?, Option.toList_some, List.mem_append, List.mem_singleton, not_or]
      exact ⟨h.apart other (List.mem_cons_of_mem _ hother), fun hsame => hentry (hsame ▸ hother)⟩
    · exact fun other hother => h.bounded other (List.mem_cons_of_mem _ hother)

/-- A frame that an error leaves; if it ran the initializer of an entry, the entry has failed. -/
theorem left {purpose : Purpose} (h : Orderly d (purpose :: purposes) record) (e : VmError) :
    Orderly (purpose.failed d e) purposes record := by
  cases purpose with
  | call => exact ⟨h.exclusive, h.attempts, h.loading, h.marked, h.loaded, h.apart, h.bounded⟩
  | catalogEntry entry symbol requester =>
    obtain ⟨hentry, hloading⟩ : entry ∉ MovieVm.loading purposes ∧ (MovieVm.loading purposes).Nodup :=
      List.nodup_cons.1 h.loading
    have hopen : entry ∉ completions record := h.apart entry List.mem_cons_self
    constructor
    · intro other hother
      obtain ⟨hother, hne⟩ := List.mem_filter.1 hother
      exact (Domain.lookup_setMark_of_ne e (of_decide_eq_true hne)).trans (h.exclusive other hother)
    · exact h.attempts
    · exact hloading
    · intro other
      rw [Purpose.failed, ← h.marked other]
      by_cases hother : other = entry
      · have hmark := (h.loaded entry).2 (.inl List.mem_cons_self)
        simp [hother, hmark, Domain.mark?_failed]
      · rw [Domain.mark?_setMark_of_ne _ hother]
    · intro other
      rw [Purpose.failed]
      by_cases hother : other = entry
      · simp [hother, hentry, hopen, Domain.mark?_failed]
      · rw [Domain.mark?_setMark_of_ne _ hother, h.loaded other, loading_cons]
        simp [Purpose.entry?, hother]
    · exact fun other hother => h.apart other (List.mem_cons_of_mem _ hother)
    · exact fun other hother => h.bounded other (List.mem_cons_of_mem _ hother)

end Orderly

/-- Events and errors keep the order. -/
theorem kept_orderly : Kept Orderly where
  event {d purposes record} h event hallowed := by
    cases event with
    | attached catalog => exact h.quiet rfl rfl rfl (.inr hallowed.2)
    | attempted entry symbol requester => exact h.attempted hallowed
    | returned purpose =>
      obtain ⟨rest, rfl⟩ := hallowed
      exact h.returned
    | _ => exact h.quiet rfl rfl rfl (.inl (d.catalog_apply fun _ => nofun))
  left h e := h.left e

/-! ## Lives -/

theorem Life.orderly (options : DomainOptions) (acts : List Act) :
    Orderly ((Life.new options).after acts).turn.domain ((Life.new options).after acts).turn.purposes
      ((Life.new options).after acts).record :=
  kept_orderly.holds (Orderly.new options) acts

/-- Whatever is done with a domain: no entry is attempted twice, and what has been attempted counts either as loaded or
as failed. A machine that looks a symbol up loads an entry if it is wanted, which it is not once it has been attempted,
and otherwise answers from what is known. Nothing is attempted off the record, as each act does to the domain what it
adds to the record. An entry that is being loaded counts as loaded, so the loads are nested no deeper than there are
entries; one that was attempted, and is neither being loaded nor complete, has failed. -/
theorem catalog_entries_load_once (options : DomainOptions) (acts : List Act) :
    let life := (Life.new options).after acts
    let d := life.turn.domain
    (attempts life.record).Nodup ∧
    (∀ entry, entry ∈ attempts life.record ↔
      entry ∈ d.loadedEntries ∨ ∃ e, d.failedEntries.lookup entry = some e) ∧
    (∀ entry ∈ d.loadedEntries, d.failedEntries.lookup entry = none) ∧
    (∀ m : Machine, m.domain = d → ∀ scope name,
      (∀ entry, d.wanted? scope name = some entry → entry ∉ attempts life.record ∧
        ∃ catalog, d.catalog = some catalog ∧ m.resolve scope name = m.loadEntry catalog entry name scope) ∧
      (d.wanted? scope name = none → m.resolve scope name = m.deliver (d.lookup scope name))) ∧
    (∀ act, ∃ events, (life.act act).record = life.record ++ events ∧
      (life.act act).turn.Leaves (d.replay events) (events.foldl Event.purposes life.turn.purposes)) ∧
    (∀ entry ∈ loading life.turn.purposes, entry ∈ d.loadedEntries ∧ ∀ scope name, d.wanted? scope name ≠ some entry) ∧
    (∀ catalog, d.catalog = some catalog → (loading life.turn.purposes).length ≤ catalog.entries.length) ∧
    ∀ entry ∈ attempts life.record, entry ∉ loading life.turn.purposes → entry ∉ completions life.record →
      ∃ e, d.failedEntries.lookup entry = some e := by
  intro life d
  have horderly : Orderly d life.turn.purposes life.record := Life.orderly options acts
  refine ⟨horderly.attempts, horderly.mem_attempts, horderly.exclusive, fun m hm scope name => ⟨fun entry hwanted => ?_,
    fun hwanted => ?_⟩, fun act => ?_, fun entry hentry => ?_, horderly.length_loading_le, horderly.failed⟩
  · refine ⟨horderly.not_mem_attempts hwanted, ?_⟩
    rw [← hm] at hwanted ⊢
    exact Machine.resolve_of_wanted hwanted
  · rw [← hm] at hwanted ⊢
    exact Machine.resolve_of_not_wanted hwanted
  · obtain ⟨events, hrecord, _, hleaves⟩ := life.act_leaves act
    exact ⟨events, hrecord, hleaves⟩
  · have hloaded := horderly.mem_loadedEntries hentry
    have hattempted := (horderly.mem_attempts entry).2 (.inl hloaded)
    exact ⟨hloaded, fun scope name hwanted => horderly.not_mem_attempts hwanted hattempted⟩

/-- A module whose initializer looks a symbol up. -/
def seeker (label symbol : String) : Module where
  label
  minorVersion := supportedMinor
  majorVersion := supportedMajor
  constants := #[.string "init", .string symbol]
  methods := #[{ name := 0, params := 0, locals := 0, code := #[.getGlobal 1, .returnValue] }]
  definitions := []
  init := 0

/-- Two entries that look for each other's symbols, which neither of them ever defines. -/
def ringCatalog : Catalog :=
  let ping := (seeker "ping" "Pong").encode
  let pong := (seeker "pong" "Ping").encode
  ⟨ping ++ pong, [⟨"ping", 0, ping.length, ["Ping"]⟩, ⟨"pong", ping.length, pong.length, ["Pong"]⟩]⟩

/-- Two initializers run then, and the inner one is about to look for the symbol of the outer one. -/
def ringActs : List Act :=
  [.begin (.attach ringCatalog), .begin (.run (.resolve .application "Ping" 0)), .step]

/-- The inner lookup finds its entry loaded, so it fails, and both entries with it; later lookups load nothing. -/
theorem ring_loads_once :
    let ringed := (Life.new { release := true }).after ringActs
    let broken := (Life.new { release := true }).after (ringActs ++ [.step])
    loading ringed.turn.purposes = [1, 0] ∧ (∀ entry ∈ [1, 0], entry ∈ ringed.turn.domain.loadedEntries) ∧
      (∀ m : Machine, m.domain = ringed.turn.domain →
        m.resolve .system "Ping" = m.deliver (.error (Domain.undefinedGlobal "Ping"))) ∧
      attempts broken.record = [0, 1] ∧ broken.turn.domain.moduleCount = 2 ∧
      (∀ entry ∈ [0, 1], ∃ e, broken.turn.domain.failedEntries.lookup entry = some e) ∧
      ∀ m : Machine, m.domain = broken.turn.domain → ∀ scope, ∀ name ∈ ["Ping", "Pong"],
        m.resolve scope name = m.deliver (broken.turn.domain.lookup scope name) := by
  intro ringed broken
  obtain ⟨_, _, _, hresolve, _, hloaded, _⟩ := catalog_entries_load_once { release := true } ringActs
  obtain ⟨_, _, _, hanswer, _, _, _, hfailed⟩ := catalog_entries_load_once { release := true } (ringActs ++ [.step])
  have hloading : loading ringed.turn.purposes = [1, 0] := by decide +kernel
  have hattempts : attempts broken.record = [0, 1] := by decide +kernel
  refine ⟨hloading, fun entry hentry => (hloaded entry (hloading ▸ hentry)).1, fun m hm => ?_, hattempts,
    by decide +kernel, fun entry hentry => hfailed entry (hattempts ▸ hentry) ?_ ?_, fun m hm scope name hname => ?_⟩
  · have hwanted : ringed.turn.domain.wanted? .system "Ping" = none := by decide +kernel
    have hlookup : ringed.turn.domain.lookup .system "Ping" = .error (Domain.undefinedGlobal "Ping") := by
      decide +kernel
    rw [← hlookup]
    exact (hresolve m hm .system "Ping").2 hwanted
  · have hnone : loading broken.turn.purposes = [] := by decide +kernel
    rw [hnone]
    exact List.not_mem_nil
  · have hnone : completions broken.record = [] := by decide +kernel
    rw [hnone]
    exact List.not_mem_nil
  · have hwanted : ∀ scope, ∀ name ∈ ["Ping", "Pong"], broken.turn.domain.wanted? scope name = none := by
      intro scope
      cases scope <;> decide +kernel
    exact (hanswer m hm scope name).2 (hwanted scope name hname)

end MovieVm
