import MovieVm.Proofs.Sessions

/-!
# The order of load events

Whatever is asked of a loader, and in whatever order, its events follow one script: the file is opened, then
come progress and symbols, and at last one event that ends the load. A load may also fail before the file is
opened.
-/

namespace MovieVm.Movie

/-! ## Scripts -/

/-- Whether an event ends a load. -/
def LoadEvent.isTerminal : LoadEvent → Bool
  | .completed _ => true
  | .failed _ => true
  | _ => false

def LoadEvent.progress? : LoadEvent → Option Progress
  | .progressed _ progress => some progress
  | _ => none

/-- What is told between the opening and the end: progress, and batches of symbols, each with its images right
behind it. -/
inductive Telling : List LoadEvent → Prop where
  | nil : Telling []
  | progress {events : List LoadEvent} (h : Telling events) (file : File) (progress : Progress) :
    Telling (events ++ [.progressed file progress])
  | batch {events : List LoadEvent} (h : Telling events) (b : Batch) :
    Telling (events ++ Loader.batchEvents b)

/-- All events of a load that has ended. -/
inductive Script : List LoadEvent → Prop where
  | unopened (fault : Fault) : Script [.failed fault]
  | completed {events : List LoadEvent} (h : Telling events) (file file' : File) :
    Script (.opened file :: events ++ [.completed file'])
  | failed {events : List LoadEvent} (h : Telling events) (file : File) (fault : Fault) :
    Script (.opened file :: events ++ [.failed fault])

/-- Later progress: more bytes, and no fewer frames. -/
def Progress.Before (p q : Progress) : Prop :=
  p.bytesLoaded < q.bytesLoaded ∧ p.framesLoaded ≤ q.framesLoaded

/-- The progress that events tell, in their order. -/
def progresses (events : List LoadEvent) : List Progress :=
  events.filterMap LoadEvent.progress?

@[simp] theorem progresses_append (events events' : List LoadEvent) :
    progresses (events ++ events') = progresses events ++ progresses events' :=
  List.filterMap_append

@[simp] theorem progresses_opened (file : File) (events : List LoadEvent) :
    progresses (.opened file :: events) = progresses events := rfl

@[simp] theorem progresses_completed (file : File) : progresses [.completed file] = [] := rfl

@[simp] theorem progresses_failed (fault : Fault) : progresses [.failed fault] = [] := rfl

@[simp] theorem progresses_batchEvents (b : Batch) : progresses (Loader.batchEvents b) = [] := by
  apply List.filterMap_eq_nil_iff.2
  intro e he
  obtain rfl | hmem := List.mem_cons.1 he
  · rfl
  · obtain ⟨symbol, _, rfl⟩ := List.mem_map.1 hmem
    rfl

theorem not_isTerminal_batchEvents {b : Batch} {e : LoadEvent} (he : e ∈ Loader.batchEvents b) :
    e.isTerminal = false := by
  obtain rfl | hmem := List.mem_cons.1 he
  · rfl
  · obtain ⟨symbol, _, rfl⟩ := List.mem_map.1 hmem
    rfl

theorem Telling.not_isTerminal {events : List LoadEvent} (h : Telling events) {e : LoadEvent}
    (he : e ∈ events) : e.isTerminal = false := by
  induction h with
  | nil => cases he
  | progress _ file progress ih =>
    obtain hmem | hmem := List.mem_append.1 he
    · exact ih hmem
    · obtain rfl := List.mem_singleton.1 hmem
      rfl
  | batch _ b ih =>
    obtain hmem | hmem := List.mem_append.1 he
    · exact ih hmem
    · exact not_isTerminal_batchEvents hmem

theorem Script.exists_isTerminal {events : List LoadEvent} (h : Script events) :
    ∃ e ∈ events, e.isTerminal = true := by
  cases h with
  | unopened fault => exact ⟨_, List.mem_singleton_self _, rfl⟩
  | completed _ file file' => exact ⟨_, List.mem_append_right _ (List.mem_singleton_self _), rfl⟩
  | failed _ file fault => exact ⟨_, List.mem_append_right _ (List.mem_singleton_self _), rfl⟩

/-! ## The events of an open file -/

/-- Progress that is not ahead of a file, and behind it when there is progress to tell. -/
structure Progress.Behind (p : Progress) (file : File) (due : Bool) : Prop where
  bytes : p.bytesLoaded ≤ file.bytesLoaded
  frames : p.framesLoaded ≤ file.frames.size
  due : due = true → p.bytesLoaded < file.bytesLoaded

/-- The events since a file was opened: they follow the script, and their progress leads up to the file. -/
structure Tale (file : File) (due : Bool) (told : List LoadEvent) : Prop where
  telling : Telling told
  behind : ∀ p ∈ progresses told, p.Behind file due
  ordered : (progresses told).Pairwise Progress.Before

variable {file file' : File} {due : Bool} {told : List LoadEvent}

theorem Tale.nil (file : File) (due : Bool) : Tale file due [] where
  telling := .nil
  behind := nofun
  ordered := .nil

theorem Tale.batch (h : Tale file due told) (b : Batch) : Tale file due (told ++ Loader.batchEvents b) where
  telling := h.telling.batch b
  behind := by simpa using h.behind
  ordered := by simpa using h.ordered

/-- Progress that is due is ahead of all that was told before. -/
theorem Tale.progress (h : Tale file true told) :
    Tale file false (told ++ [.progressed file (Loader.progressOf file)]) where
  telling := h.telling.progress file (Loader.progressOf file)
  behind := by
    intro p hp
    rw [progresses_append] at hp
    obtain hmem | hmem := List.mem_append.1 hp
    · have hbehind := h.behind p hmem
      exact ⟨hbehind.bytes, hbehind.frames, nofun⟩
    · obtain rfl := List.mem_singleton.1 hmem
      exact ⟨Nat.le_refl _, Nat.le_refl _, nofun⟩
  ordered := by
    rw [progresses_append]
    apply List.pairwise_append.2
    refine ⟨h.ordered, List.pairwise_singleton _ _, ?_⟩
    intro p hp q hq
    obtain rfl := List.mem_singleton.1 hq
    have hbehind := h.behind p hp
    exact ⟨hbehind.due rfl, hbehind.frames⟩

/-- When tags are read there is progress to tell. -/
theorem Tale.read (h : Tale file due told) (hbytes : file.bytesLoaded < file'.bytesLoaded)
    (hframes : file.frames.size ≤ file'.frames.size) : Tale file' true told where
  telling := h.telling
  behind := by
    intro p hp
    have hbehind := h.behind p hp
    have hless := Nat.lt_of_le_of_lt hbehind.bytes hbytes
    exact ⟨Nat.le_of_lt hless, Nat.le_trans hbehind.frames hframes, fun _ => hless⟩
  ordered := h.ordered

/-! ## The invariant -/

namespace Loader

variable {l l' : Loader} {d : Delivery} {events new : List LoadEvent} {file : File}

/-- How the events of a loader go with its state. -/
inductive Told (l : Loader) (events : List LoadEvent) : Prop where
  | unopened (hstate : l.state = .header) (hfile : l.file? = none) (hbatches : l.batches = [])
    (hevents : events = [])
  | opened {file first : File} {told : List LoadEvent} (hstate : l.state = .opened)
    (hfile : l.file? = some file) (hevents : events = .opened first :: told)
    (htale : Tale file l.progressDue told)
  | ended (hstate : l.isFinished = true) (hscript : Script events)
    (hordered : (progresses events).Pairwise Progress.Before)

/-- A loader that has read its header and runs has told that its file is open. -/
theorem Told.of_file (h : l.Told events) (hruns : l.isFinished = false) (hfile : l.file? = some file) :
    ∃ first told, l.state = .opened ∧ events = .opened first :: told ∧ Tale file l.progressDue told := by
  cases h with
  | unopened _ hnone =>
    rw [hfile] at hnone
    cases hnone
  | opened hstate hfile' hevents htale =>
    obtain rfl := Option.some.inj (hfile.symm.trans hfile')
    exact ⟨_, _, hstate, hevents, htale⟩
  | ended hstate =>
    rw [hruns] at hstate
    cases hstate

/-- A loader that has batches and runs is open. -/
theorem Told.of_batch (h : l.Told events) (hruns : l.isFinished = false) (hbatches : l.batches ≠ []) :
    ∃ file, l.file? = some file := by
  cases h with
  | unopened _ _ hnone => exact absurd hnone hbatches
  | opened _ hfile => exact ⟨_, hfile⟩
  | ended hstate =>
    rw [hruns] at hstate
    cases hstate

/-- A batch is announced to the listener of an open file. -/
theorem Told.announce (h : l.Told events) (hruns : l.isFinished = false) (hbatches : l.batches ≠ [])
    (b : Batch) (batches : List Batch) (acks : List Ack) (isWaiting : Bool) :
    Told { l with batches, acks, isWaiting } (events ++ batchEvents b) := by
  obtain ⟨file, hfile⟩ := h.of_batch hruns hbatches
  obtain ⟨first, told, hstate, rfl, htale⟩ := h.of_file hruns hfile
  exact .opened hstate hfile rfl (htale.batch b)

/-- A fault ends the script, whether the file is open or not. -/
theorem Told.fail (h : l.Told events) (hruns : l.isFinished = false) {fault : Fault}
    (hstate : l'.state = .failed) : l'.Told (events ++ [.failed fault]) := by
  have hended : l'.isFinished = true := by simp [isFinished, hstate]
  cases h with
  | unopened _ _ _ hevents =>
    subst hevents
    exact .ended hended (.unopened fault) .nil
  | @opened file first told _ _ hevents htale =>
    subst hevents
    refine .ended hended (.failed htale.telling first fault) ?_
    simpa using htale.ordered
  | ended hfinished =>
    rw [hruns] at hfinished
    cases hfinished

/-! ## Steps and calls keep it -/

theorem Told.goes (h : l.Told events) (hgoes : l.Goes l' new) : l'.Told (events ++ new) := by
  cases hgoes with
  | announced hruns hbatches => exact h.announce hruns (by simp [hbatches]) _ _ _ _
  | @told intake file body hruns _ hreception hdue =>
    have hfile : l.file? = some file := by rw [file?, hreception]; rfl
    obtain ⟨first, told, hstate, rfl, htale⟩ := h.of_file hruns hfile
    rw [hdue] at htale
    exact .opened hstate hfile rfl htale.progress
  | @opened p intake body rest rest' file file' s hruns _ hreception =>
    cases h with
    | unopened _ _ _ hevents =>
      subst hevents
      exact .opened rfl (congrArg Reception.file? (scanned_reception _ s)) rfl (.nil _ _)
    | opened _ hfile =>
      rw [file?, hreception] at hfile
      cases hfile
    | ended hfinished =>
      rw [hruns] at hfinished
      cases hfinished
  | @read intake file file' body rest s hruns _ hreception hdue hscan htags =>
    have hfile : l.file? = some file := by rw [file?, hreception]; rfl
    obtain ⟨first, told, hstate, rfl, htale⟩ := h.of_file hruns hfile
    obtain ⟨hbytes, hframes⟩ := (File.Scans.of_scan hscan).grows
    have hadvances := (File.Scans.of_scan hscan).advances htags
    have hscanned : (({ l with reception := .tags intake file' rest } : Loader).scanned s).progressDue =
        true := by
      simp [scanned, htags]
    refine .opened ((scanned_state _ s).trans hstate) (congrArg Reception.file? (scanned_reception _ s))
      (List.append_nil _) ?_
    rw [hscanned]
    exact htale.read (by omega) hframes

theorem Told.halts (h : l.Told events) (hhalts : l.Halts d) : d.loader.Told (events ++ d.events) := by
  cases hhalts with
  | idle => rwa [List.append_nil]
  | held hruns _ hbatches => exact h.announce hruns (by simp [hbatches]) _ _ _ _
  | @completed intake file body hruns hreception =>
    have hfile : l.file? = some file := by rw [file?, hreception]; rfl
    obtain ⟨first, told, hstate, rfl, htale⟩ := h.of_file hruns hfile
    refine .ended rfl (.completed htale.telling first file) ?_
    simpa using htale.ordered
  | refused hruns => exact h.fail hruns rfl
  | ended hruns => exact h.fail hruns rfl
  | starved => rwa [List.append_nil]

/-- More bytes, the end of the input or leave to go on are no events. -/
theorem Told.same (h : l.Told events) (hfile : l'.file? = l.file?) (hstate : l'.state = l.state)
    (hbatches : l'.batches = l.batches) (hdue : l'.progressDue = l.progressDue) : l'.Told events := by
  cases h with
  | unopened hheader hnone hempty hevents =>
    exact .unopened (hstate.trans hheader) (hfile.trans hnone) (hbatches.trans hempty) hevents
  | opened hopened hthere hevents htale =>
    exact .opened (hstate.trans hopened) (hfile.trans hthere) hevents (hdue ▸ htale)
  | ended hfinished hscript hordered =>
    refine .ended ?_ hscript hordered
    rwa [isFinished, hstate]

/-- Whatever is done, the events of a loader are in step with its state. -/
theorem told_kept : Kept fun l _ events => l.Told events where
  goes h hgoes := h.goes hgoes
  halts h hhalts := h.halts hhalts
  push h _ hpush := h.same (file?_of_push hpush) rfl rfl rfl
  fail h hruns _ := h.fail hruns rfl
  finish h := h.same rfl rfl rfl rfl
  resume h := h.same rfl rfl rfl rfl

theorem Told.call (h : l.Told events) (c : Call) : (l.call c).loader.Told (events ++ (l.call c).events) :=
  told_kept.call [] _ h c

theorem Told.session (h : l.Told events) (calls : List Call) :
    (l.session calls).1.Told (events ++ (l.session calls).2) :=
  told_kept.session [] _ h calls

theorem told_start (acks : List Ack) : Told { acks } [] :=
  .unopened rfl rfl rfl rfl

/-! ## The protocol -/

/-- The events so far are the beginning of a script. -/
theorem Told.exists_script (h : l.Told events) : ∃ script, Script script ∧ events <+: script := by
  cases h with
  | unopened _ _ _ hevents => exact ⟨_, .unopened .closed, hevents ▸ List.nil_prefix⟩
  | @opened file first told _ _ hevents htale =>
    refine ⟨_, .completed htale.telling first file, ?_⟩
    rw [hevents]
    exact List.prefix_append _ _
  | ended _ hscript => exact ⟨_, hscript, List.prefix_refl _⟩

/-- A loader has ended when the event that ends the load is told. -/
theorem Told.isFinished_iff (h : l.Told events) :
    l.isFinished = true ↔ ∃ e ∈ events, e.isTerminal = true := by
  cases h with
  | unopened hstate _ _ hevents => simp [isFinished, hstate, hevents]
  | @opened file first told hstate _ hevents htale =>
    have htold : ∀ e ∈ told, e.isTerminal = false := fun e he => htale.telling.not_isTerminal he
    have hfirst : (LoadEvent.opened first).isTerminal = false := rfl
    simp only [isFinished, hstate, hevents, List.mem_cons, exists_eq_or_imp, hfirst]
    simpa using htold
  | ended hfinished hscript => exact iff_of_true hfinished hscript.exists_isTerminal

theorem Told.ordered (h : l.Told events) : (progresses events).Pairwise Progress.Before := by
  cases h with
  | unopened _ _ _ hevents => exact hevents ▸ .nil
  | opened _ _ hevents htale => exact hevents ▸ htale.ordered
  | ended _ _ hordered => exact hordered

theorem process_of_isFinished (h : l.isFinished = true) : l.process = ⟨l, [], .ok ()⟩ := by
  simp [process, run, step, rest, h]

/-- Nothing is told after the end. -/
theorem events_of_isFinished (h : l.isFinished = true) (c : Call) : (l.call c).events = [] := by
  have hcalled := l.called c
  generalize l.call c = d at hcalled
  have hprocess : ∀ k : Loader, k.isFinished = true → k.process.events = [] := by
    intro k hk
    rw [process_of_isFinished hk]
  cases hcalled with
  | unpacked hruns => cases h.symm.trans hruns
  | appended hruns => cases h.symm.trans hruns
  | finished => exact hprocess _ h
  | resumed => exact hprocess _ h
  | refused | failed | idle => rfl

/-- Whatever is asked of a loader and whatever its listener answers, the events are the beginning of a script:
a failure, or the opening of the file, then progress and batches each with its images, then one event that
ends the load. The loader has ended exactly when that event is told, nothing is told after it, and each
progress has more bytes and no fewer frames than those before. -/
theorem event_protocol (acks : List Ack) (calls : List Call) :
    (∃ script, Script script ∧ (session { acks } calls).2 <+: script) ∧
      ((session { acks } calls).1.isFinished = true ↔
        ∃ e ∈ (session { acks } calls).2, e.isTerminal = true) ∧
      ((session { acks } calls).1.isFinished = true →
        ∀ c, ((session { acks } calls).1.call c).events = []) ∧
      (progresses (session { acks } calls).2).Pairwise Progress.Before := by
  have htold : (session { acks } calls).1.Told (session { acks } calls).2 :=
    (told_start acks).session calls
  exact ⟨htold.exists_script, htold.isFinished_iff, events_of_isFinished, htold.ordered⟩

end Loader

end MovieVm.Movie
