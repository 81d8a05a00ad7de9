import MovieVm.Proofs.LoadEvents

/-!
# Loads that fail

A load that fails tells so once. It may do so without having opened the file: when the header was never read, and also
when one of the tags that had arrived together with the header cannot be read. A tag that comes later fails in an open
file.
-/

namespace MovieVm.Movie.Loader

variable {l l' : Loader} {d : Delivery} {events new : List LoadEvent} {fault : Fault}

/-! ## How a load fails -/

/-- The events of a load that has failed, and what the loader holds then. -/
inductive Failure (l : Loader) (fault : Fault) : List LoadEvent → Prop where
  | unread (hfile : l.file? = none) : Failure l fault [.failed fault]
  | atOnce {p : Preamble} {intake : Intake} {body rest left : List UInt8} {start file : File}
    (hheader : p.readHeader body = .ok (some (start, rest))) (hscan : start.scan rest = (file, left, .error fault))
    (hreception : l.reception = .tags intake file left) : Failure l fault [.failed fault]
  | opened {file first : File} {told : List LoadEvent} (hfile : l.file? = some file) (htelling : Telling told) :
    Failure l fault (.opened first :: told ++ [.failed fault])

/-- What the loader has received is all that counts. -/
theorem Failure.same (h : l.Failure fault events) (hreception : l'.reception = l.reception) :
    l'.Failure fault events := by
  have hfile : l'.file? = l.file? := by rw [file?, file?, hreception]
  cases h with
  | unread hnone => exact .unread (hfile.trans hnone)
  | atOnce hheader hscan hthere => exact .atOnce hheader hscan (hreception.trans hthere)
  | opened hsome htelling => exact .opened (hfile.trans hsome) htelling

/-! ## The failing step -/

theorem failed_not_mem_of_goes (h : l.Goes l' new) (fault : Fault) : LoadEvent.failed fault ∉ new := by
  intro hmem
  cases h with
  | announced => cases not_isTerminal_batchEvents hmem
  | told => cases List.mem_singleton.1 hmem
  | opened => cases List.mem_singleton.1 hmem
  | read => cases hmem

/-- The failure is the last event of a load that was told of before. -/
theorem Told.failure_of_file (h : l.Told events) (hruns : l.isFinished = false) {file : File}
    (hfile : l.file? = some file) (hkept : (l'.file?).isSome = true) :
    l'.Failure fault (events ++ [.failed fault]) := by
  obtain ⟨first, told, _, rfl, htale⟩ := h.of_file hruns hfile
  obtain ⟨file', hfile'⟩ := Option.isSome_iff_exists.1 hkept
  exact .opened hfile' htale.telling

theorem Told.failure_of_unread (h : l.Told events) (hruns : l.isFinished = false) (hfile : l.file? = none)
    (hfailure : l'.Failure fault [.failed fault]) : l'.Failure fault (events ++ [.failed fault]) := by
  cases h with
  | unopened _ _ _ hevents => rwa [hevents]
  | opened _ hsome => cases hfile.symm.trans hsome
  | ended hfinished => cases hruns.symm.trans hfinished

theorem Told.failure_of_halts (h : l.Told events) (hhalts : l.Halts d) (hmem : LoadEvent.failed fault ∈ d.events) :
    d.loader.Failure fault (events ++ d.events) := by
  cases hhalts with
  | idle => cases hmem
  | held => cases not_isTerminal_batchEvents hmem
  | completed => cases List.mem_singleton.1 hmem
  | starved => cases hmem
  | ended hruns =>
    cases List.mem_singleton.1 hmem
    cases hfile : l.file? with
    | none => exact h.failure_of_unread hruns hfile (.unread hfile)
    | some file => exact h.failure_of_file hruns hfile (congrArg Option.isSome hfile)
  | @refused fault' r hruns hrefused =>
    cases List.mem_singleton.1 hmem
    generalize hreception : l.reception = received at hrefused
    have hfile : l.file? = received.file? := congrArg Reception.file? hreception
    cases hrefused with
    | header => exact h.failure_of_unread hruns hfile (.unread rfl)
    | firstTags hheader hscan => exact h.failure_of_unread hruns hfile (.atOnce hheader hscan rfl)
    | tags => exact h.failure_of_file hruns hfile rfl

theorem Told.failure_of_delivers (h : l.Told events) (hd : l.Delivers d) (hmem : LoadEvent.failed fault ∈ d.events) :
    d.loader.Failure fault (events ++ d.events) := by
  induction hd generalizing events with
  | stop hhalts => exact h.failure_of_halts hhalts hmem
  | next hgoes _ ih =>
    rw [← List.append_assoc]
    refine ih (h.goes hgoes) ?_
    exact (List.mem_append.1 hmem).resolve_left (failed_not_mem_of_goes hgoes fault)

/-! ## Calls -/

theorem Told.failure_of_call (h : l.Told events) (c : Call) (hmem : LoadEvent.failed fault ∈ (l.call c).events) :
    (l.call c).loader.Failure fault (events ++ (l.call c).events) := by
  have hcalled := l.called c
  generalize l.call c = d at hcalled hmem
  cases hcalled with
  | refused | failed | idle => cases hmem
  | unpacked hruns =>
    cases List.mem_singleton.1 hmem
    cases hfile : l.file? with
    | none => exact h.failure_of_unread hruns hfile (.unread hfile)
    | some file => exact h.failure_of_file hruns hfile (congrArg Option.isSome hfile)
  | appended _ _ hpush =>
    have hpushed : Told { l with reception := _ } events := h.same (file?_of_push hpush) rfl rfl rfl
    exact hpushed.failure_of_delivers (delivers_process _) hmem
  | finished =>
    have hclosed : Told { l with inputFinished := true } events := h.same rfl rfl rfl rfl
    exact hclosed.failure_of_delivers (delivers_process _) hmem
  | resumed =>
    have hresumed : Told { l with isWaiting := false } events := h.same rfl rfl rfl rfl
    exact hresumed.failure_of_delivers (delivers_process _) hmem

/-- A load that has ended takes no notice of what is asked. -/
theorem reception_call_of_isFinished (h : l.isFinished = true) (c : Call) :
    (l.call c).loader.isFinished = true ∧ (l.call c).loader.reception = l.reception := by
  have hcalled := l.called c
  generalize l.call c = d at hcalled
  have hprocess : ∀ k : Loader, k.isFinished = true → k.reception = l.reception →
      k.process.loader.isFinished = true ∧ k.process.loader.reception = l.reception := by
    intro k hk hreception
    rw [process_of_isFinished hk]
    exact ⟨hk, hreception⟩
  cases hcalled with
  | refused | failed | idle => exact ⟨h, rfl⟩
  | unpacked hruns => cases h.symm.trans hruns
  | appended hruns => cases h.symm.trans hruns
  | finished => exact hprocess _ h rfl
  | resumed => exact hprocess _ h rfl

theorem session_of_isFinished (h : l.isFinished = true) (calls : List Call) :
    (l.session calls).1.isFinished = true ∧ (l.session calls).1.reception = l.reception ∧
      (l.session calls).2 = [] := by
  induction calls generalizing l with
  | nil => exact ⟨h, rfl, rfl⟩
  | cons c calls ih =>
    obtain ⟨hfinished, hreception⟩ := reception_call_of_isFinished h c
    obtain ⟨hended, hrest, hevents⟩ := ih hfinished
    exact ⟨hended, hrest.trans hreception, List.append_eq_nil_iff.2 ⟨events_of_isFinished h c, hevents⟩⟩

theorem Told.failure_of_session (h : l.Told events) (calls : List Call)
    (hmem : LoadEvent.failed fault ∈ (l.session calls).2) :
    (l.session calls).1.Failure fault (events ++ (l.session calls).2) := by
  induction calls generalizing l events with
  | nil => cases hmem
  | cons c calls ih =>
    rw [Loader.session] at hmem ⊢
    rw [← List.append_assoc]
    by_cases hnow : LoadEvent.failed fault ∈ (l.call c).events
    · -- The failure ends the load, so the other calls tell of nothing.
      have hfailure := h.failure_of_call c hnow
      have hfinished : (l.call c).loader.isFinished = true :=
        (h.call c).isFinished_iff.2 ⟨_, List.mem_append_right _ hnow, rfl⟩
      obtain ⟨_, hreception, hevents⟩ := session_of_isFinished hfinished calls
      simp only [hevents, List.append_nil]
      exact hfailure.same hreception
    · exact ih (h.call c) ((List.mem_append.1 hmem).resolve_left hnow)

/-- Whatever is asked of a loader and whatever its listener answers, a load that fails has opened its file before and
the failure is its last event, or the failure is its only event. In the second case the loader holds no file, or one of
the tags that were read in one go with the header has failed. -/
theorem failures_and_openings (acks : List Ack) (calls : List Call)
    (h : LoadEvent.failed fault ∈ (session { acks } calls).2) :
    (session { acks } calls).1.Failure fault (session { acks } calls).2 :=
  (told_start acks).failure_of_session calls h

/-- The preamble and the header of a file. -/
def shortFront : List UInt8 :=
  [0x46, 0x57, 0x53, 10, 17, 0, 0, 0] ++ [0, 0, 24, 1, 0]

/-- A table of names that lacks its entries. -/
def shortTable : List UInt8 :=
  [0x02, 0x13, 5, 0]

def shortFault : Fault :=
  .malformedTag "SYMBOL_CLASS" 13 "unexpected end of data at offset 17"

theorem shortTable_fails_after_opening :
    LoadEvent.failed shortFault ∈ (session {} [.append shortFront, .append shortTable]).2 ∧
      (session {} [.append shortFront, .append shortTable]).1.Failure shortFault
        (session {} [.append shortFront, .append shortTable]).2 := by
  have hfailed : LoadEvent.failed shortFault ∈ (session {} [.append shortFront, .append shortTable]).2 := by
    decide +kernel
  exact ⟨hfailed, failures_and_openings [] _ hfailed⟩

/-- In one piece the same bytes fail without an opening, although their header is read. -/
theorem shortTable_fails_unopened :
    (session {} [.append (shortFront ++ shortTable)]).2 = [.failed shortFault] ∧
      (session {} [.append (shortFront ++ shortTable)]).1.file?.isSome = true := by
  decide +kernel

end MovieVm.Movie.Loader
