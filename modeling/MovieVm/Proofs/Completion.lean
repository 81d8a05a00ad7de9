import MovieVm.Proofs.ConsistentFiles
import MovieVm.Proofs.PlainLoad
import MovieVm.Proofs.Truncation

/-!
# Completed loads

A load that succeeds, at once or in pieces, has a complete file, and exactly that file has been told of as complete. A
caller that hands over pieces and lets the loader go on makes calls like any other.
-/

namespace MovieVm.Movie

/-- Bytes that leave a reception within the preamble are fewer than a preamble has. -/
theorem Reception.short_of_push {r : Reception} {bytes begun : List UInt8} (h : r.push bytes = .ok (.preamble begun)) :
    begun.length < Preamble.size := by
  cases r with
  | preamble before =>
    rw [push] at h
    split at h
    · rename_i hshort
      cases h
      exact hshort
    · obtain ⟨p, -, h⟩ := Except.bind_eq_ok.1 h
      obtain ⟨added, -, h⟩ := Except.bind_eq_ok.1 h
      cases h
  | header p intake body =>
    obtain ⟨added, -, h⟩ := Except.bind_eq_ok.1 h
    cases h
  | tags intake file rest =>
    obtain ⟨added, -, h⟩ := Except.bind_eq_ok.1 h
    cases h

namespace Loader

variable {l l' : Loader} {d e : Delivery} {events new : List LoadEvent} {bytes more : List UInt8} {file : File}
  {acks : List Ack} {chunks : List (List UInt8)}

/-! ## Loads that succeed -/

/-- A piece that is taken in leaves a loader that has not failed and still waits for input. -/
theorem Sound.append (h : l.Sound) (hinput : l.inputFinished = false) (hok : (l.append bytes).result = .ok ()) :
    ∃ k : Loader, k.inputFinished = false ∧ k.Tells (l.append bytes) := by
  by_cases hcomplete : l.state = .complete
  · rw [append_of_complete hcomplete hinput]
    refine ⟨l, hinput, .goesOn rfl (.refl h) ?_⟩
    intro _ hended
    cases hinput.symm.trans hended
  · have hruns : l.isFinished = false := isFinished_eq_false.2 ⟨hcomplete, h.running⟩
    cases hpush : l.reception.push bytes with
    | error fault =>
      rw [append_of_error hruns hinput hpush] at hok
      cases hok
    | ok r =>
      have hbegun : ∀ begun, r = .preamble begun → begun.length < Preamble.size := by
        rintro begun rfl
        exact Reception.short_of_push hpush
      have hsound : Sound { l with reception := r } := ⟨hbegun, h.running, fun hstate => absurd hstate hcomplete⟩
      rw [append_of_ok hruns hinput hpush]
      exact ⟨{ l with reception := r }, hinput, process_tells hsound⟩

theorem Tells.sound (h : l.Tells d) (hok : d.result = .ok ()) :
    d.loader.Sound ∧ d.loader.inputFinished = l.inputFinished := by
  cases h with
  | fails hresult => cases hresult.symm.trans hok
  | goesOn _ hcarries => exact ⟨hcarries.sound, hcarries.input⟩

/-- When the end of the input is no fault, the file is complete. -/
theorem complete_of_finish (h : l.Sound) (hok : l.finish.settled.result = .ok ()) :
    l.finish.settled.loader.state = .complete := by
  cases (finish_tells h).settled with
  | fails hresult => cases hresult.symm.trans hok
  | goesOn _ hcarries hsettled => exact hsettled (Delivery.isWaiting_settled hok) hcarries.input

theorem Delivery.ok_of_andThen (h : (d.andThen e).result = .ok ()) : d.result = .ok () ∧ e.result = .ok () := by
  cases hresult : d.result with
  | error fault =>
    rw [andThen_of_error hresult, hresult] at h
    cases h
  | ok _ =>
    rw [andThen_of_ok hresult] at h
    exact ⟨rfl, h⟩

theorem complete_of_load (hok : (load { acks } bytes).settled.result = .ok ()) :
    (load { acks } bytes).settled.loader.state = .complete := by
  rw [load_eq_andThen, Delivery.settled_andThen] at hok ⊢
  obtain ⟨hfirst, hlast⟩ := Delivery.ok_of_andThen hok
  rw [Delivery.andThen_of_ok hfirst]
  obtain ⟨k, -, htells⟩ := (sound_start acks).append rfl hfirst
  exact complete_of_finish (htells.sound hfirst).1 hlast

theorem complete_of_feed (h : l.Sound) (hinput : l.inputFinished = false) (hok : (l.feed chunks).result = .ok ()) :
    (l.feed chunks).loader.state = .complete := by
  induction chunks generalizing l with
  | nil => exact complete_of_finish h hok
  | cons chunk chunks ih =>
    rw [feed] at hok ⊢
    obtain ⟨hfirst, hrest⟩ := Delivery.ok_of_andThen hok
    rw [Delivery.andThen_of_ok hfirst]
    obtain ⟨k, hk, htells⟩ := h.append hinput (Delivery.ok_of_andThen hfirst).1
    obtain ⟨hsound, hsame⟩ := htells.settled.sound hfirst
    exact ih hsound (hsame.trans hk) hrest

/-! ## Files that are told of as complete -/

/-- A file has been told of as complete exactly when the load is complete and has the file. -/
def Completes (l : Loader) (events : List LoadEvent) : Prop :=
  ∀ file, .completed file ∈ events ↔ l.state = .complete ∧ l.file? = some file

theorem completes_start (acks : List Ack) : Completes { acks } [] := by
  intro file
  refine iff_of_false List.not_mem_nil ?_
  rintro ⟨hstate, -⟩
  cases hstate

theorem Completes.same (h : l.Completes events) (hstate : l'.state = l.state) (hfile : l'.file? = l.file?) :
    l'.Completes events := by
  intro file
  rw [hstate, hfile]
  exact h file

/-- Where neither loader is complete nothing is told of as complete. -/
theorem Completes.quiet (h : l.Completes events) (hl : l.state ≠ .complete) (hl' : l'.state ≠ .complete)
    (hnew : ∀ file, LoadEvent.completed file ∉ new) : l'.Completes (events ++ new) := by
  intro file
  refine iff_of_false ?_ fun hcomplete => hl' hcomplete.1
  intro hmem
  obtain hold | hnow := List.mem_append.1 hmem
  · exact hl ((h file).1 hold).1
  · exact hnew file hnow

theorem completed_not_mem_batchEvents (b : Batch) (file : File) : LoadEvent.completed file ∉ batchEvents b := by
  intro hmem
  cases not_isTerminal_batchEvents hmem

theorem Goes.runs (h : l.Goes l' new) : l.isFinished = false := by
  cases h with
  | announced hruns | told hruns | opened hruns | read hruns => exact hruns

theorem Completes.goes (h : l.Completes events) (hgoes : l.Goes l' new) : l'.Completes (events ++ new) := by
  have hl := (isFinished_eq_false.1 hgoes.runs).1
  refine h.quiet hl (hgoes.state_ne hl) ?_
  intro file
  cases hgoes with
  | announced => exact completed_not_mem_batchEvents _ file
  | told | opened | read => simp

theorem Completes.halts (h : l.Completes events) (hhalts : l.Halts d) : d.loader.Completes (events ++ d.events) := by
  cases hhalts with
  | idle | starved =>
    rw [List.append_nil]
    exact h
  | held hruns =>
    have hl := (isFinished_eq_false.1 hruns).1
    exact h.quiet hl hl (completed_not_mem_batchEvents _)
  | refused hruns | ended hruns =>
    exact h.quiet (isFinished_eq_false.1 hruns).1 (by simp [fail]) (by simp [fail])
  | @completed intake f body hruns hreception =>
    intro file
    have hfile : l.file? = some f := by rw [file?, hreception]; rfl
    have hnone : LoadEvent.completed file ∉ events := fun hmem => (isFinished_eq_false.1 hruns).1 ((h file).1 hmem).1
    -- The one file that is told of is the one that the loader has.
    have hiff : LoadEvent.completed file ∈ events ++ [.completed f] ↔ file = f := by simp [hnone]
    rw [hiff]
    constructor
    · rintro rfl
      exact ⟨rfl, hfile⟩
    · rintro ⟨-, hthere⟩
      exact Option.some.inj (hthere.symm.trans hfile)

theorem completes_kept : Kept fun l _ events => l.Completes events where
  goes h hgoes := h.goes hgoes
  halts h hhalts := h.halts hhalts
  push h _ hpush := h.same rfl (file?_of_push hpush)
  fail h hruns _ := h.quiet (isFinished_eq_false.1 hruns).1 (by simp [Loader.fail]) (by simp)
  finish h := h.same rfl rfl
  resume h := h.same rfl rfl

theorem Completes.session (h : l.Completes events) (calls : List Call) :
    (l.session calls).1.Completes (events ++ (l.session calls).2) :=
  completes_kept.session [] _ h calls

/-- The script of a complete load ends with its file. -/
theorem Told.of_complete (h : l.Told events) (hcompletes : l.Completes events) (hstate : l.state = .complete)
    (hfile : l.file? = some file) :
    ∃ first told, Telling told ∧ events = .opened first :: told ++ [.completed file] := by
  have hmem : .completed file ∈ events := (hcompletes file).2 ⟨hstate, hfile⟩
  have hscript := h.script (by simp [isFinished, hstate])
  have hflawless := (hscript.of_completed hmem).2
  cases hscript with
  | unopened fault => exact absurd (List.mem_singleton_self _) (hflawless fault)
  | failed _ first fault => exact absurd (List.mem_append_right _ (List.mem_singleton_self _)) (hflawless fault)
  | @completed told htelling first last =>
    have hlast := (hcompletes last).1 (List.mem_append_right _ (List.mem_singleton_self _))
    obtain rfl := Option.some.inj (hlast.2.symm.trans hfile)
    exact ⟨first, told, htelling, rfl⟩

/-! ## Callers -/

/-- Some calls, which bring the bytes, come to the delivery. -/
def Asks (l : Loader) (bytes : List UInt8) (d : Delivery) : Prop :=
  ∃ calls, l.session calls = (d.loader, d.events) ∧ l.arrived calls = bytes

theorem asks_call (l : Loader) (c : Call) : l.Asks (l.accepted c) (l.call c) :=
  ⟨[c], by simp [session], by simp [arrived]⟩

/-- The second of two calls is made unless the first one fails. -/
theorem Asks.andThen (h : l.Asks bytes d) (hnext : d.loader.Asks more e) :
    l.Asks bytes (d.andThen e) ∨ l.Asks (bytes ++ more) (d.andThen e) := by
  cases hresult : d.result with
  | error fault =>
    rw [Delivery.andThen_of_error hresult]
    exact .inl h
  | ok _ =>
    obtain ⟨calls, hcalls, hbytes⟩ := h
    obtain ⟨others, hothers, hmore⟩ := hnext
    refine .inr ⟨calls ++ others, ?_, ?_⟩
    · rw [session_append, hcalls, hothers, Delivery.andThen_of_ok hresult]
    · rw [arrived_append, hbytes, hcalls, hmore]

theorem asks_settle (l : Loader) : l.Asks [] l.settle := by
  fun_induction settle l with
  | case1 l hwaiting ih => exact ((asks_call l .resume).andThen ih).elim id id
  | case2 l hwaiting => exact ⟨[], rfl, rfl⟩

theorem Asks.settled (h : l.Asks bytes d) : l.Asks bytes d.settled := by
  obtain hfirst | hboth := h.andThen (asks_settle d.loader)
  · exact hfirst
  · rwa [List.append_nil] at hboth

theorem Delivers.inputFinished (h : l.Delivers d) : d.loader.inputFinished = l.inputFinished := by
  induction h with
  | stop hhalts => cases hhalts <;> rfl
  | next hgoes _ ih =>
    refine ih.trans ?_
    cases hgoes with
    | announced | told => rfl
    | opened | read => exact scanned_inputFinished _ _

/-- A loader that takes no more bytes never takes any again. -/
theorem closed_call (h : (l.isFinished || l.inputFinished) = true) (c : Call) :
    ((l.call c).loader.isFinished || (l.call c).loader.inputFinished) = true := by
  obtain hfinished | hinput := Bool.or_eq_true_iff.1 h
  · rw [(reception_call_of_isFinished hfinished c).1]
    rfl
  · have hcalled := l.called c
    generalize l.call c = d at hcalled
    cases hcalled with
    | refused hclosed => exact hclosed
    | unpacked _ hopen | appended _ hopen => cases hinput.symm.trans hopen
    | failed => exact Bool.or_true _
    | idle => exact h
    | finished | resumed => simp [(delivers_process _).inputFinished, hinput]

theorem arrived_of_closed (h : (l.isFinished || l.inputFinished) = true) (calls : List Call) : l.arrived calls = [] := by
  induction calls generalizing l with
  | nil => rfl
  | cons c calls ih =>
    have hnone : l.accepted c = [] := by
      cases c with
      | append bytes => exact if_pos h
      | finish | resume => rfl
    rw [arrived, hnone, ih (closed_call h c)]
    rfl

/-- Pieces that are handed over one by one are calls that bring the first of their bytes, up to the piece that
completes the file or fails. -/
theorem asks_feed (l : Loader) (chunks : List (List UInt8)) :
    ∃ bytes, bytes <+: chunks.flatten ∧ l.Asks bytes (l.feed chunks) := by
  induction chunks generalizing l with
  | nil => exact ⟨[], List.nil_prefix, (asks_call l .finish).settled⟩
  | cons chunk chunks ih =>
    have hfirst : l.Asks (l.accepted (.append chunk)) (l.append chunk).settled := (asks_call l (.append chunk)).settled
    obtain ⟨more, hprefix, hmore⟩ := ih (l.append chunk).settled.loader
    have hboth := hfirst.andThen hmore
    rw [feed, List.flatten_cons]
    cases hclosed : l.isFinished || l.inputFinished with
    | true =>
      -- Whatever the calls are, they bring nothing.
      have hnone : ∀ brought, l.Asks brought ((l.append chunk).settled.andThen
          ((l.append chunk).settled.loader.feed chunks)) → brought = [] := by
        rintro brought ⟨calls, -, hbrought⟩
        rw [← hbrought, arrived_of_closed hclosed]
      obtain hasks | hasks := hboth
      · exact ⟨_, hnone _ hasks ▸ List.nil_prefix, hasks⟩
      · exact ⟨_, hnone _ hasks ▸ List.nil_prefix, hasks⟩
    | false =>
      have hchunk : l.accepted (.append chunk) = chunk := if_neg (Bool.eq_false_iff.1 hclosed)
      rw [hchunk] at hboth
      obtain hasks | hasks := hboth
      · exact ⟨chunk, List.prefix_append .., hasks⟩
      · exact ⟨chunk ++ more, (List.prefix_append_right_inj chunk).2 hprefix, hasks⟩

end Loader

end MovieVm.Movie
