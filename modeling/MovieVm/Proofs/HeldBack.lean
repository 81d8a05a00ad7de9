import MovieVm.Proofs.FailedLoads

/-!
# A listener that holds the loader back

The first answer that holds a loader back ends the call that asked for it. Until it is resumed the loader only keeps the
bytes that come, and tells of nothing, except that bytes which cannot be inflated fail the load at once.
-/

namespace MovieVm.Movie

/-- Whether an event asks the listener for an answer. -/
def LoadEvent.asks : LoadEvent → Bool
  | .symbols _ => true
  | _ => false

/-- How often events ask for an answer. -/
def questions (events : List LoadEvent) : Nat :=
  events.countP LoadEvent.asks

@[simp] theorem questions_append (events events' : List LoadEvent) :
    questions (events ++ events') = questions events + questions events' :=
  List.countP_append

namespace Loader

variable {l l' : Loader} {d : Delivery} {events : List LoadEvent} {acks : List Ack} {fault : Fault}

/-- A batch asks once, whatever images are in it. -/
@[simp] theorem questions_batchEvents (b : Batch) : questions (batchEvents b) = 1 := by
  have himages : questions ((b.symbols.filter (·.kind = .image)).map .image) = 0 := by
    apply List.countP_eq_zero.2
    intro e he
    obtain ⟨symbol, _, rfl⟩ := List.mem_map.1 he
    exact Bool.false_ne_true
  rw [batchEvents, questions, List.countP_cons_of_pos rfl]
  exact congrArg (· + 1) himages

/-! ## Answers -/

/-- What the answers of the listener do to a call: as long as none of them holds the loader back it goes on, and the
first one that does ends the call behind the batch that asked for it. -/
inductive Answered (acks : List Ack) (d : Delivery) : Prop where
  | freely (hanswers : Ack.pending ∉ acks.take (questions d.events))
    (hacks : d.loader.acks = acks.drop (questions d.events)) (hgoes : d.loader.isWaiting = false)
  | held (earlier : List LoadEvent) (b : Batch) (hevents : d.events = earlier ++ batchEvents b)
    (hanswers : Ack.pending ∉ acks.take (questions earlier)) (hanswer : acks[questions earlier]? = some .pending)
    (hacks : d.loader.acks = acks.drop (questions d.events)) (hwaits : d.loader.isWaiting = true)

/-- A call that asks nothing. -/
theorem Answered.unasked (hacks : d.loader.acks = acks) (hgoes : d.loader.isWaiting = false)
    (hevents : questions d.events = 0) : Answered acks d := by
  refine .freely ?_ ?_ hgoes
  · rw [hevents]
    exact List.not_mem_nil
  · rw [hevents, hacks, List.drop_zero]

/-- Events that ask nothing may come first. -/
theorem Answered.tell (h : Answered acks d) (hnew : questions events = 0) :
    Answered acks { d with events := events ++ d.events } := by
  have hquestions : questions (events ++ d.events) = questions d.events := by
    rw [questions_append, hnew, Nat.zero_add]
  cases h with
  | freely hanswers hacks hgoes => exact .freely (hquestions ▸ hanswers) (hquestions ▸ hacks) hgoes
  | held earlier b hevents hanswers hanswer hacks hwaits =>
    have hearlier : questions (events ++ earlier) = questions earlier := by
      rw [questions_append, hnew, Nat.zero_add]
    refine .held (events ++ earlier) b ?_ ?_ ?_ (hquestions ▸ hacks) hwaits
    · rw [List.append_assoc, ← hevents]
    · rwa [hearlier]
    · rwa [hearlier]

theorem pending_not_mem_take_succ {n : Nat} (hhead : acks.head? ≠ some .pending)
    (htail : Ack.pending ∉ acks.tail.take n) : Ack.pending ∉ acks.take (n + 1) := by
  cases acks with
  | nil => exact List.not_mem_nil
  | cons ack acks =>
    rw [List.take_succ_cons, List.mem_cons]
    rintro (rfl | hmem)
    · exact hhead rfl
    · exact htail hmem

/-- A batch whose answer lets the loader go on may come first. -/
theorem Answered.announce (h : Answered acks.tail d) (hhead : acks.head? ≠ some .pending) (b : Batch) :
    Answered acks { d with events := batchEvents b ++ d.events } := by
  have hquestions : ∀ events, questions (batchEvents b ++ events) = questions events + 1 := by
    intro events
    rw [questions_append, questions_batchEvents, Nat.add_comm]
  have hdrop : ∀ n, acks.tail.drop n = acks.drop (n + 1) := by
    intro n
    rw [← List.drop_one, List.drop_drop, Nat.add_comm]
  cases h with
  | freely hanswers hacks hgoes =>
    refine .freely ?_ ?_ hgoes
    · rw [hquestions]
      exact pending_not_mem_take_succ hhead hanswers
    · rw [hquestions, ← hdrop]
      exact hacks
  | held earlier last hevents hanswers hanswer hacks hwaits =>
    refine .held (batchEvents b ++ earlier) last ?_ ?_ ?_ ?_ hwaits
    · rw [List.append_assoc, ← hevents]
    · rw [hquestions]
      exact pending_not_mem_take_succ hhead hanswers
    · rwa [hquestions, ← List.getElem?_tail]
    · rw [hquestions, ← hdrop]
      exact hacks

/-- A loader goes on after a batch only when the answer lets it. -/
theorem ack_of_step {b : Batch} {batches : List Batch} (hstep : l.step = .next l' events)
    (hbatches : l.batches = b :: batches) : l.acks.head? ≠ some .pending := by
  intro hack
  unfold step at hstep
  split at hstep
  · cases hstep
  · simp [hbatches, deliver, hack] at hstep

theorem answered_run (hgoes : l.isWaiting = false) (fuel : Nat) : Answered l.acks (l.run fuel) := by
  induction fuel generalizing l with
  | zero => exact .unasked rfl hgoes rfl
  | succ fuel ih =>
    rw [run]
    cases hstep : l.step with
    | stop d =>
      cases halts_of_step hstep with
      | held _ _ _ hack =>
        have hanswer : l.acks[0]? = some .pending := List.head?_eq_getElem?.symm.trans hack
        refine .held [] _ rfl List.not_mem_nil hanswer ?_ rfl
        simp
      | idle | completed | refused | ended | starved => exact .unasked rfl hgoes rfl
    | next l' events =>
      have hgoesOn := goes_of_step hstep
      cases hgoesOn with
      | @announced b batches _ hbatches =>
        have hrest := ih (l := { l with batches, acks := l.acks.tail, isWaiting := false }) rfl
        exact hrest.announce (ack_of_step hstep hbatches) b
      | told =>
        have hrest := ih (l := { l with progressDue := false }) hgoes
        exact hrest.tell rfl
      | @opened _ intake _ _ rest' _ file' s =>
        let next : Loader := { l with reception := .tags intake file' rest' }
        have hrest := ih (l := { next.scanned s with state := .opened }) ((next.scanned_isWaiting s).trans hgoes)
        have hacks : (next.scanned s).acks = l.acks := next.scanned_acks s
        rw [hacks] at hrest
        exact hrest.tell rfl
      | @read intake _ file' _ rest s =>
        let next : Loader := { l with reception := .tags intake file' rest }
        have hrest := ih (l := next.scanned s) ((next.scanned_isWaiting s).trans hgoes)
        have hacks : (next.scanned s).acks = l.acks := next.scanned_acks s
        rw [hacks] at hrest
        exact hrest.tell rfl

/-- A call on a loader that may go on. -/
theorem answered_call (hgoes : l.isWaiting = false) (c : Call) : Answered l.acks (l.call c) := by
  have hcalled := l.called c
  generalize l.call c = d at hcalled
  cases hcalled with
  | refused | unpacked | failed | idle => exact .unasked rfl hgoes rfl
  | @appended _ r => exact answered_run (l := { l with reception := r }) hgoes _
  | finished => exact answered_run (l := { l with inputFinished := true }) hgoes _
  | resumed hwaits => cases hgoes.symm.trans hwaits

theorem answered_resume (hwaits : l.isWaiting = true) : Answered l.acks (l.call .resume) := by
  rw [call, resume, if_pos hwaits]
  exact answered_run (l := { l with isWaiting := false }) rfl _

/-! ## While the loader waits -/

def Call.isFinish : Call → Bool
  | .finish => true
  | _ => false

/-- The bytes that calls append before they declare the input finished. -/
def pieces : List Call → List (List UInt8)
  | .append bytes :: calls => bytes :: pieces calls
  | _ => []

/-- The pieces that a loader takes. -/
def taken (l : Loader) (calls : List Call) : List (List UInt8) :=
  if l.isFinished || l.inputFinished then [] else pieces calls

/-- What becomes of a loader that waits, and what it tells: the bytes are kept, or they cannot be inflated. -/
inductive HoldsBack (l : Loader) (calls : List Call) : Loader × List LoadEvent → Prop where
  | kept {r : Reception} (hpush : (l.taken calls).foldlM Reception.push l.reception = .ok r) :
    HoldsBack l calls
      ({ l with reception := r, inputFinished := l.inputFinished || calls.any Call.isFinish }, [])
  | inflated {stream : Deflate.Inflate} {file : File} {rest : List UInt8} {l' : Loader}
    (hdeflated : l.reception = .tags (.deflated stream) file rest)
    (hpush : (l.taken calls).foldlM Reception.push l.reception = .error .inflate) (hfailed : l'.isFinished = true) :
    HoldsBack l calls (l', [.failed .inflate])

theorem process_of_isWaiting (h : l.isWaiting = true) : l.process = ⟨l, [], .ok ()⟩ := by
  simp [process, run, step, rest, h]

theorem taken_of_closed (h : (l.isFinished || l.inputFinished) = true) (calls : List Call) : l.taken calls = [] :=
  if_pos h

theorem taken_of_open (hruns : l.isFinished = false) (hinput : l.inputFinished = false) (calls : List Call) :
    l.taken calls = pieces calls := by
  rw [taken, hruns, hinput]
  rfl

theorem taken_of_finish (calls : List Call) : l.taken (.finish :: calls) = [] :=
  ite_self _

theorem finish_of_isWaiting (hwaits : l.isWaiting = true) :
    ∃ result, l.call .finish = ⟨{ l with inputFinished := true }, [], result⟩ := by
  have hcalled := l.called .finish
  generalize l.call .finish = d at hcalled
  cases hcalled with
  | failed => exact ⟨_, rfl⟩
  | finished => exact ⟨_, process_of_isWaiting hwaits⟩

/-- What calls come to while the loader waits depends on the bytes alone. -/
theorem session_of_isWaiting (hwaits : l.isWaiting = true) {calls : List Call} (hresume : Call.resume ∉ calls) :
    match (l.taken calls).foldlM Reception.push l.reception with
    | .ok r =>
      l.session calls = ({ l with reception := r, inputFinished := l.inputFinished || calls.any Call.isFinish }, [])
    | .error fault => (l.session calls).1.isFinished = true ∧ (l.session calls).2 = [.failed fault] := by
  induction calls generalizing l with
  | nil =>
    have htaken : l.taken [] = [] := ite_self _
    rw [htaken]
    simp [session, pure, Except.pure]
  | cons c calls ih =>
    obtain ⟨hc, hcalls⟩ := List.ne_and_not_mem_of_not_mem_cons hresume
    rw [session]
    cases c with
    | append bytes =>
      have hcalled := l.called (.append bytes)
      generalize l.call (.append bytes) = d at hcalled
      cases hcalled with
      | refused hclosed =>
        have hrest := ih hwaits hcalls
        rw [taken_of_closed hclosed] at hrest ⊢
        exact hrest
      | unpacked hruns hinput hpush =>
        -- The failure is told at once, and nothing comes behind it.
        obtain ⟨hended, _, hevents⟩ := session_of_isFinished (l := (l.fail _).loader) rfl calls
        rw [taken_of_open hruns hinput, pieces, List.foldlM_cons, hpush, hevents]
        exact ⟨hended, rfl⟩
      | @appended _ r hruns hinput hpush =>
        let received : Loader := { l with reception := r }
        have hkept : received.process = ⟨received, [], .ok ()⟩ := process_of_isWaiting hwaits
        have htaken : received.taken calls = pieces calls := taken_of_open hruns hinput calls
        have hrest := ih (l := received) hwaits hcalls
        rw [htaken] at hrest
        rw [taken_of_open hruns hinput, pieces, List.foldlM_cons, hpush, hkept]
        exact hrest
    | finish =>
      let closed : Loader := { l with inputFinished := true }
      obtain ⟨result, hfinish⟩ := finish_of_isWaiting hwaits
      have htaken : closed.taken calls = [] := taken_of_closed (Bool.or_true _) calls
      have hended : (l.inputFinished || (Call.finish :: calls).any Call.isFinish) = true := Bool.or_true _
      have hrest := ih (l := closed) hwaits hcalls
      rw [htaken] at hrest
      rw [hfinish, taken_of_finish, hended]
      exact hrest
    | resume => exact absurd rfl hc

/-! ## What a loader that waits has read -/

/-- A loader that waits has announced a batch, so it has a file. -/
def WaitsOpen (l : Loader) : Prop :=
  l.isWaiting = true → (l.file?).isSome = true

theorem WaitsOpen.of_goes (h : l.WaitsOpen) (hgoes : l.Goes l' events) : l'.WaitsOpen := by
  cases hgoes with
  | announced => exact fun hwaits => nomatch hwaits
  | told => exact h
  | opened =>
    intro _
    exact congrArg (Option.isSome ∘ Reception.file?) (scanned_reception _ _)
  | read =>
    intro _
    exact congrArg (Option.isSome ∘ Reception.file?) (scanned_reception _ _)

theorem WaitsOpen.of_halts (h : l.WaitsOpen) {told : List LoadEvent} (htold : l.Told told) (hhalts : l.Halts d) :
    d.loader.WaitsOpen := by
  cases hhalts with
  | idle | completed | ended | starved => exact h
  | held hruns _ hbatches =>
    intro _
    obtain ⟨file, hfile⟩ := htold.of_batch hruns (by simp [hbatches])
    exact congrArg Option.isSome hfile
  | refused _ hrefused =>
    generalize hreception : l.reception = received at hrefused
    cases hrefused with
    | header =>
      intro hwaits
      have hnone : l.file? = none := congrArg Reception.file? hreception
      simpa [hnone] using h hwaits
    | firstTags | tags => exact fun _ => rfl

/-- Whatever is done, a loader that waits has a file. -/
theorem waitsOpen_kept : Kept fun l _ events => l.WaitsOpen ∧ l.Told events where
  goes h hgoes := ⟨h.1.of_goes hgoes, h.2.goes hgoes⟩
  halts h hhalts := ⟨h.1.of_halts h.2 hhalts, h.2.halts hhalts⟩
  push h _ hpush := by
    have hfile := file?_of_push hpush
    exact ⟨fun hwaits => (congrArg Option.isSome hfile).trans (h.1 hwaits), h.2.same hfile rfl rfl rfl⟩
  fail h hruns _ := ⟨h.1, h.2.fail hruns rfl⟩
  finish h := ⟨h.1, h.2.same rfl rfl rfl rfl⟩
  resume h := ⟨nofun, h.2.same rfl rfl rfl rfl⟩

theorem WaitsOpen.session (h : l.WaitsOpen) {told : List LoadEvent} (htold : l.Told told) (calls : List Call) :
    (l.session calls).1.WaitsOpen :=
  (waitsOpen_kept.session [] told ⟨h, htold⟩ calls).1

/-! ## Held back -/

/-- Behind the header only bytes that cannot be inflated are refused. -/
theorem inflate_of_pushes {intake : Intake} {file : File} {rest : List UInt8} {bytes : List (List UInt8)}
    (h : bytes.foldlM Reception.push (.tags intake file rest) = .error fault) :
    fault = .inflate ∧ ∃ stream, intake = .deflated stream := by
  induction bytes generalizing intake rest with
  | nil => cases h
  | cons piece bytes ih =>
    rw [List.foldlM_cons] at h
    cases intake with
    | plain =>
      have hrest : bytes.foldlM Reception.push (.tags .plain file (rest ++ piece)) = .error fault := h
      obtain ⟨_, stream, hplain⟩ := ih hrest
      cases hplain
    | deflated stream =>
      refine ⟨?_, stream, rfl⟩
      cases hpush : stream.push piece with
      | none =>
        have hfault : Reception.push (.tags (.deflated stream) file rest) piece = .error .inflate := by
          simp only [Reception.push, Intake.push, hpush]
          rfl
        rw [hfault] at h
        cases h
        rfl
      | some added =>
        obtain ⟨body, stream'⟩ := added
        have hadded : Reception.push (.tags (.deflated stream) file rest) piece =
            .ok (.tags (.deflated stream') file (rest ++ body)) := by
          simp only [Reception.push, Intake.push, hpush]
          rfl
        rw [hadded] at h
        exact (ih h).1

theorem WaitsOpen.holdsBack (h : l.WaitsOpen) (hwaits : l.isWaiting = true) {calls : List Call}
    (hresume : Call.resume ∉ calls) : HoldsBack l calls (l.session calls) := by
  have hsession := session_of_isWaiting hwaits hresume
  cases hpush : (l.taken calls).foldlM Reception.push l.reception with
  | ok r =>
    rw [hpush] at hsession
    rw [hsession]
    exact .kept hpush
  | error fault =>
    rw [hpush] at hsession
    obtain ⟨hfailed, hevents⟩ := hsession
    obtain ⟨file, hfile⟩ := Option.isSome_iff_exists.1 (h hwaits)
    obtain ⟨intake, rest, hreception⟩ := exists_tags_of_file? hfile
    have hrefused := hpush
    rw [hreception] at hrefused
    obtain ⟨rfl, stream, rfl⟩ := inflate_of_pushes hrefused
    have hsplit : l.session calls = ((l.session calls).1, [.failed .inflate]) := by
      rw [← hevents]
    rw [hsplit]
    exact .inflated hreception hpush hfailed

/-- At any point of a load, a call goes on as long as the listener lets it, and the first answer that holds the loader
back ends it. What is called then comes to nothing until the loader is resumed: the bytes are kept and nothing is told,
except that bytes which cannot be inflated fail the load at once. -/
theorem pending_holds_back (acks : List Ack) (before : List Call) :
    ((session { acks } before).1.isWaiting = false →
        ∀ c, Answered (session { acks } before).1.acks ((session { acks } before).1.call c)) ∧
      ((session { acks } before).1.isWaiting = true →
        Answered (session { acks } before).1.acks ((session { acks } before).1.call .resume) ∧
          ∀ during, Call.resume ∉ during →
            HoldsBack (session { acks } before).1 during ((session { acks } before).1.session during)) := by
  have hstart : WaitsOpen { acks } := by
    intro hwaits
    cases hwaits
  have hopen : (session { acks } before).1.WaitsOpen := hstart.session (told_start acks) before
  refine ⟨answered_call, ?_⟩
  intro hwaits
  exact ⟨answered_resume hwaits, fun during hresume => hopen.holdsBack hwaits hresume⟩

/-- The first bytes of a deflated file with an image. -/
def imageFront : List UInt8 :=
  [0x43, 0x57, 0x53, 10, 20, 0, 0, 0] ++ [0x78, 0x01, 0, 10, 0, 0xf5, 0xff] ++ [0, 0, 24, 1, 0] ++ [0x03, 0x09, 5, 0, 3]

/-- The blocks of such a file that hold its end. -/
def imageRest : List UInt8 :=
  [0x01, 2, 0, 0xfd, 0xff, 0, 0] ++ [0x01, 0x72, 0x00, 0x2e]

theorem imageRest_is_held_back :
    (session { acks := [.pending] } [.append imageFront]).1.isWaiting = true ∧
      Answered (session { acks := [.pending] } [.append imageFront]).1.acks
        ((session { acks := [.pending] } [.append imageFront]).1.call .resume) ∧
      Call.resume ∉ [.append imageRest, .finish] ∧
      HoldsBack (session { acks := [.pending] } [.append imageFront]).1 [.append imageRest, .finish]
        ((session { acks := [.pending] } [.append imageFront]).1.session [.append imageRest, .finish]) := by
  have hwaits : (session { acks := [.pending] } [.append imageFront]).1.isWaiting = true := by decide +kernel
  have hresume : Call.resume ∉ [.append imageRest, .finish] := by simp
  obtain ⟨_, hheld⟩ := pending_holds_back [.pending] [.append imageFront]
  obtain ⟨hanswered, hkept⟩ := hheld hwaits
  exact ⟨hwaits, hanswered, hresume, hkept _ hresume⟩

/-- A block that is no block fails the load while the listener holds it back. -/
theorem badBlock_fails_held_load :
    (session { acks := [.pending] } [.append imageFront]).1.isWaiting = true ∧
      ((session { acks := [.pending] } [.append imageFront]).1.session [.append [0x07]]).2 = [.failed .inflate] := by
  decide +kernel

end Loader

end MovieVm.Movie
