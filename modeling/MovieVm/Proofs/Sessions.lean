import MovieVm.Proofs.LoaderSteps

/-!
# Sessions

What can be asked of a loader, in any order, and what a sequence of such calls keeps: a property that every step keeps,
and that stays when bytes arrive, when the input is declared finished and when the loader is let go on.
-/

namespace MovieVm.Movie.Loader

/-! ## Calls -/

/-- What can be asked of a loader. -/
inductive Call where
  | append (bytes : List UInt8)
  | finish
  | resume

def call (l : Loader) : Call → Delivery
  | .append bytes => l.append bytes
  | .finish => l.finish
  | .resume => l.resume

/-- The loader after a sequence of calls, whatever they answer, and all events they led to. -/
def session (l : Loader) : List Call → Loader × List LoadEvent
  | [] => (l, [])
  | c :: calls =>
    let after := (l.call c).loader.session calls
    (after.1, (l.call c).events ++ after.2)

/-- The bytes that a call brings; a loader that has ended, or whose input has, takes none. -/
def accepted (l : Loader) : Call → List UInt8
  | .append bytes => if l.isFinished || l.inputFinished then [] else bytes
  | .finish => []
  | .resume => []

/-- The bytes that a sequence of calls brings. -/
def arrived (l : Loader) : List Call → List UInt8
  | [] => []
  | c :: calls => l.accepted c ++ (l.call c).loader.arrived calls

theorem session_append (l : Loader) (calls others : List Call) :
    l.session (calls ++ others) = (((l.session calls).1.session others).1,
      (l.session calls).2 ++ ((l.session calls).1.session others).2) := by
  induction calls generalizing l with
  | nil => rfl
  | cons c calls ih => simp only [List.cons_append, session, ih, List.append_assoc]

theorem arrived_append (l : Loader) (calls others : List Call) :
    l.arrived (calls ++ others) = l.arrived calls ++ (l.session calls).1.arrived others := by
  induction calls generalizing l with
  | nil => rfl
  | cons c calls ih => simp only [List.cons_append, arrived, session, ih, List.append_assoc]

variable {l : Loader} {d : Delivery}

/-- What a call can come to: nothing, a fault in the bytes themselves, or steps until one ends the call. -/
inductive Called (l : Loader) : Call → Delivery → Prop where
  | refused {bytes : List UInt8} {result : Except Fault Unit} (hclosed : (l.isFinished || l.inputFinished) = true) :
    Called l (.append bytes) ⟨l, [], result⟩
  | unpacked {bytes : List UInt8} {fault : Fault} (hruns : l.isFinished = false) (hinput : l.inputFinished = false)
    (hpush : l.reception.push bytes = .error fault) : Called l (.append bytes) (l.fail fault)
  | appended {bytes : List UInt8} {r : Reception} (hruns : l.isFinished = false) (hinput : l.inputFinished = false)
    (hpush : l.reception.push bytes = .ok r) : Called l (.append bytes) (process { l with reception := r })
  | failed (hstate : l.state = .failed) : Called l .finish ⟨{ l with inputFinished := true }, [], .error .closed⟩
  | finished : Called l .finish (process { l with inputFinished := true })
  | resumed (hwaits : l.isWaiting = true) : Called l .resume (process { l with isWaiting := false })
  | idle (hgoes : l.isWaiting = false) : Called l .resume ⟨l, [], .ok ()⟩

theorem called (l : Loader) (c : Call) : l.Called c (l.call c) := by
  cases c with
  | append bytes =>
    rw [call]
    cases hclosed : l.isFinished || l.inputFinished with
    | true =>
      simp only [append, hclosed, if_true]
      split <;> exact .refused hclosed
    | false =>
      obtain ⟨hruns, hinput⟩ := Bool.or_eq_false_iff.1 hclosed
      cases hpush : l.reception.push bytes with
      | error fault =>
        rw [append_of_error hruns hinput hpush]
        exact .unpacked hruns hinput hpush
      | ok r =>
        rw [append_of_ok hruns hinput hpush]
        exact .appended hruns hinput hpush
  | finish =>
    rw [call, finish]
    split
    · rename_i hstate
      exact .failed hstate
    · exact .finished
  | resume =>
    rw [call, resume]
    split
    · rename_i hwaits
      exact .resumed hwaits
    · rename_i hgoes
      exact .idle (Bool.eq_false_iff.2 hgoes)

/-! ## Files of loaders -/

theorem file?_of_push {r r' : Reception} {bytes : List UInt8} (h : r.push bytes = .ok r') :
    r'.file? = r.file? := by
  cases r with
  | preamble begun =>
    rw [Reception.push] at h
    split at h
    · cases h
      rfl
    · obtain ⟨p, _, h⟩ := Except.bind_eq_ok.1 h
      obtain ⟨body, _, h⟩ := Except.bind_eq_ok.1 h
      cases h
      rfl
  | header p intake body =>
    obtain ⟨added, _, h⟩ := Except.bind_eq_ok.1 h
    cases h
    rfl
  | tags intake file rest =>
    obtain ⟨added, _, h⟩ := Except.bind_eq_ok.1 h
    cases h
    rfl

theorem exists_tags_of_file? {f : File} (h : l.file? = some f) :
    ∃ intake rest, l.reception = .tags intake f rest := by
  rw [file?] at h
  cases hreception : l.reception with
  | preamble | header =>
    rw [hreception] at h
    cases h
  | tags intake file rest =>
    rw [hreception] at h
    exact ⟨intake, rest, Option.some.inj h ▸ rfl⟩

/-! ## What sessions keep -/

/-- A property of a loader, of the bytes that have come and of the events so far that stays whatever is done. -/
structure Kept (P : Loader → List UInt8 → List LoadEvent → Prop) : Prop where
  goes : ∀ {l l' bytes events new}, P l bytes events → l.Goes l' new → P l' bytes (events ++ new)
  halts : ∀ {l d bytes events}, P l bytes events → l.Halts d → P d.loader bytes (events ++ d.events)
  push : ∀ {l bytes events more r}, P l bytes events → l.isFinished = false → l.reception.push more = .ok r →
    P { l with reception := r } (bytes ++ more) events
  fail : ∀ {l bytes events more fault}, P l bytes events → l.isFinished = false →
    l.reception.push more = .error fault → P (l.fail fault).loader (bytes ++ more) (events ++ [.failed fault])
  finish : ∀ {l bytes events}, P l bytes events → P { l with inputFinished := true } bytes events
  resume : ∀ {l bytes events}, P l bytes events → P { l with isWaiting := false } bytes events

variable {P : Loader → List UInt8 → List LoadEvent → Prop} (bytes : List UInt8) (events : List LoadEvent)

theorem Kept.delivers (h : Kept P) (hl : P l bytes events) (hd : l.Delivers d) :
    P d.loader bytes (events ++ d.events) := by
  induction hd generalizing events with
  | stop hhalts => exact h.halts hl hhalts
  | next hgoes _ ih =>
    rw [← List.append_assoc]
    exact ih _ (h.goes hl hgoes)

theorem Kept.call (h : Kept P) (hl : P l bytes events) (c : Call) :
    P (l.call c).loader (bytes ++ l.accepted c) (events ++ (l.call c).events) := by
  have hcalled := l.called c
  generalize l.call c = d at hcalled
  cases hcalled with
  | refused hclosed =>
    rw [accepted, if_pos hclosed, List.append_nil, List.append_nil]
    exact hl
  | unpacked hruns hinput hpush =>
    rw [accepted, if_neg (by simp [hruns, hinput])]
    exact h.fail hl hruns hpush
  | appended hruns hinput hpush =>
    -- The bytes are there before the first step that follows them.
    rw [accepted, if_neg (by simp [hruns, hinput])]
    exact h.delivers _ _ (h.push hl hruns hpush) (delivers_process _)
  | failed =>
    rw [accepted, List.append_nil, List.append_nil]
    exact h.finish hl
  | finished =>
    rw [accepted, List.append_nil]
    exact h.delivers _ _ (h.finish hl) (delivers_process _)
  | resumed =>
    rw [accepted, List.append_nil]
    exact h.delivers _ _ (h.resume hl) (delivers_process _)
  | idle =>
    rw [accepted, List.append_nil, List.append_nil]
    exact hl

theorem Kept.session (h : Kept P) (hl : P l bytes events) (calls : List Call) :
    P (l.session calls).1 (bytes ++ l.arrived calls) (events ++ (l.session calls).2) := by
  induction calls generalizing l bytes events with
  | nil =>
    rw [Loader.session, arrived, List.append_nil, List.append_nil]
    exact hl
  | cons c calls ih =>
    rw [Loader.session, arrived, ← List.append_assoc, ← List.append_assoc]
    exact ih _ _ (h.call _ _ hl c)

end MovieVm.Movie.Loader
