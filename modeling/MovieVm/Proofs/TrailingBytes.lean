import MovieVm.Proofs.Chunks
import MovieVm.Proofs.LoadEvents
import MovieVm.Proofs.StreamPieces

/-!
# Bytes behind the end

Once a file is complete nothing that follows its last tag is read. What follows in the same piece is received with it,
though: it goes through the stream of a compressed file first, and can break it when the stream is not over.
-/

namespace MovieVm.Movie

open Deflate (Inflate)

/-! ## Two pieces and one -/

theorem Intake.push_append (i : Intake) (first second : List UInt8) :
    i.push (first ++ second) = do
      let (added, j) ← i.push first
      let (more, k) ← j.push second
      return (added ++ more, k) := by
  cases i with
  | plain => rfl
  | deflated stream =>
    simp only [push, Inflate.push_append]
    cases stream.push first with
    | none => rfl
    | some next =>
      obtain ⟨added, stream'⟩ := next
      simp only [Option.bind_some, Except.ok_bind]
      cases stream'.push second <;> rfl

/-- Only a stream refuses bytes, and only before its end. -/
theorem Intake.push_eq_error {i : Intake} {bytes : List UInt8} {fault : Fault} (h : i.push bytes = .error fault) :
    fault = .inflate ∧ ∃ stream, i = .deflated stream ∧ stream.phase ≠ .ended := by
  cases i with
  | plain => cases h
  | deflated stream =>
    refine ⟨?_, stream, rfl, ?_⟩
    · simp only [push] at h
      split at h
      · cases h
      · exact (Except.error.inj h).symm
    · intro hended
      rw [push, Inflate.push_of_ended hended] at h
      cases h

theorem Reception.push_append (r : Reception) (first second : List UInt8) :
    r.push (first ++ second) = r.push first >>= fun s => s.push second := by
  cases r with
  | preamble begun =>
    by_cases hshort : (begun ++ first).length < Preamble.size
    · simp only [push, if_pos hshort, pure_bind, List.append_assoc]
    · have hsize : Preamble.size ≤ (begun ++ first).length := Nat.le_of_not_lt hshort
      simp only [push, ← List.append_assoc, if_neg hshort, if_neg (not_short_append hsize second),
        Preamble.ofBytes_append hsize, List.drop_append_of_le_length hsize, Intake.push_append, bind_assoc, pure_bind]
  | header p intake body => simp only [push, Intake.push_append, bind_assoc, pure_bind, List.append_assoc]
  | tags intake file rest => simp only [push, Intake.push_append, bind_assoc, pure_bind, List.append_assoc]

namespace File

variable {f f' : File} {rest rest' : List UInt8} {outcome : Except Fault Scan} {s : Scan}

theorem scan_of_stop (h : f.isComplete = true ∨ RawTag.split? rest = none) : f.scan rest = (f, rest, .ok {}) := by
  rw [scan]
  split
  · rfl
  · rename_i hincomplete
    split
    · rfl
    · rename_i hsplit
      simp [hincomplete, hsplit] at h

/-- A scan leaves nothing that another one would read. -/
theorem Scans.rescan (h : Scans f rest f' rest' (.ok s)) : f'.scan rest' = (f', rest', .ok {}) := by
  generalize houtcome : Except.ok s = outcome at h
  induction h generalizing s with
  | stop h => exact scan_of_stop h
  | fault => cases houtcome
  | tag _ _ _ _ ih =>
    obtain ⟨s', hs', -⟩ := Except.map_eq_ok.1 houtcome.symm
    exact ih hs'.symm

/-- A scan that ends in a complete file does not look at what follows. -/
theorem Scans.append (h : Scans f rest f' rest' outcome) (hcomplete : f'.isComplete = true) (more : List UInt8) :
    f.scan (rest ++ more) = (f', rest' ++ more, outcome) := by
  induction h with
  | stop => exact scan_of_complete hcomplete
  | fault hincomplete hsplit hadd => exact scan_of_error hincomplete (RawTag.split?_append hsplit more) hadd
  | tag hincomplete hsplit hadd _ ih =>
    rw [scan_of_ok hincomplete (RawTag.split?_append hsplit more) hadd, ih hcomplete]

end File

namespace Loader

variable {l l' : Loader} {d d' : Delivery} {events : List LoadEvent} {intake intake' : Intake} {file : File}
  {rest rest' : List UInt8} {acks : List Ack}

/-! ## Loaders that have read everything -/

section

variable (hreception : l.reception = .tags intake file rest) (hidle : file.scan rest = (file, rest, .ok {}))

include hreception hidle

theorem not_refused_of_idle {fault : Fault} {r : Reception} : ¬ l.reception.Refused fault r := by
  intro h
  rw [hreception] at h
  cases h with
  | tags hscan =>
    rw [hidle] at hscan
    cases hscan

theorem Goes.reception_of_idle (h : l.Goes l' events) : l'.reception = l.reception := by
  cases h with
  | announced => rfl
  | told => rfl
  | opened _ _ hheader =>
    rw [hreception] at hheader
    cases hheader
  | read _ _ htags _ hscan hread =>
    rw [hreception] at htags
    cases htags
    rw [hidle] at hscan
    cases hscan
    exact absurd rfl hread

theorem Halts.reception_of_idle (h : l.Halts d) : d.loader.reception = l.reception := by
  cases h with
  | refused _ hrefused => exact absurd hrefused (not_refused_of_idle hreception hidle)
  | idle | held | completed | ended | starved => rfl

/-- With nothing left to be read a call leaves what was received as it is. -/
theorem Delivers.reception_of_idle (h : l.Delivers d) : d.loader.reception = l.reception := by
  induction h with
  | stop h => exact h.reception_of_idle hreception hidle
  | next h _ ih =>
    have hkept := h.reception_of_idle hreception hidle
    exact (ih (hkept.trans hreception)).trans hkept

end

section

variable (hreception : l.reception = .tags intake file rest) (hcomplete : file.isComplete = true)
  (hstate : l.state ≠ .failed)

include hstate

theorem Goes.unfailed (h : l.Goes l' events) : l'.state ≠ .failed ∧ l'.inputFinished = l.inputFinished := by
  cases h with
  | announced | told => exact ⟨hstate, rfl⟩
  | opened => exact ⟨by simp, scanned_inputFinished _ _⟩
  | read => exact ⟨by rwa [scanned_state], scanned_inputFinished _ _⟩

include hreception hcomplete

theorem Halts.of_complete (h : l.Halts d) :
    d.loader.inputFinished = l.inputFinished ∧ (d.loader.isWaiting = true ∨ d.loader.state = .complete) := by
  have hidle : file.scan rest = (file, rest, .ok {}) := File.scan_of_complete hcomplete
  cases h with
  | idle h => exact ⟨rfl, h.imp_right fun hfinished => by simpa [isFinished, hstate] using hfinished⟩
  | held => exact ⟨rfl, .inl rfl⟩
  | completed => exact ⟨rfl, .inr rfl⟩
  | refused _ hrefused => exact absurd hrefused (not_refused_of_idle hreception hidle)
  | ended _ hstarved | starved _ hstarved =>
    rw [hreception] at hstarved
    cases hstarved with
    | tags _ hincomplete => cases hcomplete.symm.trans hincomplete

/-- A complete file comes to its end unless the listener holds the loader back. -/
theorem Delivers.of_complete (h : l.Delivers d) :
    d.loader.inputFinished = l.inputFinished ∧ (d.loader.isWaiting = true ∨ d.loader.state = .complete) := by
  induction h with
  | stop h => exact h.of_complete hreception hcomplete hstate
  | next h _ ih =>
    have hkept := h.reception_of_idle hreception (File.scan_of_complete hcomplete)
    obtain ⟨hstate', hinput⟩ := h.unfailed hstate
    obtain ⟨hinput', hends⟩ := ih (hkept.trans hreception) hstate'
    exact ⟨hinput'.trans hinput, hends⟩

end

/-! ## Loaders with the same complete file -/

/-- Two loaders that have the same complete file and differ only in what comes behind its end. -/
inductive Matches (file : File) : Loader → Loader → Prop where
  | intro {intake intake' : Intake} {rest rest' : List UInt8} (l : Loader) (hcomplete : file.isComplete = true) :
    Matches file { l with reception := .tags intake file rest } { l with reception := .tags intake' file rest' }

/-- Two calls that tell the same and leave loaders that match. -/
structure Delivery.Matches (file : File) (d d' : Delivery) : Prop where
  loader : d.loader.Matches file d'.loader
  events : d'.events = d.events
  result : d'.result = d.result

inductive Step.Matches (file : File) : Step → Step → Prop where
  | next {l l' : Loader} (h : l.Matches file l') (events : List LoadEvent) :
    Matches file (.next l events) (.next l' events)
  | stop {d d' : Delivery} (h : d.Matches file d') : Matches file (.stop d) (.stop d')

/-- With a complete file there is nothing to do but to tell what has been read. -/
theorem step_of_complete (hreception : l.reception = .tags intake file rest) (hcomplete : file.isComplete = true) :
    l.step =
      if l.isWaiting || l.isFinished then l.rest
      else
        match l.batches with
        | b :: batches => l.deliver b batches
        | [] =>
          if l.progressDue then .next { l with progressDue := false } [.progressed file (progressOf file)]
          else .stop ⟨{ l with state := .complete }, [.completed file], .ok ()⟩ := by
  have hread : l.readOn intake file rest = .stop ⟨{ l with state := .complete }, [.completed file], .ok ()⟩ := by
    simp [readOn, File.scan_of_complete hcomplete, hcomplete, ← hreception]
  rw [← hread]
  obtain ⟨reception, _, _, _, _, _, _⟩ := l
  obtain rfl : reception = .tags intake file rest := hreception
  rfl

theorem Matches.file?_eq (h : l.Matches file l') : l'.file? = some file := by
  cases h
  rfl

/-- Nothing of what comes behind the end counts for a step. -/
theorem Matches.step (h : l.Matches file l') : Step.Matches file l.step l'.step := by
  obtain @⟨intake, intake', rest, rest', l, hcomplete⟩ := h
  rw [step_of_complete (l := { l with reception := .tags intake file rest }) rfl hcomplete,
    step_of_complete (l := { l with reception := .tags intake' file rest' }) rfl hcomplete]
  change Step.Matches file (if l.isWaiting || l.isFinished then _ else _) (if l.isWaiting || l.isFinished then _ else _)
  split
  · exact .stop ⟨.intro l hcomplete, rfl, rfl⟩
  · cases hbatches : l.batches with
    | nil =>
      change Step.Matches file (if l.progressDue then _ else _) (if l.progressDue then _ else _)
      split
      · exact .next (.intro { l with batches := [], progressDue := false } hcomplete) _
      · exact .stop ⟨.intro { l with batches := [], state := .complete } hcomplete, rfl, rfl⟩
    | cons b batches =>
      let told : Loader := { l with batches, acks := l.acks.tail, isWaiting := l.acks.head? = some .pending }
      simp only [deliver]
      split
      · exact .stop ⟨.intro told hcomplete, rfl, rfl⟩
      · exact .next (.intro told hcomplete) _

theorem Matches.run (h : l.Matches file l') {fuel fuel' : Nat} (hfuel : l.work < fuel) (hfuel' : l'.work < fuel') :
    (l.run fuel).Matches file (l'.run fuel') := by
  induction fuel generalizing l l' fuel' with
  | zero => exact absurd hfuel (Nat.not_lt_zero _)
  | succ fuel ih =>
    obtain ⟨fuel', rfl⟩ := Nat.exists_eq_add_one.2 (Nat.zero_lt_of_lt hfuel')
    have hstep := h.step
    rw [Loader.run, Loader.run]
    cases hl : l.step with
    | stop d =>
      rw [hl] at hstep
      generalize l'.step = after at hstep
      cases hstep with
      | stop hd => exact hd
    | next k events =>
      rw [hl] at hstep
      cases hl' : l'.step with
      | stop d =>
        rw [hl'] at hstep
        cases hstep
      | next k' events' =>
        rw [hl'] at hstep
        cases hstep with
        | next hk =>
          have hwork := (goes_of_step hl).work
          have hwork' := (goes_of_step hl').work
          have hrest : (k.run fuel).Matches file (k'.run fuel') := ih hk (by omega) (by omega)
          exact ⟨hrest.loader, congrArg (events ++ ·) hrest.events, hrest.result⟩

theorem Matches.process (h : l.Matches file l') : l.process.Matches file l'.process :=
  h.run (Nat.lt_succ_self _) (Nat.lt_succ_self _)

theorem Matches.finish (h : l.Matches file l') : l.finish.Matches file l'.finish := by
  obtain @⟨intake, intake', rest, rest', l, hcomplete⟩ := h
  have hclosed : Matches file { l with reception := .tags intake file rest, inputFinished := true }
      { l with reception := .tags intake' file rest', inputFinished := true } :=
    .intro { l with inputFinished := true } hcomplete
  unfold Loader.finish
  change Delivery.Matches file (if l.state = .failed then _ else _) (if l.state = .failed then _ else _)
  split
  · exact ⟨hclosed, rfl, rfl⟩
  · exact hclosed.process

theorem Delivery.Matches.andThen {e e' : Delivery} (h : d.Matches file d') (he : e.Matches file e') :
    (d.andThen e).Matches file (d'.andThen e') := by
  unfold Delivery.andThen
  rw [h.result]
  split
  · exact h
  · refine ⟨he.loader, ?_, he.result⟩
    rw [h.events, he.events]

/-! ## The first piece -/

/-- The first piece of a file holds its header, and a scan reads the tags that have come with it. -/
inductive Arrives (bytes : List UInt8) (intake : Intake) (file : File) (rest : List UInt8) (s : File.Scan) : Prop where
  | intro {p : Preamble} {body behind : List UInt8} {start : File}
    (hpush : Reception.start.push bytes = .ok (.header p intake body))
    (hheader : p.readHeader body = .ok (some (start, behind))) (hscan : start.scan behind = (file, rest, .ok s)) :
    Arrives bytes intake file rest s

/-- The loader that has opened a file with what has arrived of it. -/
def opening (acks : List Ack) (intake : Intake) (file : File) (rest : List UInt8) (s : File.Scan) : Loader :=
  { (scanned { acks, reception := .tags intake file rest } s) with state := .opened }

theorem opening_reception (s : File.Scan) : (opening acks intake file rest s).reception = .tags intake file rest :=
  scanned_reception _ s

theorem Matches.opening (hcomplete : file.isComplete = true) (s : File.Scan) :
    Matches file (opening acks intake file rest s) (opening acks intake' file rest' s) := by
  unfold Loader.opening scanned
  split
  · exact .intro { acks, state := .opened } hcomplete
  · let batches : List Batch := if s.eager.isEmpty then [] else [⟨s.eager, s.bytes⟩]
    exact .intro { acks, batches, progressDue := true, state := .opened } hcomplete

variable {bytes : List UInt8} {s : File.Scan}

/-- The first piece opens the file, and goes on with what it has read. -/
theorem Arrives.append_eq (h : Arrives bytes intake file rest s) (acks : List Ack) :
    ∃ fuel, (opening acks intake file rest s).work < fuel ∧
      append { acks } bytes =
        { (opening acks intake file rest s).run fuel with
          events := .opened file :: ((opening acks intake file rest s).run fuel).events } := by
  obtain @⟨p, body, behind, start, hpush, hheader, hscan⟩ := h
  have hstep : step { acks, reception := .header p intake body } =
      .next (opening acks intake file rest s) [.opened file] := by
    change openFile _ p intake body = _
    simp only [openFile, hheader, hscan]
    rfl
  refine ⟨work { acks, reception := .header p intake body }, (goes_of_step hstep).work, ?_⟩
  rw [append_of_ok rfl rfl hpush, process, run, hstep]
  rfl

/-- What comes behind a complete file is received with it. -/
theorem Arrives.extend (h : Arrives bytes intake file rest s) (hcomplete : file.isComplete = true)
    {more added : List UInt8} (hmore : intake.push more = .ok (added, intake')) :
    Arrives (bytes ++ more) intake' file (rest ++ added) s := by
  obtain @⟨p, body, behind, start, hpush, hheader, hscan⟩ := h
  have hpush' : Reception.start.push (bytes ++ more) = .ok (.header p intake' (body ++ added)) := by
    rw [Reception.push_append, hpush, Except.ok_bind, Reception.push, hmore]
    rfl
  have hread : p.readHeader body ≠ .ok none := by simp [hheader]
  have hheader' : p.readHeader (body ++ added) = .ok (some (start, behind ++ added)) := by
    rw [Preamble.readHeader_append hread, hheader]
    rfl
  exact .intro hpush' hheader' ((File.Scans.of_scan hscan).append hcomplete added)

theorem finish_of_starved {r : Reception} (h : r.Starved) (hfile : r.file? = none) :
    (finish { acks, reception := r }).result = .error r.incomplete := by
  cases h with
  | preamble bytes => rfl
  | header hheader => simp [finish, process, run, step, openFile, hheader, await, fail, isFinished]
  | tags => cases hfile

/-- A load that succeeds and leaves a file has read its header at once. -/
theorem exists_arrives (hresult : (load { acks } bytes).result = .ok ()) :
    ∃ intake file rest s, Arrives bytes intake file rest s := by
  rw [load_eq_andThen] at hresult
  cases hpush : Reception.start.push bytes with
  | error fault =>
    have happend : append { acks } bytes = fail { acks } fault := append_of_error rfl rfl hpush
    rw [happend, Delivery.andThen_of_error rfl] at hresult
    cases hresult
  | ok r =>
    have hnone : r.file? = none := file?_of_push hpush
    have happend : append { acks } bytes = process { acks, reception := r } := append_of_ok rfl rfl hpush
    have hprocess := delivers_process { acks, reception := r }
    rw [happend] at hresult
    generalize process { acks, reception := r } = d at hprocess hresult
    cases hprocess with
    | stop h =>
      cases h with
      | idle h => exact absurd h (by simp [isFinished])
      | held _ _ hbatches => cases hbatches
      | completed _ hreception =>
        obtain rfl : r = _ := hreception
        cases hnone
      | refused =>
        rw [Delivery.andThen_of_error rfl] at hresult
        cases hresult
      | ended _ _ hinput => cases hinput
      | starved _ hstarved =>
        rw [Delivery.andThen_of_ok rfl] at hresult
        cases (finish_of_starved hstarved hnone).symm.trans hresult
    | next h =>
      cases h with
      | announced _ hbatches => cases hbatches
      | told _ _ hreception | read _ _ hreception =>
        obtain rfl : r = _ := hreception
        cases hnone
      | opened _ _ hreception hheader hscan =>
        obtain rfl : r = _ := hreception
        exact ⟨_, _, _, _, .intro hpush hheader hscan⟩

theorem finish_reception_of_idle (hreception : l.reception = .tags intake file rest)
    (hidle : file.scan rest = (file, rest, .ok {})) : l.finish.loader.reception = l.reception := by
  by_cases hfailed : l.state = .failed
  · simp [finish, hfailed]
  · simp only [finish, if_neg hfailed]
    let closed : Loader := { l with inputFinished := true }
    have hclosed : closed.reception = .tags intake file rest := hreception
    have hkept := closed.delivers_process.reception_of_idle hclosed hidle
    exact hkept

/-- What a scan leaves stays what it is. -/
theorem Arrives.rescan (h : Arrives bytes intake file rest s) : file.scan rest = (file, rest, .ok {}) := by
  obtain ⟨_, _, hscan⟩ := h
  exact (File.Scans.of_scan hscan).rescan

theorem Arrives.reception_append (h : Arrives bytes intake file rest s) (acks : List Ack) :
    (append { acks } bytes).loader.reception = .tags intake file rest := by
  obtain ⟨fuel, hfuel, happend⟩ := h.append_eq acks
  have hreception : (opening acks intake file rest s).reception = .tags intake file rest := opening_reception s
  rw [happend, (delivers_run hfuel).reception_of_idle hreception h.rescan, hreception]

theorem Arrives.file_load (h : Arrives bytes intake file rest s) (acks : List Ack) :
    (load { acks } bytes).loader.file? = some file := by
  have hreception := h.reception_append acks
  have happend : (append { acks } bytes).loader.file? = some file := congrArg Reception.file? hreception
  rw [load_eq_andThen]
  unfold Delivery.andThen
  split
  · exact happend
  · exact (congrArg Reception.file? (finish_reception_of_idle hreception h.rescan)).trans happend

/-! ## Bytes behind the end -/

/-- What follows a complete file in one piece, when it can be received, leads to the same load. -/
theorem Arrives.load_matches (h : Arrives bytes intake file rest s) (hcomplete : file.isComplete = true)
    {more added : List UInt8} (hmore : intake.push more = .ok (added, intake')) (acks : List Ack) :
    (load { acks } bytes).Matches file (load { acks } (bytes ++ more)) := by
  obtain ⟨fuel, hfuel, happend⟩ := h.append_eq acks
  obtain ⟨fuel', hfuel', happend'⟩ := (h.extend hcomplete hmore).append_eq acks
  have hrun := (Matches.opening hcomplete s).run hfuel hfuel'
  have hpieces : (append { acks } bytes).Matches file (append { acks } (bytes ++ more)) := by
    rw [happend, happend']
    exact ⟨hrun.loader, congrArg (_ :: ·) hrun.events, hrun.result⟩
  rw [load_eq_andThen, load_eq_andThen]
  exact hpieces.andThen hpieces.loader.finish

/-- What follows in one piece and cannot be received fails the load before the file is opened. -/
theorem Arrives.load_eq_fail (h : Arrives bytes intake file rest s) {more : List UInt8} {fault : Fault}
    (hmore : intake.push more = .error fault) (acks : List Ack) :
    load { acks } (bytes ++ more) = fail { acks } fault := by
  obtain @⟨p, body, behind, start, hpush, -, -⟩ := h
  have hrefused : Reception.start.push (bytes ++ more) = .error fault := by
    rw [Reception.push_append, hpush, Except.ok_bind, Reception.push, hmore]
    rfl
  have happend : append { acks } (bytes ++ more) = fail { acks } fault := append_of_error rfl rfl hrefused
  rw [load_eq_andThen, happend, Delivery.andThen_of_error rfl]

/-- A listener that does not hold the loader back has been told of the end. -/
theorem Arrives.complete (h : Arrives bytes intake file rest s) (hcomplete : file.isComplete = true)
    (hgoes : (append { acks } bytes).loader.isWaiting = false) :
    (append { acks } bytes).loader.state = .complete ∧ (append { acks } bytes).loader.inputFinished = false := by
  obtain ⟨fuel, hfuel, happend⟩ := h.append_eq acks
  have hruns : (opening acks intake file rest s).state ≠ .failed := by simp [opening]
  have hreception : (opening acks intake file rest s).reception = .tags intake file rest := opening_reception s
  obtain ⟨hinput, hends⟩ := (delivers_run hfuel).of_complete hreception hcomplete hruns
  rw [happend] at hgoes ⊢
  exact ⟨hends.resolve_left (Bool.eq_false_iff.1 hgoes), hinput.trans (scanned_inputFinished _ s)⟩

/-- Only a compressed file has a stream. -/
theorem Arrives.compressed {stream : Inflate} (h : Arrives bytes (.deflated stream) file rest s) :
    bytes.take 3 = Draft.signature true := by
  obtain @⟨p, body, behind, start, hpush, -, -⟩ := h
  rw [Reception.start, Reception.push, List.nil_append] at hpush
  split at hpush
  · cases hpush
  · rename_i hlong
    obtain ⟨p', hp, hpush⟩ := Except.bind_eq_ok.1 hpush
    obtain ⟨⟨body', intake'⟩, hintake, hpush⟩ := Except.bind_eq_ok.1 hpush
    cases hpush
    cases hcompressed : p.compressed with
    | true => exact Preamble.compressed_of_ofBytes hp (Nat.le_of_not_lt hlong) hcompressed
    | false =>
      rw [hcompressed] at hintake
      cases hintake

/-- Bytes behind the end of a complete file change nothing: appended to a loader that has told of the end they come to
nothing, and in one piece with the file they come to the same load and the same file. The one exception is a compressed
file whose stream is not over when its last tag ends. What follows may then break the stream, and the load fails before
it has opened the file. -/
theorem bytes_behind_end (acks : List Ack) {bytes : List UInt8} {file : File}
    (hresult : (load { acks } bytes).result = .ok ()) (hfile : (load { acks } bytes).loader.file? = some file)
    (hcomplete : file.isComplete = true) (more : List UInt8) :
    ((append { acks } bytes).loader.isWaiting = false →
        (append { acks } bytes).loader.append more = ⟨(append { acks } bytes).loader, [], .ok ()⟩) ∧
      (((append { acks } bytes).loader.reception.push more).isOk = true →
        (load { acks } (bytes ++ more)).result = .ok () ∧
          (load { acks } (bytes ++ more)).events = (load { acks } bytes).events ∧
          (load { acks } (bytes ++ more)).loader.file? = some file) ∧
      (((append { acks } bytes).loader.reception.push more).isOk = false →
        bytes.take 3 = Draft.signature true ∧
          (∃ stream rest, (append { acks } bytes).loader.reception = .tags (.deflated stream) file rest ∧
            stream.phase ≠ .ended) ∧
          (load { acks } (bytes ++ more)).result = .error .inflate ∧
          (load { acks } (bytes ++ more)).events = [.failed .inflate] ∧
          (load { acks } (bytes ++ more)).loader.file? = none) := by
  obtain ⟨intake, file', rest, s, harrives⟩ := exists_arrives hresult
  obtain rfl : file' = file := Option.some.inj ((harrives.file_load acks).symm.trans hfile)
  have hpush : (append { acks } bytes).loader.reception.push more =
      (intake.push more).map fun (added, intake) => .tags intake file' (rest ++ added) := by
    rw [harrives.reception_append acks]
    rfl
  refine ⟨fun hgoes => ?_, fun hok => ?_, fun herror => ?_⟩
  · obtain ⟨hstate, hinput⟩ := harrives.complete hcomplete hgoes
    exact append_of_complete hstate hinput
  · cases hmore : intake.push more with
    | error fault =>
      rw [hpush, hmore] at hok
      cases hok
    | ok next =>
      have hmatches := harrives.load_matches hcomplete hmore acks
      exact ⟨hmatches.result.trans hresult, hmatches.events, hmatches.loader.file?_eq⟩
  · cases hmore : intake.push more with
    | error fault =>
      obtain ⟨rfl, stream, rfl, hopen⟩ := Intake.push_eq_error hmore
      rw [harrives.load_eq_fail hmore acks]
      exact ⟨harrives.compressed, ⟨stream, rest, harrives.reception_append acks, hopen⟩, rfl, rfl, rfl⟩
    | ok next =>
      rw [hpush, hmore] at herror
      cases herror

/-- A compressed file that is complete although its stream lacks the checksum. -/
def unsealed : List UInt8 :=
  [0x43, 0x57, 0x53, 10, 15, 0, 0, 0] ++ [0x78, 0x01, 0x01, 7, 0, 0xf8, 0xff] ++ [0, 0, 24, 1, 0] ++ [0, 0]

theorem unsealed_takes_its_checksum :
    (load {} unsealed).result = .ok () ∧
      ∃ file, (load {} unsealed).loader.file? = some file ∧ file.isComplete = true ∧
        ((append {} unsealed).loader.reception.push [0x00, 0x83, 0x00, 0x1a]).isOk = true ∧
        (load {} (unsealed ++ [0x00, 0x83, 0x00, 0x1a])).result = .ok () ∧
        (load {} (unsealed ++ [0x00, 0x83, 0x00, 0x1a])).events = (load {} unsealed).events ∧
        (load {} (unsealed ++ [0x00, 0x83, 0x00, 0x1a])).loader.file? = some file := by
  have hresult : (load {} unsealed).result = .ok () := Except.eq_ok_of_toOption (by decide +kernel)
  have hloaded : ((load {} unsealed).loader.file?.any File.isComplete) = true := by decide +kernel
  have htaken : ((append {} unsealed).loader.reception.push [0x00, 0x83, 0x00, 0x1a]).isOk = true := by decide +kernel
  obtain ⟨file, hfile, hcomplete⟩ := (Option.any_eq_true _ _).1 hloaded
  obtain ⟨-, hsame, -⟩ := bytes_behind_end [] hresult hfile hcomplete [0x00, 0x83, 0x00, 0x1a]
  exact ⟨hresult, file, hfile, hcomplete, htaken, hsame htaken⟩

/-- The file can be followed by other bytes once it has been loaded, but not be loaded together with them. -/
theorem unsealed_breaks_at_zeros :
    (load {} unsealed).result.isOk = true ∧ ((load {} unsealed).loader.file?.any File.isComplete) = true ∧
      ((append {} unsealed).loader.append [0, 0, 0, 0]).result.isOk = true ∧
      (load {} (unsealed ++ [0, 0, 0, 0])).result.isOk = false ∧
      (load {} (unsealed ++ [0, 0, 0, 0])).events = [.failed .inflate] := by
  decide +kernel

end Loader

end MovieVm.Movie
