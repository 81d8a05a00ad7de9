import MovieVm.Movie.Loader
import MovieVm.Proofs.TagScan

/-!
# Steps of a loader

All that one step of a loader can do, and that the steps of a call come to an end.
-/

namespace MovieVm.Movie

/-! ## What there is to read -/

namespace Reception

/-- Nothing can be read before more bytes arrive. -/
inductive Starved : Reception → Prop where
  | preamble (bytes : List UInt8) : Starved (.preamble bytes)
  | header {p : Preamble} {intake : Intake} {body : List UInt8} (h : p.readHeader body = .ok none) :
    Starved (.header p intake body)
  | tags {intake : Intake} {file : File} {body : List UInt8} {s : File.Scan}
    (hscan : file.scan body = (file, body, .ok s)) (hincomplete : file.isComplete = false) :
    Starved (.tags intake file body)

/-- What has arrived cannot be read: the fault, and what was received by then. -/
inductive Refused : Reception → Fault → Reception → Prop where
  | header {p : Preamble} {intake : Intake} {body : List UInt8} {fault : Fault}
    (h : p.readHeader body = .error fault) :
    Refused (.header p intake body) fault (.header p intake body)
  | firstTags {p : Preamble} {intake : Intake} {body rest rest' : List UInt8} {file file' : File}
    {fault : Fault} (h : p.readHeader body = .ok (some (file, rest)))
    (hscan : file.scan rest = (file', rest', .error fault)) :
    Refused (.header p intake body) fault (.tags intake file' rest')
  | tags {intake : Intake} {file file' : File} {body rest : List UInt8} {fault : Fault}
    (hscan : file.scan body = (file', rest, .error fault)) :
    Refused (.tags intake file body) fault (.tags intake file' rest)

end Reception

namespace Loader

/-! ## One step -/

section

variable (l : Loader) (s : File.Scan)

@[simp] theorem scanned_reception : (l.scanned s).reception = l.reception := by
  unfold scanned
  split <;> rfl

@[simp] theorem scanned_state : (l.scanned s).state = l.state := by
  unfold scanned
  split <;> rfl

@[simp] theorem scanned_isWaiting : (l.scanned s).isWaiting = l.isWaiting := by
  unfold scanned
  split <;> rfl

@[simp] theorem scanned_inputFinished : (l.scanned s).inputFinished = l.inputFinished := by
  unfold scanned
  split <;> rfl

@[simp] theorem scanned_acks : (l.scanned s).acks = l.acks := by
  unfold scanned
  split <;> rfl

end

/-- A step after which there is more to do: a batch is announced, progress is told, the file is opened, or
tags are read. -/
inductive Goes (l : Loader) : Loader → List LoadEvent → Prop where
  | announced {b : Batch} {batches : List Batch} (hruns : l.isFinished = false)
    (hbatches : l.batches = b :: batches) :
    Goes l { l with batches, acks := l.acks.tail, isWaiting := false } (batchEvents b)
  | told {intake : Intake} {file : File} {body : List UInt8} (hruns : l.isFinished = false)
    (hbatches : l.batches = []) (hreception : l.reception = .tags intake file body)
    (hdue : l.progressDue = true) :
    Goes l { l with progressDue := false } [.progressed file (progressOf file)]
  | opened {p : Preamble} {intake : Intake} {body rest rest' : List UInt8} {file file' : File}
    {s : File.Scan} (hruns : l.isFinished = false) (hbatches : l.batches = [])
    (hreception : l.reception = .header p intake body)
    (hheader : p.readHeader body = .ok (some (file, rest)))
    (hscan : file.scan rest = (file', rest', .ok s)) :
    Goes l { ({ l with reception := .tags intake file' rest' } : Loader).scanned s with
      state := .opened } [.opened file']
  | read {intake : Intake} {file file' : File} {body rest : List UInt8} {s : File.Scan}
    (hruns : l.isFinished = false) (hbatches : l.batches = [])
    (hreception : l.reception = .tags intake file body) (hdue : l.progressDue = false)
    (hscan : file.scan body = (file', rest, .ok s)) (htags : s.tags ≠ 0) :
    Goes l (({ l with reception := .tags intake file' rest } : Loader).scanned s) []

/-- A step that ends the call: nothing may be done, the listener holds the loader back, the file is complete
or has failed, or bytes are missing. -/
inductive Halts (l : Loader) : Delivery → Prop where
  | idle (h : l.isWaiting = true ∨ l.isFinished = true) : Halts l ⟨l, [], .ok ()⟩
  | held {b : Batch} {batches : List Batch} (hruns : l.isFinished = false) (hgoes : l.isWaiting = false)
    (hbatches : l.batches = b :: batches) (hack : l.acks.head? = some .pending) :
    Halts l ⟨{ l with batches, acks := l.acks.tail, isWaiting := true }, batchEvents b, .ok ()⟩
  | completed {intake : Intake} {file : File} {body : List UInt8} (hruns : l.isFinished = false)
    (hreception : l.reception = .tags intake file body) (hcomplete : file.isComplete = true)
    (hbatches : l.batches = []) : Halts l ⟨{ l with state := .complete }, [.completed file], .ok ()⟩
  | refused {fault : Fault} {r : Reception} (hruns : l.isFinished = false)
    (hrefused : l.reception.Refused fault r) : Halts l (({ l with reception := r } : Loader).fail fault)
  | ended (hruns : l.isFinished = false) (hstarved : l.reception.Starved)
    (hinput : l.inputFinished = true) : Halts l (l.fail l.reception.incomplete)
  | starved (hruns : l.isFinished = false) (hstarved : l.reception.Starved)
    (hinput : l.inputFinished = false) : Halts l ⟨l, [], .ok ()⟩

/-- What a step of a loader can be. -/
def Stepped (l : Loader) : Step → Prop
  | .next l' events => l.Goes l' events
  | .stop d => l.Halts d

variable {l l' : Loader} {events : List LoadEvent} {d : Delivery}

theorem stepped_await (hruns : l.isFinished = false) (hstarved : l.reception.Starved) :
    l.Stepped l.await := by
  unfold await
  split
  · rename_i hinput
    exact Halts.ended hruns hstarved hinput
  · rename_i hinput
    exact Halts.starved hruns hstarved (Bool.eq_false_iff.2 hinput)

theorem stepped_openFile {p : Preamble} {intake : Intake} {body : List UInt8}
    (hruns : l.isFinished = false) (hbatches : l.batches = [])
    (hreception : l.reception = .header p intake body) : l.Stepped (l.openFile p intake body) := by
  unfold openFile
  split
  · rename_i fault hheader
    have hrefused : l.reception.Refused fault l.reception := hreception ▸ .header hheader
    exact Halts.refused hruns hrefused
  · rename_i hheader
    exact stepped_await hruns (hreception ▸ .header hheader)
  · rename_i file rest hheader
    rcases hscan : file.scan rest with ⟨file', rest', outcome⟩
    cases outcome with
    | error fault => exact Halts.refused hruns (hreception ▸ .firstTags hheader hscan)
    | ok s => exact Goes.opened hruns hbatches hreception hheader hscan

theorem stepped_readOn {intake : Intake} {file : File} {body : List UInt8}
    (hruns : l.isFinished = false) (hbatches : l.batches = [])
    (hreception : l.reception = .tags intake file body) (hdue : l.progressDue = false) :
    l.Stepped (l.readOn intake file body) := by
  unfold readOn
  rcases hscan : file.scan body with ⟨file', rest, outcome⟩
  cases outcome with
  | error fault => exact Halts.refused hruns (hreception ▸ .tags hscan)
  | ok s =>
    simp only
    split
    · rename_i htags
      exact Goes.read hruns hbatches hreception hdue hscan htags
    · rename_i htags
      -- With no tag read the loader is the one from before.
      obtain ⟨rfl, rfl, -⟩ := (File.Scans.of_scan hscan).idle (Decidable.not_not.1 htags)
      have hsame : ({ l with reception := .tags intake file' rest } : Loader) = l := by
        rw [← hreception]
      rw [hsame]
      split
      · rename_i hcomplete
        have hstep := Halts.completed hruns hreception hcomplete hbatches
        rwa [hreception] at hstep
      · rename_i hincomplete
        exact stepped_await hruns (hreception ▸ .tags hscan (Bool.eq_false_iff.2 hincomplete))

theorem stepped (l : Loader) : l.Stepped l.step := by
  unfold step
  split
  · rename_i h
    exact Halts.idle (Bool.or_eq_true_iff.1 h)
  · rename_i h
    obtain ⟨hgoes, hruns⟩ := Bool.or_eq_false_iff.1 (Bool.eq_false_iff.2 h)
    split
    · rename_i b batches hbatches
      unfold deliver
      by_cases hack : l.acks.head? = some .pending
      · simp only [hack, decide_true, if_true]
        exact Halts.held hruns hgoes hbatches hack
      · simp only [hack, decide_false, if_false]
        exact Goes.announced hruns hbatches
    · rename_i hbatches
      split
      · rename_i bytes hreception
        exact stepped_await hruns (hreception ▸ .preamble bytes)
      · rename_i hreception
        exact stepped_openFile hruns hbatches hreception
      · rename_i hreception
        split
        · rename_i hdue
          exact Goes.told hruns hbatches hreception hdue
        · rename_i hdue
          exact stepped_readOn hruns hbatches hreception (Bool.eq_false_iff.2 hdue)

theorem goes_of_step (h : l.step = .next l' events) : l.Goes l' events := by
  have hstep := l.stepped
  rwa [h] at hstep

theorem halts_of_step (h : l.step = .stop d) : l.Halts d := by
  have hstep := l.stepped
  rwa [h] at hstep

/-! ## The steps of a call -/

/-- What a loader delivers until a step ends the call. -/
inductive Delivers : Loader → Delivery → Prop where
  | stop {l : Loader} {d : Delivery} (h : l.Halts d) : Delivers l d
  | next {l l' : Loader} {events : List LoadEvent} {d : Delivery} (h : l.Goes l' events)
    (hd : Delivers l' d) : Delivers l { d with events := events ++ d.events }

theorem pending_le_work (l : Loader) : 2 * l.reception.pending ≤ l.work := by
  simp only [work]
  omega

/-- A scan leaves a batch and a progress to tell, at most. -/
theorem work_scanned {intake : Intake} {file : File} {rest : List UInt8} (hbatches : l.batches = [])
    (s : File.Scan) :
    (({ l with reception := .tags intake file rest } : Loader).scanned s).work ≤ 2 * rest.length + 2 := by
  have hdue := l.progressDue.toNat_le
  unfold scanned
  split
  · simp only [work, Reception.pending, hbatches, List.length_nil]
    omega
  · split <;> simp [work, Reception.pending, hbatches]

/-- A step that does not end the call lessens the work. -/
theorem Goes.work (h : l.Goes l' events) : l'.work < l.work := by
  cases h with
  | announced _ hbatches =>
    simp only [Loader.work, hbatches, List.length_cons]
    omega
  | told _ _ _ hdue =>
    simp only [Loader.work, hdue, Bool.toNat_true, Bool.toNat_false]
    omega
  | @opened _ intake _ _ rest' _ file' s _ hbatches hreception hheader hscan =>
    -- The header alone has more bytes than the batch and the progress it may lead to.
    have hheader := Preamble.length_of_readHeader hheader
    have hscan := (File.Scans.of_scan hscan).shortens
    have hscanned : (({ l with reception := .tags intake file' rest' } : Loader).scanned s).work ≤
        2 * rest'.length + 2 := work_scanned hbatches s
    have hwork := l.pending_le_work
    rw [hreception] at hwork
    simp only [Reception.pending] at hwork
    change (scanned _ s).work < l.work
    omega
  | @read intake _ file' _ rest s _ hbatches hreception _ hscan htags =>
    have hscan := (File.Scans.of_scan hscan).advances htags
    have hscanned : (({ l with reception := .tags intake file' rest } : Loader).scanned s).work ≤
        2 * rest.length + 2 := work_scanned hbatches s
    have hwork := l.pending_le_work
    rw [hreception] at hwork
    simp only [Reception.pending] at hwork
    omega

theorem delivers_run {fuel : Nat} (hfuel : l.work < fuel) : l.Delivers (l.run fuel) := by
  induction fuel generalizing l with
  | zero => exact absurd hfuel (Nat.not_lt_zero _)
  | succ fuel ih =>
    unfold run
    cases hstep : l.step with
    | stop d => exact .stop (halts_of_step hstep)
    | next l' events =>
      have hgoes := goes_of_step hstep
      have hwork := hgoes.work
      exact .next hgoes (ih (by omega))

/-- The fuel of a call suffices for all its steps. -/
theorem delivers_process (l : Loader) : l.Delivers l.process :=
  delivers_run (Nat.lt_succ_self _)

/-! ## Pieces of a file -/

theorem append_of_error {bytes : List UInt8} {fault : Fault} (hruns : l.isFinished = false)
    (hinput : l.inputFinished = false) (hpush : l.reception.push bytes = .error fault) :
    l.append bytes = l.fail fault := by
  have hstate : l.state ≠ .complete := fun h => by simp [isFinished, h] at hruns
  simp [append, hstate, hruns, hinput, hpush]

theorem append_of_ok {bytes : List UInt8} {r : Reception} (hruns : l.isFinished = false)
    (hinput : l.inputFinished = false) (hpush : l.reception.push bytes = .ok r) :
    l.append bytes = process { l with reception := r } := by
  have hstate : l.state ≠ .complete := fun h => by simp [isFinished, h] at hruns
  simp [append, hstate, hruns, hinput, hpush]

/-- What follows a complete file is not looked at. -/
theorem append_of_complete {bytes : List UInt8} (hstate : l.state = .complete) (hinput : l.inputFinished = false) :
    l.append bytes = ⟨l, [], .ok ()⟩ := by
  simp [append, hstate, hinput]

end Loader

end MovieVm.Movie
