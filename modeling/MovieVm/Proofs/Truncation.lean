import MovieVm.Proofs.Chunks
import MovieVm.Proofs.HeldBack

/-!
# Truncated files

A plain file that lacks some of the bytes it was read from is incomplete, wherever it is cut: in the preamble, in the
header, or within a tag. Nothing else is found wrong with it.
-/

namespace MovieVm.Movie

/-! ## Verdicts on less -/

namespace File

variable {f g : File} {rest more : List UInt8} {result : Except Fault Unit}

/-- The file of a verdict has the header that it began with, and has read no more than there was. -/
theorem bounds_of_verdict (h : f.verdict rest = (result, some g)) :
    g.header = f.header ∧ g.bytesLoaded ≤ f.bytesLoaded + rest.length := by
  rcases hscan : f.scan rest with ⟨f', left, outcome⟩
  have hfile : f' = g := by
    simp only [verdict, hscan] at h
    cases outcome <;> exact Option.some.inj (congrArg Prod.snd h)
  subst hfile
  have hscans := Scans.of_scan hscan
  obtain ⟨hbytes, -⟩ := hscans.grows
  exact ⟨hscans.header, by omega⟩

/-- A file that gets complete only with more bytes is incomplete without them. -/
theorem verdict_of_short (h : f.verdict (rest ++ more) = (.ok (), some g))
    (hshort : f.bytesLoaded + rest.length < g.bytesLoaded) :
    (f.verdict rest).1 = .error (.incomplete (f.bytesLoaded + rest.length) g.header.fileLength) := by
  rcases hscan : f.scan rest with ⟨f', left, outcome⟩
  have hscans := Scans.of_scan hscan
  obtain ⟨hbytes, -⟩ := hscans.grows
  have hgoes := (hscans.verdict more).symm.trans h
  cases outcome with
  | error fault => cases congrArg Prod.fst hgoes
  | ok s =>
    obtain ⟨hheader, -⟩ := bounds_of_verdict hgoes
    cases hcomplete : f'.isComplete with
    | true =>
      -- A complete file would be the one that all bytes make, and that one has read more.
      rw [verdict_of_complete hcomplete] at hgoes
      obtain rfl := Option.some.inj (congrArg Prod.snd hgoes)
      omega
    | false => simp only [verdict, hscan, hcomplete, Bool.false_eq_true, if_false, hbytes, hheader]

end File

namespace Preamble

variable {p : Preamble} {body more : List UInt8} {file : File} {result : Except Fault Unit}

theorem bounds_of_verdict (h : p.verdict body = (result, some file)) :
    file.header.fileLength = p.fileLength ∧ file.bytesLoaded ≤ size + body.length := by
  cases hread : p.readHeader body with
  | error fault =>
    rw [verdict, hread] at h
    cases congrArg Prod.snd h
  | ok opened =>
    cases opened with
    | none =>
      rw [verdict, hread] at h
      cases congrArg Prod.snd h
    | some opened =>
      obtain ⟨start, rest⟩ := opened
      rw [verdict, hread] at h
      obtain ⟨hlength, hbytes⟩ := opened_of_readHeader hread
      obtain ⟨hheader, hloaded⟩ := File.bounds_of_verdict h
      exact ⟨hheader ▸ hlength, by omega⟩

theorem verdict_of_short (h : p.verdict (body ++ more) = (.ok (), some file))
    (hshort : size + body.length < file.bytesLoaded) :
    (p.verdict body).1 = .error (.incomplete (size + body.length) file.header.fileLength) := by
  obtain ⟨hlength, -⟩ := bounds_of_verdict h
  cases hread : p.readHeader body with
  | error fault => cases congrArg Prod.fst ((verdict_of_fault hread more).symm.trans h)
  | ok opened =>
    cases opened with
    | none => rw [verdict, hread, hlength]
    | some opened =>
      obtain ⟨start, rest⟩ := opened
      obtain ⟨-, hbytes⟩ := opened_of_readHeader hread
      have hgoes := (verdict_of_readHeader hread more).symm.trans h
      have hincomplete := File.verdict_of_short hgoes (by omega)
      rw [verdict, hread]
      rwa [hbytes] at hincomplete

end Preamble

/-- Without all the bytes of its tags a plain file is incomplete; its size is known once its preamble is there. -/
theorem plainVerdict_take {bytes : List UInt8} {file : File} (h : plainVerdict bytes = (.ok (), some file)) {k : Nat}
    (hk : k < file.bytesLoaded) : (plainVerdict (bytes.take k)).1 =
      .error (.incomplete k (if Preamble.size ≤ k then file.header.fileLength else 0)) := by
  by_cases hlong : bytes.length < Preamble.size
  · rw [plainVerdict, if_pos hlong] at h
    cases congrArg Prod.fst h
  · have hsize : Preamble.size ≤ bytes.length := Nat.le_of_not_lt hlong
    cases hp : Preamble.ofBytes bytes with
    | error fault =>
      rw [plainVerdict, if_neg hlong, hp] at h
      cases congrArg Prod.fst h
    | ok p =>
      rw [plainVerdict, if_neg hlong, hp] at h
      obtain ⟨hlength, hloaded⟩ := Preamble.bounds_of_verdict h
      have htaken : (bytes.take k).length = k := by
        rw [List.length_drop] at hloaded
        exact List.length_take_of_le (by omega)
      by_cases hshort : k < Preamble.size
      · rw [plainVerdict, htaken, if_pos hshort, if_neg (Nat.not_le.2 hshort)]
      · have hcut : Preamble.size ≤ (bytes.take k).length := htaken.symm ▸ Nat.le_of_not_lt hshort
        have hpreamble : Preamble.ofBytes (bytes.take k) = .ok p := by
          rw [← Preamble.ofBytes_append hcut (bytes.drop k), List.take_append_drop, hp]
        have hbody : bytes.drop Preamble.size = (bytes.take k).drop Preamble.size ++ bytes.drop k := by
          rw [← List.drop_append_of_le_length hcut, List.take_append_drop]
        have hreceived : Preamble.size + ((bytes.take k).drop Preamble.size).length = k := by
          rw [List.length_drop, htaken]
          omega
        rw [hbody] at h
        have hincomplete := Preamble.verdict_of_short h (by rwa [hreceived])
        rw [plainVerdict, htaken, if_neg hshort, if_pos (Nat.le_of_not_lt hshort), hpreamble]
        rwa [hreceived] at hincomplete

/-! ## What is told of a fault -/

def LoadEvent.fault? : LoadEvent → Option Fault
  | .failed fault => some fault
  | _ => none

/-- The faults that events tell of. -/
def faults (events : List LoadEvent) : List Fault :=
  events.filterMap LoadEvent.fault?

@[simp] theorem faults_append (events events' : List LoadEvent) :
    faults (events ++ events') = faults events ++ faults events' :=
  List.filterMap_append

@[simp] theorem faults_batchEvents (b : Batch) : faults (Loader.batchEvents b) = [] := by
  apply List.filterMap_eq_nil_iff.2
  intro e he
  obtain rfl | hmem := List.mem_cons.1 he
  · rfl
  · obtain ⟨symbol, _, rfl⟩ := List.mem_map.1 hmem
    rfl

namespace Loader

variable {l l' : Loader} {d e : Delivery} {events : List LoadEvent} {acks : List Ack} {bytes : List UInt8}

/-- A call tells its listener of the fault that it answers, once, and of no other. -/
def Delivery.Candid (d : Delivery) : Prop :=
  faults d.events = match d.result with
    | .error fault => [fault]
    | .ok () => []

theorem candid_fail (l : Loader) (fault : Fault) : (l.fail fault).Candid := rfl

theorem Halts.candid (h : l.Halts d) : d.Candid := by
  cases h with
  | idle | completed | starved => rfl
  | held => exact faults_batchEvents _
  | refused | ended => exact candid_fail _ _

theorem Goes.faults_eq (h : l.Goes l' events) : faults events = [] := by
  cases h with
  | announced => exact faults_batchEvents _
  | told | opened | read => rfl

theorem Delivers.candid (h : l.Delivers d) : d.Candid := by
  induction h with
  | stop h => exact h.candid
  | next h _ ih =>
    rw [Delivery.Candid, faults_append, h.faults_eq]
    exact ih

theorem Delivery.Candid.andThen (hd : d.Candid) (he : d.result = .ok () → e.Candid) : (d.andThen e).Candid := by
  cases hresult : d.result with
  | error fault => rwa [Delivery.andThen_of_error hresult]
  | ok _ =>
    rw [Delivery.Candid, hresult] at hd
    rw [Delivery.andThen_of_ok hresult, Delivery.Candid, faults_append, hd]
    exact he hresult

theorem candid_append (hruns : l.isFinished = false) (hinput : l.inputFinished = false) (bytes : List UInt8) :
    (l.append bytes).Candid := by
  cases hpush : l.reception.push bytes with
  | error fault =>
    rw [append_of_error hruns hinput hpush]
    exact candid_fail l fault
  | ok r =>
    rw [append_of_ok hruns hinput hpush]
    exact (delivers_process _).candid

theorem candid_finish (hstate : l.state ≠ .failed) : l.finish.Candid := by
  rw [finish]
  simp only [if_neg hstate]
  exact (delivers_process _).candid

theorem candid_resume (l : Loader) : l.resume.Candid := by
  rw [resume]
  split
  · exact (delivers_process _).candid
  · rfl

theorem candid_settle (l : Loader) : l.settle.Candid := by
  fun_induction settle l with
  | case1 l hwaiting ih => exact l.candid_resume.andThen fun _ => ih
  | case2 l hwaiting => rfl

theorem Delivery.Candid.settled (h : d.Candid) : d.settled.Candid :=
  h.andThen fun _ => candid_settle _

/-! ## Whole loads that settle -/

/-- There is nothing to wait for. -/
theorem Delivery.settled_of_goes (h : d.loader.isWaiting = false) : d.settled = d := by
  rw [settled]
  cases hresult : d.result with
  | error fault => exact andThen_of_error hresult _
  | ok _ =>
    rw [andThen_of_ok hresult, settle, if_neg (Bool.eq_false_iff.1 h), List.append_nil, ← hresult]

theorem Delivery.andThen_assoc (d e f : Delivery) : (d.andThen e).andThen f = d.andThen (e.andThen f) := by
  obtain ⟨_, events, result⟩ := d
  obtain ⟨_, more, result'⟩ := e
  cases result with
  | error fault => rfl
  | ok _ =>
    cases result' with
    | error fault => rfl
    | ok _ => simp only [andThen, List.append_assoc]

theorem Delivery.settled_andThen (d e : Delivery) : (d.andThen e).settled = d.andThen e.settled := by
  cases hresult : d.result with
  | error fault => rw [andThen_of_error hresult, andThen_of_error hresult, settled, andThen_of_error hresult]
  | ok _ =>
    have hloader : (d.andThen e).loader = e.loader := by rw [andThen_of_ok hresult]
    rw [settled, settled, hloader, andThen_assoc]

/-- However often the listener holds it back, a plain file comes to the verdict on its bytes. -/
theorem load_settled (acks : List Ack) (hplain : bytes.take 3 ≠ Draft.signature true) :
    ((load { acks } bytes).settled.result, (load { acks } bytes).settled.loader.file?) = plainVerdict bytes ∧
      (load { acks } bytes).settled.Candid := by
  have htaken : Reception.start.TakesPlain (bytes ++ []) := by rwa [List.append_nil]
  have hverdict : Reception.start.verdict (bytes ++ []) = plainVerdict bytes := by
    rw [List.append_nil]
    rfl
  have hcandid : (append { acks } bytes).Candid := candid_append rfl rfl bytes
  rw [load_eq_andThen, Delivery.settled_andThen]
  obtain ⟨fault, hresult, hfault⟩ | ⟨k, hk, htells⟩ := append_tells (sound_start acks) rfl htaken
  · rw [Delivery.andThen_of_error hresult, hresult, ← hverdict, hfault]
    exact ⟨rfl, hcandid⟩
  · rw [← hverdict, ← hk.verdict]
    cases htells with
    | fails hresult hfails =>
      rw [Delivery.andThen_of_error hresult, hresult, hfails [] fun _ => rfl]
      exact ⟨rfl, hcandid⟩
    | goesOn hresult hcarries =>
      have hfinish := finish_tells hcarries.sound
      refine ⟨?_, hcandid.andThen fun _ => (candid_finish hcarries.sound.running).settled⟩
      rw [Delivery.andThen_of_ok hresult, ← hcarries.verdict]
      exact hfinish.settled.verdict rfl Delivery.isWaiting_settled

/-- Answers that let a call go on leave nothing to wait for. -/
theorem Answered.goes (h : Answered acks d) (hacks : Ack.pending ∉ acks) :
    d.loader.isWaiting = false ∧ Ack.pending ∉ d.loader.acks := by
  cases h with
  | freely _ hleft hgoes => exact ⟨hgoes, hleft ▸ fun hmem => hacks (List.mem_of_mem_drop hmem)⟩
  | held _ _ _ _ hanswer => exact absurd (List.mem_of_getElem? hanswer) hacks

theorem load_settled_of_goes (hacks : Ack.pending ∉ acks) (bytes : List UInt8) :
    (load { acks } bytes).settled = load { acks } bytes := by
  apply Delivery.settled_of_goes
  have hfirst : Answered acks (append { acks } bytes) := answered_call (l := { acks }) rfl (.append bytes)
  obtain ⟨hgoes, hleft⟩ := hfirst.goes hacks
  rw [load_eq_andThen]
  cases hresult : (append { acks } bytes).result with
  | error fault => rwa [Delivery.andThen_of_error hresult]
  | ok _ =>
    rw [Delivery.andThen_of_ok hresult]
    exact ((answered_call hgoes .finish).goes hleft).1

/-- A plain file that loads does not load without all bytes up to the end of its last tag. It is incomplete then, and
nothing else: of `k` bytes just those have been received, and the size is known when the preamble is among them. The
listener is told of this fault alone. One that holds the loader back hears of it when it has let the loader go on as
often as that takes, and any other from the load itself. -/
theorem truncated_file_is_incomplete {bytes : List UInt8} (hplain : bytes.take 3 ≠ Draft.signature true) {file : File}
    (hresult : (load {} bytes).result = .ok ()) (hfile : (load {} bytes).loader.file? = some file) {k : Nat}
    (hk : k < file.bytesLoaded) (acks : List Ack) :
    (load { acks } (bytes.take k)).settled.result =
        .error (.incomplete k (if 8 ≤ k then file.header.fileLength else 0)) ∧
      faults (load { acks } (bytes.take k)).settled.events =
        [.incomplete k (if 8 ≤ k then file.header.fileLength else 0)] ∧
      (Ack.pending ∉ acks → (load { acks } (bytes.take k)).settled = load { acks } (bytes.take k)) := by
  have hfits : (bytes.take k).take 3 ≠ Draft.signature true := by
    intro hsignature
    have hlong : 3 ≤ k := by
      have hlength := congrArg List.length hsignature
      rw [List.length_take, List.length_take] at hlength
      change _ = 3 at hlength
      omega
    rw [List.take_take, Nat.min_eq_left hlong] at hsignature
    exact hplain hsignature
  have hnone : load {} bytes = (load {} bytes).settled := (load_settled_of_goes List.not_mem_nil bytes).symm
  obtain ⟨hwhole, -⟩ := load_settled [] hplain
  rw [← hnone, hresult, hfile] at hwhole
  obtain ⟨hverdict, hcandid⟩ := load_settled acks hfits
  have hincomplete : (load { acks } (bytes.take k)).settled.result =
      .error (.incomplete k (if 8 ≤ k then file.header.fileLength else 0)) :=
    (congrArg Prod.fst hverdict).trans (plainVerdict_take hwhole.symm hk)
  rw [Delivery.Candid, hincomplete] at hcandid
  exact ⟨hincomplete, hcandid, fun hacks => load_settled_of_goes hacks _⟩

/-- The file of an image without its last byte, and a listener that holds the loader back at the image. -/
theorem imageFile_lacks_its_last_byte :
    imageFile.take 3 ≠ Draft.signature true ∧ (load {} imageFile).result = .ok () ∧
      ∃ file, (load {} imageFile).loader.file? = some file ∧ 18 < file.bytesLoaded ∧
        (load { acks := [.pending] } (imageFile.take 18)).settled.result =
          .error (.incomplete 18 (if 8 ≤ 18 then file.header.fileLength else 0)) := by
  have hplain : imageFile.take 3 ≠ Draft.signature true := by decide
  have hresult : (load {} imageFile).result = .ok () := Except.eq_ok_of_toOption (by decide +kernel)
  have hloaded : ((load {} imageFile).loader.file?.any (18 < ·.bytesLoaded)) = true := by decide +kernel
  obtain ⟨file, hfile, hlong⟩ := (Option.any_eq_true _ _).1 hloaded
  have hk : 18 < file.bytesLoaded := of_decide_eq_true hlong
  obtain ⟨hincomplete, -⟩ := truncated_file_is_incomplete hplain hresult hfile hk [.pending]
  exact ⟨hplain, hresult, file, hfile, hk, hincomplete⟩

end Loader

end MovieVm.Movie
