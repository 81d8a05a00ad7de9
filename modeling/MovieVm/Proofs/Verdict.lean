import MovieVm.Proofs.LoaderSteps
import MovieVm.Proofs.LossyUtf8
import MovieVm.Movie.Draft

/-!
# The verdict of a load

What a load comes to is settled by the bytes that arrive: no step of a loader changes the verdict on what it
has received, and neither does the place where the bytes are cut.
-/

namespace MovieVm.Movie

/-! ## Verdicts on bytes -/

/-- How a load ends, and the file it leaves. -/
abbrev Verdict := Except Fault Unit × Option File

/-- The verdict on a file and the bytes behind its tags, when no more are to come. -/
def File.verdict (f : File) (rest : List UInt8) : Verdict :=
  match f.scan rest with
  | (f, _, .error fault) => (.error fault, some f)
  | (f, rest, .ok _) =>
    (if f.isComplete then .ok () else .error (.incomplete (f.bytesLoaded + rest.length) f.header.fileLength),
      some f)

/-- The verdict on the body of a file. -/
def Preamble.verdict (p : Preamble) (body : List UInt8) : Verdict :=
  match p.readHeader body with
  | .error fault => (.error fault, none)
  | .ok none => (.error (.incomplete (Preamble.size + body.length) p.fileLength), none)
  | .ok (some (file, rest)) => file.verdict rest

/-- The verdict on a file that is not compressed. -/
def plainVerdict (bytes : List UInt8) : Verdict :=
  if bytes.length < Preamble.size then (.error (.incomplete bytes.length 0), none)
  else
    match Preamble.ofBytes bytes with
    | .error fault => (.error fault, none)
    | .ok p => p.verdict (bytes.drop Preamble.size)

/-- The verdict on what was received, when `more` is all that is still added to the body. -/
def Reception.verdict (r : Reception) (more : List UInt8) : Verdict :=
  match r with
  | preamble begun => plainVerdict (begun ++ more)
  | header p _ body => p.verdict (body ++ more)
  | tags _ file rest => file.verdict (rest ++ more)

namespace File

variable {f f' : File} {rest rest' : List UInt8} {outcome : Except Fault Scan}

theorem verdict_of_complete (h : f.isComplete = true) : f.verdict rest = (.ok (), some f) := by
  simp [verdict, scan_of_complete h, h]

theorem verdict_of_ok {raw : RawTag} {symbol : Option Symbol} (h : f.isComplete = false)
    (hsplit : RawTag.split? rest = some (raw, rest')) (hadd : f.add raw = (f', .ok symbol)) :
    f.verdict rest = f'.verdict rest' := by
  simp only [verdict, scan_of_ok h hsplit hadd]
  rcases f'.scan rest' with ⟨g, rest'', outcome⟩
  cases outcome <;> rfl

/-- A scan may be broken off: what it found is the verdict, or where to go on. -/
theorem Scans.verdict (h : Scans f rest f' rest' outcome) (more : List UInt8) :
    f.verdict (rest ++ more) =
      match outcome with
      | .error e => (.error e, some f')
      | .ok _ => f'.verdict (rest' ++ more) := by
  induction h with
  | stop => rfl
  | fault h hsplit hadd =>
    simp only [File.verdict, scan_of_error h (RawTag.split?_append hsplit more) hadd]
  | @tag _ _ _ _ _ _ _ _ outcome h hsplit hadd _ ih =>
    rw [verdict_of_ok h (RawTag.split?_append hsplit more) hadd, ih]
    cases outcome <;> rfl

end File

theorem Preamble.verdict_of_readHeader {p : Preamble} {body rest : List UInt8} {file : File}
    (h : p.readHeader body = .ok (some (file, rest))) (more : List UInt8) :
    p.verdict (body ++ more) = file.verdict (rest ++ more) := by
  have hthere : p.readHeader body ≠ .ok none := by simp [h]
  have hread := readHeader_append hthere more
  rw [h] at hread
  simp only [verdict, hread, Except.map, Option.map]

theorem Preamble.verdict_of_fault {p : Preamble} {body : List UInt8} {fault : Fault}
    (h : p.readHeader body = .error fault) (more : List UInt8) :
    p.verdict (body ++ more) = (.error fault, none) := by
  have hthere : p.readHeader body ≠ .ok none := by simp [h]
  have hread := readHeader_append hthere more
  rw [h] at hread
  simp only [verdict, hread, Except.map]

namespace Reception

variable {r r' : Reception} {fault : Fault}

theorem Refused.verdict (h : r.Refused fault r') (more : List UInt8) :
    r.verdict more = (.error fault, r'.file?) := by
  cases h with
  | header hheader => exact Preamble.verdict_of_fault hheader more
  | firstTags hheader hscan =>
    exact (Preamble.verdict_of_readHeader hheader more).trans ((File.Scans.of_scan hscan).verdict more)
  | tags hscan => exact (File.Scans.of_scan hscan).verdict more

/-- Where bytes are missing and none are to come, the file is incomplete. -/
theorem Starved.verdict (h : r.Starved) (hbegun : ∀ bytes, r = .preamble bytes → bytes.length < Preamble.size) :
    r.verdict [] = (.error r.incomplete, r.file?) := by
  cases h with
  | preamble bytes =>
    simp only [Reception.verdict, List.append_nil, plainVerdict, if_pos (hbegun bytes rfl)]
    rfl
  | header hheader => simp only [Reception.verdict, List.append_nil, Preamble.verdict, hheader]; rfl
  | tags hscan hincomplete =>
    simp only [Reception.verdict, List.append_nil, File.verdict, hscan, hincomplete]
    rfl

end Reception

/-! ## What a call keeps -/

namespace Reception

/-- Whether the bytes behind the preamble are taken as they are, with `more` bytes to come. -/
def TakesPlain : Reception → List UInt8 → Prop
  | preamble begun, more => (begun ++ more).take 3 ≠ Draft.signature true
  | header _ intake _, _ => intake = .plain
  | tags intake _ _, _ => intake = .plain

end Reception

namespace Loader

/-- A loader that has not failed. Its preamble is shorter than a whole one, and when it says that its file
is complete, it is. -/
structure Sound (l : Loader) : Prop where
  begun : ∀ bytes, l.reception = .preamble bytes → bytes.length < Preamble.size
  running : l.state ≠ .failed
  complete : l.state = .complete →
    ∃ intake file rest, l.reception = .tags intake file rest ∧ file.isComplete = true

/-- From one loader to a later one without a fault: the verdict stays. -/
structure Carries (l l' : Loader) : Prop where
  sound : l'.Sound
  input : l'.inputFinished = l.inputFinished
  plain : ∀ more, l.reception.TakesPlain more → l'.reception.TakesPlain more
  verdict : ∀ more, l'.reception.verdict more = l.reception.verdict more

theorem Carries.refl {l : Loader} (h : l.Sound) : l.Carries l :=
  ⟨h, rfl, fun _ h => h, fun _ => rfl⟩

theorem Carries.trans {l l' l'' : Loader} (h : l.Carries l') (h' : l'.Carries l'') : l.Carries l'' where
  sound := h'.sound
  input := h'.input.trans h.input
  plain := fun more hplain => h'.plain more (h.plain more hplain)
  verdict := fun more => (h'.verdict more).trans (h.verdict more)

/-- Nothing but the reception matters to what is carried. -/
theorem Carries.of_same {l l' : Loader} (h : l.Sound) (hreception : l'.reception = l.reception)
    (hstate : l'.state = l.state) (hinput : l'.inputFinished = l.inputFinished) : l.Carries l' where
  sound := ⟨hreception ▸ h.begun, hstate ▸ h.running, by rw [hreception, hstate]; exact h.complete⟩
  input := hinput
  plain := fun _ hplain => hreception ▸ hplain
  verdict := fun more => by rw [hreception]

/-! ## Steps and calls keep the verdict -/

variable {l l' : Loader} {events : List LoadEvent} {d : Delivery}

theorem isFinished_eq_false : l.isFinished = false ↔ l.state ≠ .complete ∧ l.state ≠ .failed := by
  simp [isFinished]

/-- A loader that reads tags and has not ended is sound. -/
theorem Sound.of_tags {intake : Intake} {file : File} {rest : List UInt8}
    (hreception : l.reception = .tags intake file rest) (hruns : l.isFinished = false) : l.Sound where
  begun := fun bytes hbegun => by rw [hreception] at hbegun; cases hbegun
  running := (isFinished_eq_false.1 hruns).2
  complete := fun hcomplete => absurd hcomplete (isFinished_eq_false.1 hruns).1

/-- A step that does not end the call carries the verdict on. -/
theorem Goes.carries (h : l.Goes l' events) (hsound : l.Sound) : l.Carries l' := by
  cases h with
  | announced => exact .of_same hsound rfl rfl rfl
  | told => exact .of_same hsound rfl rfl rfl
  | @opened p intake body rest rest' file file' s hruns _ hreception hheader hscan =>
    refine ⟨.of_tags (scanned_reception _ s) rfl, by simp, ?_, ?_⟩
    · intro more hplain
      rw [hreception] at hplain
      simp only [scanned_reception]
      exact hplain
    · intro more
      simp only [scanned_reception, hreception]
      rw [Reception.verdict, Reception.verdict, Preamble.verdict_of_readHeader hheader]
      exact ((File.Scans.of_scan hscan).verdict more).symm
  | @read intake file file' body rest s hruns _ hreception _ hscan =>
    have hruns' : (({ l with reception := .tags intake file' rest } : Loader).scanned s).isFinished =
        false := by
      simpa [isFinished] using hruns
    refine ⟨.of_tags (scanned_reception _ s) hruns', by simp, ?_, ?_⟩
    · intro more hplain
      rw [hreception] at hplain
      simp only [scanned_reception]
      exact hplain
    · intro more
      simp only [scanned_reception, hreception]
      exact ((File.Scans.of_scan hscan).verdict more).symm

/-- What a call tells of the verdict. A fault is the verdict, whatever bytes would still come; without one
the verdict stays, and it is settled when there are no more bytes and the listener does not hold back. -/
inductive Tells (l : Loader) (d : Delivery) : Prop where
  | fails {fault : Fault} (hresult : d.result = .error fault)
    (hverdict : ∀ more, (l.inputFinished = true → more = []) →
      l.reception.verdict more = (.error fault, d.loader.file?))
  | goesOn (hresult : d.result = .ok ()) (hcarries : l.Carries d.loader)
    (hsettled : d.loader.isWaiting = false → d.loader.inputFinished = true → d.loader.state = .complete)

theorem Tells.of_carries (hcarries : l.Carries l') (h : l'.Tells d) : l.Tells d := by
  cases h with
  | fails hresult hverdict =>
    refine .fails hresult fun more hmore => ?_
    rw [← hcarries.verdict]
    exact hverdict more (hcarries.input ▸ hmore)
  | goesOn hresult hcarries' hsettled => exact .goesOn hresult (hcarries.trans hcarries') hsettled

theorem Tells.of_same {d' : Delivery} (h : l.Tells d) (hloader : d'.loader = d.loader)
    (hresult : d'.result = d.result) : l.Tells d' := by
  cases h with
  | fails hfault hverdict => exact .fails (hresult.trans hfault) (hloader ▸ hverdict)
  | goesOn hok hcarries hsettled => exact .goesOn (hresult.trans hok) (hloader ▸ hcarries) (hloader ▸ hsettled)

/-- The verdict when no more bytes come is known once a call has told it. -/
theorem Tells.verdict (h : l.Tells d) (hinput : l.inputFinished = true)
    (hwaiting : d.result = .ok () → d.loader.isWaiting = false) :
    (d.result, d.loader.file?) = l.reception.verdict [] := by
  cases h with
  | fails hresult hverdict => rw [hresult, hverdict [] fun _ => rfl]
  | goesOn hresult hcarries hsettled =>
    obtain ⟨intake, file, rest, hreception, hcomplete⟩ :=
      hcarries.sound.complete (hsettled (hwaiting hresult) (hcarries.input.trans hinput))
    rw [← hcarries.verdict, hresult, file?, hreception, Reception.verdict, File.verdict_of_complete hcomplete]
    rfl

theorem Halts.tells (h : l.Halts d) (hsound : l.Sound) : l.Tells d := by
  cases h with
  | idle h =>
    refine .goesOn rfl (.refl hsound) fun hwaiting _ => ?_
    have hfinished := h.resolve_left (Bool.eq_false_iff.1 hwaiting)
    simpa [isFinished, hsound.running] using hfinished
  | held => exact .goesOn rfl (.of_same hsound rfl rfl rfl) fun hwaiting => by cases hwaiting
  | @completed intake file body hruns hreception hcomplete =>
    refine .goesOn rfl ⟨⟨hsound.begun, by simp, fun _ => ⟨intake, file, body, hreception, hcomplete⟩⟩, rfl,
      fun _ h => h, fun _ => rfl⟩ fun _ _ => rfl
  | refused _ hrefused => exact .fails rfl fun more _ => hrefused.verdict more
  | ended _ hstarved hinput =>
    refine .fails rfl fun more hmore => ?_
    rw [hmore hinput]
    exact hstarved.verdict hsound.begun
  | starved _ _ hinput =>
    exact .goesOn rfl (.refl hsound) fun _ hfinished => absurd hfinished (by simp [hinput])

theorem Delivers.tells (h : l.Delivers d) (hsound : l.Sound) : l.Tells d := by
  induction h with
  | stop h => exact h.tells hsound
  | next h _ ih =>
    have hcarries := h.carries hsound
    exact .of_carries hcarries ((ih hcarries.sound).of_same rfl rfl)

theorem process_tells (hsound : l.Sound) : l.Tells l.process :=
  l.delivers_process.tells hsound

/-- Letting a loader go on tells of the verdict. -/
theorem resume_tells (hsound : l.Sound) (hwaiting : l.isWaiting = true) : l.Tells l.resume := by
  have hcarries : l.Carries { l with isWaiting := false } := .of_same hsound rfl rfl rfl
  rw [resume, if_pos hwaiting]
  exact .of_carries hcarries (process_tells hcarries.sound)

/-- Declaring the input finished tells of the verdict on what there is. -/
theorem finish_tells (hsound : l.Sound) : Tells { l with inputFinished := true } l.finish := by
  have hsound' : Sound { l with inputFinished := true } := ⟨hsound.begun, hsound.running, hsound.complete⟩
  simp only [finish, if_neg hsound.running]
  exact process_tells hsound'

/-! ## Answers that are left -/

/-- How often a loader may still be held back: once now, and once for each answer that is left. -/
def holds (l : Loader) : Nat :=
  l.acks.length + l.isWaiting.toNat

theorem Goes.holds (h : l.Goes l' events) (hwaiting : l.isWaiting = false) :
    l'.isWaiting = false ∧ l'.holds ≤ l.holds := by
  cases h with
  | announced =>
    refine ⟨rfl, ?_⟩
    simp only [Loader.holds, List.length_tail, Bool.toNat_false]
    omega
  | told => exact ⟨hwaiting, Nat.le_refl _⟩
  | opened => exact ⟨by simp [hwaiting], by simp [Loader.holds]⟩
  | read => exact ⟨by simp [hwaiting], by simp [Loader.holds]⟩

theorem Halts.holds (h : l.Halts d) (hwaiting : l.isWaiting = false) : d.loader.holds ≤ l.acks.length := by
  cases h with
  | held _ _ _ hack =>
    have hpos : 0 < l.acks.length := by
      cases hacks : l.acks with
      | nil => simp [hacks] at hack
      | cons ack acks => exact Nat.succ_pos _
    simp only [Loader.holds, List.length_tail, Bool.toNat_true]
    omega
  | _ => simp [Loader.holds, Loader.fail, hwaiting]

theorem Delivers.holds (h : l.Delivers d) (hwaiting : l.isWaiting = false) :
    d.loader.holds ≤ l.acks.length := by
  induction h with
  | stop h => exact h.holds hwaiting
  | @next l l' _ _ h _ ih =>
    obtain ⟨hwaiting', hholds⟩ := h.holds hwaiting
    have hrest := ih hwaiting'
    simp only [Loader.holds, hwaiting, hwaiting', Bool.toNat_false, Nat.add_zero] at hholds hrest ⊢
    omega

/-- Each time a loader is let go on it can be held back once less. -/
theorem holds_resume (hwaiting : l.isWaiting = true) : l.resume.loader.holds < l.holds := by
  have hholds : l.resume.loader.holds ≤ l.acks.length := by
    rw [resume, if_pos hwaiting]
    exact (delivers_process _).holds rfl
  simp only [holds, hwaiting, Bool.toNat_true] at hholds ⊢
  omega

end Loader

end MovieVm.Movie
