import MovieVm.Proofs.Verdict

/-!
# Files that arrive in chunks

A file may be cut into chunks anywhere and its listener may hold the loader back at any symbols: the load
ends like that of the whole file at once, and leaves the same file.
-/

namespace MovieVm.Movie

/-! ## Taking a chunk -/

namespace Preamble

variable {bytes : List UInt8} {p : Preamble}

/-- A preamble does not depend on what follows it. -/
theorem ofBytes_append (h : size ≤ bytes.length) (more : List UInt8) :
    ofBytes (bytes ++ more) = ofBytes bytes := by
  have hsize : 8 ≤ bytes.length := h
  have hversion : (bytes ++ more)[3]? = bytes[3]? := List.getElem?_append_left (by omega)
  have hsignature : (bytes ++ more).take 3 = bytes.take 3 := List.take_append_of_le_length (by omega)
  have hlength : ((bytes ++ more).drop 4).take 4 = (bytes.drop 4).take 4 := take_drop_append hsize
  simp only [ofBytes, hversion, hsignature, hlength]

/-- Only one signature stands for a compressed file. -/
theorem compressed_of_ofBytes (h : ofBytes bytes = .ok p) (hsize : size ≤ bytes.length)
    (hcompressed : p.compressed = true) : bytes.take 3 = Draft.signature true := by
  have hlength : (bytes.take 3).length = 3 := List.length_take_of_le (Nat.le_trans (by decide) hsize)
  simp only [ofBytes] at h
  split at h
  · cases h
    cases hcompressed
  · split at h
    · rename_i hsignature
      have hbytes := Text.eq_of_ofUtf8Lossy hsignature hlength.symm (by decide)
      rw [hbytes]
      decide
    · split at h <;> cases h

/-- The preamble of a plain file says that it is plain. -/
theorem not_compressed_of_ofBytes (h : ofBytes bytes = .ok p) (hsize : size ≤ bytes.length) {more : List UInt8}
    (hplain : (bytes ++ more).take 3 ≠ Draft.signature true) : p.compressed = false := by
  rw [Bool.eq_false_iff]
  intro hcompressed
  rw [List.take_append_of_le_length (Nat.le_trans (by decide) hsize)] at hplain
  exact hplain (compressed_of_ofBytes h hsize hcompressed)

end Preamble

section

variable {bytes : List UInt8} (hsize : Preamble.size ≤ bytes.length) (more : List UInt8)

include hsize

theorem not_short_append : ¬ (bytes ++ more).length < Preamble.size := by
  rw [List.length_append]
  omega

theorem plainVerdict_of_error {fault : Fault} (h : Preamble.ofBytes bytes = .error fault) :
    plainVerdict (bytes ++ more) = (.error fault, none) := by
  simp only [plainVerdict, if_neg (not_short_append hsize more), Preamble.ofBytes_append hsize, h]

theorem plainVerdict_of_ok {p : Preamble} (h : Preamble.ofBytes bytes = .ok p) :
    plainVerdict (bytes ++ more) = p.verdict (bytes.drop Preamble.size ++ more) := by
  simp only [plainVerdict, if_neg (not_short_append hsize more), Preamble.ofBytes_append hsize, h,
    List.drop_append_of_le_length hsize]

end

namespace Reception

/-- What a piece of a plain file makes of what was received: a fault that is the verdict, or the same
verdict. -/
theorem push_plain {r : Reception} {chunk more : List UInt8} (hplain : r.TakesPlain (chunk ++ more)) :
    match r.push chunk with
    | .error fault => r.verdict (chunk ++ more) = (.error fault, r.file?)
    | .ok r' => (∀ bytes, r' = .preamble bytes → bytes.length < Preamble.size) ∧ r'.TakesPlain more ∧
      r'.verdict more = r.verdict (chunk ++ more) := by
  cases r with
  | preamble begun =>
    rw [TakesPlain, ← List.append_assoc] at hplain
    have hverdict : (preamble begun).verdict (chunk ++ more) = plainVerdict (begun ++ chunk ++ more) := by
      rw [Reception.verdict, List.append_assoc]
    rw [hverdict]
    by_cases hshort : (begun ++ chunk).length < Preamble.size
    · rw [push, if_pos hshort]
      refine ⟨fun bytes hbytes => ?_, hplain, rfl⟩
      obtain rfl := Reception.preamble.inj hbytes
      exact hshort
    · have hlong : Preamble.size ≤ (begun ++ chunk).length := Nat.le_of_not_lt hshort
      cases hp : Preamble.ofBytes (begun ++ chunk) with
      | error fault =>
        have hpush : (preamble begun).push chunk = .error fault := by
          rw [push, if_neg hshort, hp, Except.error_bind]
        rw [hpush]
        exact plainVerdict_of_error hlong more hp
      | ok p =>
        have hpush : (preamble begun).push chunk =
            .ok (.header p .plain ((begun ++ chunk).drop Preamble.size)) := by
          simp only [push, if_neg hshort, hp, Except.ok_bind,
            Preamble.not_compressed_of_ofBytes hp hlong hplain]
          rfl
        rw [hpush]
        exact ⟨by rintro _ ⟨⟩, rfl, (plainVerdict_of_ok hlong more hp).symm⟩
  | header p intake body =>
    obtain rfl := hplain
    refine ⟨by rintro _ ⟨⟩, rfl, ?_⟩
    simp only [Reception.verdict, List.append_assoc]
  | tags intake file rest =>
    obtain rfl := hplain
    refine ⟨by rintro _ ⟨⟩, rfl, ?_⟩
    simp only [Reception.verdict, List.append_assoc]

end Reception

namespace Loader

variable {l : Loader} {d : Delivery} {chunk more : List UInt8} {chunks : List (List UInt8)}

/-! ## A caller -/

/-- Goes on to another call unless this one has failed. -/
def Delivery.andThen (d next : Delivery) : Delivery :=
  match d.result with
  | .error _ => d
  | .ok () => { next with events := d.events ++ next.events }

/-- Lets a loader go on until it does not wait any more. -/
def settle (l : Loader) : Delivery :=
  if l.isWaiting then l.resume.andThen l.resume.loader.settle else ⟨l, [], .ok ()⟩
termination_by l.holds
decreasing_by exact holds_resume ‹_›

/-- A call after which the loader is settled. -/
def Delivery.settled (d : Delivery) : Delivery :=
  d.andThen d.loader.settle

/-- Hands over chunks one after the other and declares the input finished. The loader is settled after each
of these calls, and the first fault ends them. -/
def feed (l : Loader) : List (List UInt8) → Delivery
  | [] => l.finish.settled
  | chunk :: chunks => (l.append chunk).settled.andThen ((l.append chunk).settled.loader.feed chunks)

theorem load_eq_andThen (l : Loader) (bytes : List UInt8) :
    l.load bytes = (l.append bytes).andThen (l.append bytes).loader.finish := rfl

/-! ## What the caller is told -/

theorem Delivery.andThen_of_error {fault : Fault} (h : d.result = .error fault) (e : Delivery) :
    d.andThen e = d := by
  simp only [andThen, h]

theorem Delivery.andThen_of_ok (h : d.result = .ok ()) (e : Delivery) :
    d.andThen e = { e with events := d.events ++ e.events } := by
  simp only [andThen, h]

/-- A call tells of the verdict what the one after it tells. -/
theorem Tells.andThen {e : Delivery} (h : l.Tells d)
    (hnext : d.loader.Sound → (d.loader.isWaiting = false → d.loader.inputFinished = true →
      d.loader.state = .complete) → d.loader.Tells e) : l.Tells (d.andThen e) := by
  cases h with
  | fails hresult hverdict =>
    rw [Delivery.andThen_of_error hresult]
    exact .fails hresult hverdict
  | goesOn hresult hcarries hsettled =>
    rw [Delivery.andThen_of_ok hresult]
    exact ((hnext hcarries.sound hsettled).of_carries hcarries).of_same rfl rfl

theorem settle_tells (hsound : l.Sound)
    (hsettled : l.isWaiting = false → l.inputFinished = true → l.state = .complete) :
    l.Tells l.settle := by
  fun_induction settle l with
  | case1 l hwaiting ih => exact (resume_tells hsound hwaiting).andThen ih
  | case2 l hwaiting => exact .goesOn rfl (.refl hsound) hsettled

/-- A loader that is settled waits no more. -/
theorem isWaiting_settle (l : Loader) (hresult : l.settle.result = .ok ()) :
    l.settle.loader.isWaiting = false := by
  fun_induction settle l with
  | case1 l hwaiting ih =>
    cases hresume : l.resume.result with
    | error fault =>
      rw [Delivery.andThen_of_error hresume, hresume] at hresult
      cases hresult
    | ok _ =>
      rw [Delivery.andThen_of_ok hresume] at hresult ⊢
      exact ih hresult
  | case2 l hwaiting => exact Bool.eq_false_iff.2 hwaiting

theorem Tells.settled (h : l.Tells d) : l.Tells d.settled :=
  h.andThen settle_tells

theorem Delivery.isWaiting_settled (h : d.settled.result = .ok ()) : d.settled.loader.isWaiting = false := by
  unfold settled at h ⊢
  cases hresult : d.result with
  | error fault =>
    rw [andThen_of_error hresult, hresult] at h
    cases h
  | ok _ =>
    rw [andThen_of_ok hresult] at h ⊢
    exact isWaiting_settle _ h

/-! ## Chunks -/

/-- A loader that has taken a chunk in, with `more` bytes behind it: the verdict stays. -/
structure Gains (l k : Loader) (chunk more : List UInt8) : Prop where
  input : k.inputFinished = false
  plain : k.reception.TakesPlain more
  verdict : k.reception.verdict more = l.reception.verdict (chunk ++ more)

/-- A chunk that a loader refuses is the verdict; else it tells what the loader with the chunk tells. -/
theorem append_tells (hsound : l.Sound) (hinput : l.inputFinished = false)
    (hplain : l.reception.TakesPlain (chunk ++ more)) :
    (∃ fault, (l.append chunk).result = .error fault ∧
      l.reception.verdict (chunk ++ more) = (.error fault, (l.append chunk).loader.file?)) ∨
    ∃ k, l.Gains k chunk more ∧ k.Tells (l.append chunk) := by
  by_cases hcomplete : l.state = .complete
  · obtain ⟨intake, file, rest, hreception, hfile⟩ := hsound.complete hcomplete
    rw [append_of_complete hcomplete hinput]
    refine .inr ⟨l, ⟨hinput, ?_, ?_⟩, .goesOn rfl (.refl hsound) fun _ h => absurd h (by simp [hinput])⟩
    · rw [hreception] at hplain ⊢
      exact hplain
    · simp only [hreception, Reception.verdict, File.verdict_of_complete hfile]
  · have hruns : l.isFinished = false := isFinished_eq_false.2 ⟨hcomplete, hsound.running⟩
    have htaken := Reception.push_plain hplain
    cases hpush : l.reception.push chunk with
    | error fault =>
      rw [hpush] at htaken
      rw [append_of_error hruns hinput hpush]
      exact .inl ⟨fault, rfl, htaken⟩
    | ok r =>
      rw [hpush] at htaken
      obtain ⟨hbegun, hplain', hverdict⟩ := htaken
      have hsound' : Sound { l with reception := r } :=
        ⟨hbegun, hsound.running, fun h => absurd h hcomplete⟩
      rw [append_of_ok hruns hinput hpush]
      exact .inr ⟨{ l with reception := r }, ⟨hinput, hplain', hverdict⟩, process_tells hsound'⟩

/-- The chunks come to the verdict on all of their bytes. -/
theorem feed_verdict (hsound : l.Sound) (hinput : l.inputFinished = false)
    (hplain : l.reception.TakesPlain chunks.flatten) :
    ((l.feed chunks).result, (l.feed chunks).loader.file?) = l.reception.verdict chunks.flatten := by
  induction chunks generalizing l with
  | nil => exact (finish_tells hsound).settled.verdict rfl Delivery.isWaiting_settled
  | cons chunk chunks ih =>
    rw [List.flatten_cons] at hplain ⊢
    rw [feed]
    obtain ⟨fault, hresult, hverdict⟩ | ⟨k, hk, htells⟩ := append_tells hsound hinput hplain
    · have hsettled : (l.append chunk).settled = l.append chunk := Delivery.andThen_of_error hresult _
      rw [hsettled, Delivery.andThen_of_error hresult, hresult, hverdict]
    · rw [← hk.verdict]
      cases htells.settled with
      | fails hresult hverdict =>
        rw [Delivery.andThen_of_error hresult, hresult, hverdict _ fun h => absurd h (by simp [hk.input])]
      | goesOn hresult hcarries =>
        rw [Delivery.andThen_of_ok hresult, ← hcarries.verdict]
        exact ih hcarries.sound (hcarries.input.trans hk.input) (hcarries.plain _ hk.plain)

/-! ## Whole files -/

theorem holds_finish (hwaiting : l.isWaiting = false) : l.finish.loader.holds ≤ l.acks.length := by
  by_cases hfailed : l.state = .failed
  · simp [finish, hfailed, holds, hwaiting]
  · simp only [finish, if_neg hfailed]
    exact (delivers_process _).holds hwaiting

theorem holds_append {bytes : List UInt8} (hwaiting : l.isWaiting = false) :
    (l.append bytes).loader.holds ≤ l.acks.length := by
  unfold append
  split
  · simp [holds, hwaiting]
  · split
    · simp [holds, hwaiting]
    · split
      · simp [holds, fail, hwaiting]
      · exact (delivers_process _).holds hwaiting

/-- Without a listener that holds it back a loader never waits. -/
theorem eager_of_holds (h : l.holds ≤ 0) : l.isWaiting = false ∧ l.acks = [] := by
  obtain ⟨hacks, hwaiting⟩ := Nat.add_eq_zero_iff.1 (Nat.le_zero.1 h)
  refine ⟨?_, List.eq_nil_of_length_eq_zero hacks⟩
  cases hw : l.isWaiting
  · rfl
  · simp [hw] at hwaiting

/-- A whole file comes to the verdict on what was received, when the listener never holds back. -/
theorem load_verdict {k : Loader} {bytes : List UInt8} (hwaiting : l.isWaiting = false) (hacks : l.acks = [])
    (h : k.Tells (l.append bytes)) :
    ((l.load bytes).result, (l.load bytes).loader.file?) = k.reception.verdict [] := by
  rw [load_eq_andThen]
  cases h with
  | fails hresult hverdict => rw [Delivery.andThen_of_error hresult, hresult, hverdict [] fun _ => rfl]
  | goesOn hresult hcarries =>
    have hheld : (l.append bytes).loader.holds ≤ l.acks.length := holds_append hwaiting
    rw [hacks] at hheld
    obtain ⟨hwaiting', hacks'⟩ := eager_of_holds hheld
    have hfinish := holds_finish hwaiting'
    rw [hacks'] at hfinish
    rw [Delivery.andThen_of_ok hresult, ← hcarries.verdict]
    exact (finish_tells hcarries.sound).verdict rfl fun _ => (eager_of_holds hfinish).1

theorem sound_start (acks : List Ack) : Sound { acks } where
  begun := fun bytes hbytes => by
    obtain rfl := Reception.preamble.inj hbytes
    decide
  running := by simp
  complete := by simp

/-- What is received of a whole file decides its load. -/
theorem load_of_push {bytes : List UInt8} {r : Reception} (hpush : Reception.start.push bytes = .ok r)
    (hbegun : ∀ begun, r = .preamble begun → begun.length < Preamble.size) :
    ((load {} bytes).result, (load {} bytes).loader.file?) = r.verdict [] := by
  have hsound : Sound { reception := r } := ⟨hbegun, by simp, by simp⟩
  have happend : append {} bytes = process { reception := r } := append_of_ok rfl rfl hpush
  have htells : Tells { reception := r } (append {} bytes) := by
    rw [happend]
    exact process_tells hsound
  exact load_verdict rfl rfl htells

/-- The outcome of a load and the file it leaves do not depend on how the bytes arrive: a plain file may be
cut into chunks anywhere, and whatever the listener answers, when it is let go on until it waits no more, the
chunks come to what the whole file comes to with a listener that never holds back. A load asks for an answer
only when it announces symbols, so a list of answers stands for all that a listener can do. -/
theorem load_chunks (bytes : List UInt8) (hplain : bytes.take 3 ≠ Draft.signature true)
    (chunks : List (List UInt8)) (hchunks : chunks.flatten = bytes) (acks : List Ack) :
    (feed { acks } chunks).result = (load {} bytes).result ∧
      (feed { acks } chunks).loader.file? = (load {} bytes).loader.file? := by
  subst hchunks
  have hfeed : ((feed { acks } chunks).result, (feed { acks } chunks).loader.file?) =
      Reception.start.verdict chunks.flatten := feed_verdict (sound_start acks) rfl hplain
  have hload : ((load {} chunks.flatten).result, (load {} chunks.flatten).loader.file?) =
      Reception.start.verdict chunks.flatten := by
    have htaken : Reception.start.TakesPlain (chunks.flatten ++ []) := by rwa [List.append_nil]
    obtain ⟨fault, hresult, hverdict⟩ | ⟨k, hk, htells⟩ := append_tells (sound_start []) rfl htaken
    · have hsame : load {} chunks.flatten = append {} chunks.flatten := Delivery.andThen_of_error hresult _
      rw [List.append_nil] at hverdict
      rw [hsame, hresult, ← hverdict]
    · have hverdict := hk.verdict
      rw [List.append_nil] at hverdict
      exact (load_verdict rfl rfl htells).trans hverdict
  exact Prod.mk.inj (hfeed.trans hload.symm)

/-- A file of one image. -/
def imageFile : List UInt8 :=
  [0x46, 0x57, 0x53, 10, 19, 0, 0, 0] ++ [0, 0, 24, 0, 0] ++ [0x02, 0x09, 1, 0] ++ [0, 0]

/-- The file of an image in single bytes, with an empty chunk in front, and a listener that holds the loader
back at the image. -/
theorem load_chunks_imageFile :
    imageFile.take 3 ≠ Draft.signature true ∧ ([] :: imageFile.map ([·])).flatten = imageFile ∧
      (feed { acks := [.pending] } ([] :: imageFile.map ([·]))).result = (load {} imageFile).result ∧
      (feed { acks := [.pending] } ([] :: imageFile.map ([·]))).loader.file? =
        (load {} imageFile).loader.file? :=
  ⟨by decide, by decide, load_chunks imageFile (by decide) _ (by decide) _⟩

end Loader

end MovieVm.Movie
