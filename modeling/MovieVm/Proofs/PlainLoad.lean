import MovieVm.Proofs.Chunks
import MovieVm.Proofs.GrowingFile

/-!
# Loading a plain file piece by piece

A plain file that can be loaded is loaded without a fault whatever its pieces are. Until it is complete, the loader
has a beginning of the file, and every file that the listener is shown is one.
-/

namespace MovieVm.Movie

/-! ## The file behind a verdict -/

theorem File.verdict_file (f : File) (rest : List UInt8) : ∃ file, (f.verdict rest).2 = some file := by
  unfold File.verdict
  split <;> exact ⟨_, rfl⟩

/-- Without a fault there is a file. -/
theorem exists_of_plainVerdict {bytes : List UInt8} (h : (plainVerdict bytes).1 = .ok ()) :
    ∃ file, plainVerdict bytes = (.ok (), some file) := by
  suffices hfile : ∃ file, (plainVerdict bytes).2 = some file by
    obtain ⟨file, hfile⟩ := hfile
    exact ⟨file, Prod.ext h hfile⟩
  revert h
  unfold plainVerdict Preamble.verdict
  split
  · exact nofun
  · split
    · exact nofun
    · split
      · exact nofun
      · exact nofun
      · exact fun _ => File.verdict_file ..

namespace Reception

variable {r : Reception} {file f : File} {more : List UInt8}

/-- What is read until a file is complete is a beginning of it. -/
theorem extends_of_verdict (h : r.verdict more = (.ok (), some file)) (hf : r.file? = some f) : f.Extends file := by
  cases r with
  | preamble begun => cases hf
  | header p intake body => cases hf
  | tags intake g rest =>
    obtain rfl := Option.some.inj hf
    rw [Reception.verdict, File.verdict] at h
    rcases hscan : g.scan (rest ++ more) with ⟨g', rest', outcome⟩
    rw [hscan] at h
    cases outcome with
    | error fault => cases congrArg Prod.fst h
    | ok s =>
      obtain rfl := Option.some.inj (congrArg Prod.snd h)
      exact (File.Scans.of_scan hscan).extends

end Reception

/-! ## Completion -/

/-- A script with a completion has the opening before it, and no failure. -/
theorem Script.of_completed {events : List LoadEvent} {file : File} (h : Script events)
    (hmem : .completed file ∈ events) :
    (∃ first, LoadEvent.opened first ∈ events) ∧ ∀ fault, LoadEvent.failed fault ∉ events := by
  have hterminal : (LoadEvent.completed file).isTerminal = true := rfl
  cases h with
  | unopened fault => simp at hmem
  | @completed told htelling first last =>
    refine ⟨⟨first, List.mem_cons_self⟩, fun fault hfailed => ?_⟩
    have hfault : LoadEvent.failed fault ∈ told := by simpa using hfailed
    cases htelling.not_isTerminal hfault
  | @failed told htelling first fault =>
    have hearly : LoadEvent.completed file ∈ told := by simpa using hmem
    rw [htelling.not_isTerminal hearly] at hterminal
    cases hterminal

namespace Loader

variable {l l' k : Loader} {d : Delivery} {events new : List LoadEvent} {file : File} {piece rest : List UInt8}

theorem Goes.state_ne (h : l.Goes l' new) (hl : l.state ≠ .complete) : l'.state ≠ .complete := by
  cases h with
  | announced => exact hl
  | told => exact hl
  | opened => simp
  | read =>
    rw [scanned_state]
    exact hl

/-- When a file gets complete, that is told. -/
theorem Delivers.completes (h : l.Delivers d) (hl : l.state ≠ .complete) (hd : d.loader.state = .complete) :
    ∃ file, d.loader.file? = some file ∧ LoadEvent.completed file ∈ d.events := by
  induction h with
  | stop hhalts =>
    cases hhalts with
    | @completed intake file body _ hreception =>
      refine ⟨file, ?_, List.mem_singleton_self _⟩
      rw [file?, hreception]
      rfl
    | refused => cases hd
    | ended => cases hd
    | _ => exact absurd hd hl
  | next hgoes _ ih =>
    obtain ⟨file, hfile, hmem⟩ := ih (hgoes.state_ne hl) hd
    exact ⟨file, hfile, List.mem_append_right _ hmem⟩

theorem completes_append {bytes : List UInt8} (hl : l.state ≠ .complete)
    (hd : (l.append bytes).loader.state = .complete) :
    ∃ file, (l.append bytes).loader.file? = some file ∧ LoadEvent.completed file ∈ (l.append bytes).events := by
  unfold append at hd ⊢
  split at hd
  · exact absurd hd hl
  · rename_i hopen
    rw [if_neg hopen]
    split at hd
    · exact absurd hd hl
    · rename_i hruns
      rw [if_neg hruns]
      split at hd
      · cases hd
      · rename_i reception hpush
        exact (delivers_process _).completes hl hd

theorem completes_finish (hl : l.state ≠ .complete) (hd : l.finish.loader.state = .complete) :
    ∃ file, l.finish.loader.file? = some file ∧ LoadEvent.completed file ∈ l.finish.events := by
  unfold finish at hd ⊢
  simp only at hd ⊢
  split at hd
  · exact absurd hd hl
  · rename_i hopen
    rw [if_neg hopen]
    exact (delivers_process _).completes hl hd

theorem Told.script (h : l.Told events) (hfinished : l.isFinished = true) : Script events := by
  cases h with
  | unopened hstate => simp [isFinished, hstate] at hfinished
  | opened hstate => simp [isFinished, hstate] at hfinished
  | ended _ hscript => exact hscript

/-! ## Pieces -/

/-- A loader on its way to the end of a plain file: `rest` are the bytes to come, `events` what has been told. -/
structure Takes (l : Loader) (file : File) (rest : List UInt8) (events : List LoadEvent) : Prop where
  sound : l.Sound
  runs : l.state ≠ .complete
  input : l.inputFinished = false
  isWaiting : l.isWaiting = false
  acks : l.acks = []
  plain : l.reception.TakesPlain rest
  verdict : l.reception.verdict rest = (.ok (), some file)
  told : l.Told events
  shows : l.Shows events

/-- What a piece of a plain file leads to: the loader goes on, or the file is complete. Nothing has failed, and every
file that is shown is a beginning of the whole. -/
structure Delivery.Took (d : Delivery) (file : File) (rest : List UInt8) (events : List LoadEvent) : Prop where
  isWaiting : d.loader.isWaiting = false
  extended : ∀ f ∈ shownFiles d.events, f.Numbered ∧ f.Extends file
  flawless : ∀ fault, LoadEvent.failed fault ∉ d.events
  goesOn : d.loader.isFinished = false → d.loader.Takes file rest (events ++ d.events)
  ends : d.loader.isFinished = true → (∃ first, LoadEvent.opened first ∈ events ++ d.events) ∧
    LoadEvent.completed file ∈ events ++ d.events

/-- A delivery without a fault tells of the verdict. -/
theorem Carries.took (h : k.Carries d.loader) (hverdict : k.reception.verdict rest = (.ok (), some file))
    (hplain : k.reception.TakesPlain rest) (heager : d.loader.holds ≤ 0)
    (htold : d.loader.Told (events ++ d.events)) (hshows : d.loader.Shows (events ++ d.events))
    (hcompletes : d.loader.state = .complete → ∃ f, d.loader.file? = some f ∧ LoadEvent.completed f ∈ d.events)
    (hinput : d.loader.isFinished = false → d.loader.inputFinished = false) : d.Took file rest events := by
  obtain ⟨hwaiting, hacks⟩ := eager_of_holds heager
  rw [← h.verdict] at hverdict
  have hcompleted : d.loader.isFinished = true → LoadEvent.completed file ∈ events ++ d.events := by
    intro hfinished
    have hcomplete : d.loader.state = .complete := by simpa [isFinished, h.sound.running] using hfinished
    obtain ⟨f, hf, hmem⟩ := hcompletes hcomplete
    obtain ⟨intake, f', left, hreception, hdone⟩ := h.sound.complete hcomplete
    -- The file of a loader that is complete is the one of the verdict.
    rw [file?, hreception] at hf
    rw [hreception, Reception.verdict, File.verdict_of_complete hdone] at hverdict
    obtain rfl := Option.some.inj hf
    obtain rfl := Option.some.inj (congrArg Prod.snd hverdict)
    exact List.mem_append_right _ hmem
  refine ⟨hwaiting, ?_, ?_, ?_, ?_⟩
  · intro f hf
    have hmem : f ∈ shownFiles (events ++ d.events) := by
      rw [shownFiles, List.filterMap_append]
      exact List.mem_append_right _ hf
    obtain ⟨hnumbered, f', hf', hextends⟩ := hshows.extended f hmem
    exact ⟨hnumbered, hextends.trans (Reception.extends_of_verdict hverdict hf')⟩
  · intro fault hfault
    have hmem : LoadEvent.failed fault ∈ events ++ d.events := List.mem_append_right _ hfault
    have hfinished : d.loader.isFinished = true := htold.isFinished_iff.2 ⟨_, hmem, rfl⟩
    exact ((htold.script hfinished).of_completed (hcompleted hfinished)).2 fault hmem
  · intro hruns
    exact ⟨h.sound, (isFinished_eq_false.1 hruns).1, hinput hruns, hwaiting, hacks, h.plain _ hplain, hverdict, htold,
      hshows⟩
  · intro hfinished
    exact ⟨((htold.script hfinished).of_completed (hcompleted hfinished)).1, hcompleted hfinished⟩

theorem Takes.runs_eq (h : l.Takes file rest events) : l.isFinished = false :=
  isFinished_eq_false.2 ⟨h.runs, h.sound.running⟩

/-- A piece is taken in without a fault. -/
theorem Takes.append (h : l.Takes file (piece ++ rest) events) : (l.append piece).Took file rest events := by
  have heager : (l.append piece).loader.holds ≤ 0 := by
    have hholds : (l.append piece).loader.holds ≤ l.acks.length := holds_append h.isWaiting
    rwa [h.acks] at hholds
  have htold := h.told.call (.append piece)
  have hshows := h.shows.call (.append piece)
  obtain ⟨fault, _, hverdict⟩ | ⟨k, hk, htells⟩ := append_tells h.sound h.input h.plain
  · cases congrArg Prod.fst (h.verdict.symm.trans hverdict)
  · have hverdict := hk.verdict.trans h.verdict
    cases htells with
    | fails _ hfails =>
      have hinput : k.inputFinished = true → rest = [] := fun hk' => by simp [hk.input] at hk'
      cases congrArg Prod.fst (hverdict.symm.trans (hfails rest hinput))
    | goesOn _ hcarries =>
      exact hcarries.took hverdict hk.plain heager htold hshows (completes_append h.runs) fun _ =>
        hcarries.input.trans hk.input

/-- With all bytes taken in, the end of the input is no fault either. -/
theorem Takes.finish (h : l.Takes file [] events) : l.finish.Took file [] events := by
  have heager : l.finish.loader.holds ≤ 0 := by
    have hholds : l.finish.loader.holds ≤ l.acks.length := holds_finish h.isWaiting
    rwa [h.acks] at hholds
  have htold := h.told.call .finish
  have hshows := h.shows.call .finish
  have hverdict : ({ l with inputFinished := true } : Loader).reception.verdict [] = (.ok (), some file) := h.verdict
  cases finish_tells h.sound with
  | fails _ hfails => cases congrArg Prod.fst (hverdict.symm.trans (hfails [] fun _ => rfl))
  | goesOn _ hcarries hsettled =>
    refine hcarries.took hverdict h.plain heager htold hshows (completes_finish h.runs) fun hruns => ?_
    -- A loader whose input is finished does not go on.
    have hcomplete := hsettled (eager_of_holds heager).1 hcarries.input
    exact absurd hcomplete (isFinished_eq_false.1 hruns).1

/-- A plain file comes to the verdict on its bytes. -/
theorem load_verdict_of_plain {bytes : List UInt8} (hplain : bytes.take 3 ≠ Draft.signature true) :
    ((load {} bytes).result, (load {} bytes).loader.file?) = Reception.start.verdict bytes := by
  have htaken : Reception.start.TakesPlain (bytes ++ []) := by rwa [List.append_nil]
  obtain ⟨fault, hresult, hverdict⟩ | ⟨k, hk, htells⟩ := append_tells (sound_start []) rfl htaken
  · have hsame : load {} bytes = Loader.append {} bytes := Delivery.andThen_of_error hresult _
    rw [List.append_nil] at hverdict
    rw [hsame, hresult, ← hverdict]
  · have hverdict := hk.verdict
    rw [List.append_nil] at hverdict
    exact (load_verdict rfl rfl htells).trans hverdict

/-- A new loader takes a plain file that can be loaded. -/
theorem exists_takes_start {bytes : List UInt8} (hplain : bytes.take 3 ≠ Draft.signature true)
    (haccepted : (load {} bytes).result = .ok ()) : ∃ file, Takes {} file bytes [] := by
  have hverdict := load_verdict_of_plain hplain
  rw [haccepted] at hverdict
  obtain ⟨file, hfile⟩ := exists_of_plainVerdict (congrArg Prod.fst hverdict).symm
  exact ⟨file, sound_start [], by decide, rfl, rfl, rfl, hplain, hfile, told_start [], shows_start []⟩

end Loader

end MovieVm.Movie
