import MovieVm.Movie.Extraction
import MovieVm.Proofs.Completion

/-!
# Embedded modules

The modules of a file are taken when it is opened. A file that arrives in one piece is opened only after all of its tags
have been read, so these are the modules of the complete file.
-/

namespace MovieVm.Movie

/-- No modules are taken between the opening of a file and its end. -/
theorem Telling.blocks {told : List LoadEvent} (h : Telling told) : told.flatMap LoadEvent.blocks = [] := by
  induction h with
  | nil => rfl
  | progress _ file progress ih =>
    rw [List.flatMap_append, ih]
    rfl
  | batch _ b ih =>
    rw [List.flatMap_append, ih, List.nil_append, Loader.batchEvents, List.flatMap_cons, List.flatMap_map]
    exact List.flatMap_eq_nil_iff.2 fun _ _ => rfl

namespace Loader

variable {bytes : List UInt8} {acks : List Ack}

/-- All calls of a load bring the bytes, and nothing else. -/
theorem asks_load (acks : List Ack) (bytes : List UInt8) : Asks { acks } bytes (load { acks } bytes) := by
  have hasks := (asks_call { acks } (.append bytes)).andThen (asks_call _ .finish)
  have hall : accepted { acks } (.append bytes) = bytes := rfl
  have hnone : (call { acks } (.append bytes)).loader.accepted .finish = [] := rfl
  rw [hall, hnone, List.append_nil] at hasks
  exact hasks.elim id id

/-- The first piece of a file opens it with all the tags that have come. -/
theorem Arrives.head?_load {intake : Intake} {file : File} {rest : List UInt8} {s : File.Scan}
    (h : Arrives bytes intake file rest s) (acks : List Ack) :
    (load { acks } bytes).events.head? = some (.opened file) := by
  obtain ⟨fuel, -, happend⟩ := h.append_eq acks
  have hfirst : (append { acks } bytes).events.head? = some (.opened file) := by
    rw [happend]
    rfl
  rw [load_eq_andThen, Delivery.andThen]
  split
  · exact hfirst
  · rw [List.head?_append, hfirst]
    rfl

/-- A load of a whole file that succeeds has opened the file that it tells of as complete. -/
theorem load_opens_whole (hok : (load {} bytes).result = .ok ()) :
    ∃ file told, Telling told ∧ (load {} bytes).events = .opened file :: told ++ [.completed file] ∧
      (load {} bytes).loader.file? = some file ∧ file.isComplete = true ∧ file.Fits bytes := by
  have hsettled : (load {} bytes).settled = load {} bytes := load_settled_of_goes List.not_mem_nil bytes
  have hstate : (load {} bytes).loader.state = .complete := by
    rw [← hsettled] at hok ⊢
    exact complete_of_load hok
  obtain ⟨calls, hcalls, hbytes⟩ := asks_load [] bytes
  -- What holds along every sequence of calls holds of this one.
  have htold := (told_start []).session calls
  have hcompletes := (completes_start []).session calls
  have hkeeps := (keeps_start []).session calls
  simp only [hcalls, hbytes, List.nil_append] at htold hcompletes hkeeps
  obtain ⟨file, hfile, hcomplete⟩ := hkeeps.complete hstate
  obtain ⟨first, told, htelling, hevents⟩ := htold.of_complete hcompletes hstate hfile
  obtain ⟨intake, file', rest, s, harrives⟩ := exists_arrives hok
  obtain rfl : file' = file := Option.some.inj ((harrives.file_load []).symm.trans hfile)
  have hhead := harrives.head?_load []
  rw [hevents] at hhead
  obtain rfl : first = file' := LoadEvent.opened.inj (Option.some.inj hhead)
  exact ⟨first, told, htelling, hevents, hfile, hcomplete, harrives.holds.fits⟩

/-- Modules are extracted from some bytes exactly when these load. They are the data of all blocks of the file that the
load completes, in their order: the one event that they are taken from shows the file as it is at the end. That file
fits the bytes, which are unpacked as far as they go. -/
theorem extraction_is_whole (c : Console) (bytes : List UInt8) :
    ((extract c bytes).1.isSome = true ↔ (load {} bytes).result = .ok ()) ∧
      ∀ blocks, (extract c bytes).1 = some blocks →
        ∃ file told, Telling told ∧ (load {} bytes).events = .opened file :: told ++ [.completed file] ∧
          (load {} bytes).loader.file? = some file ∧ file.isComplete = true ∧ file.Fits bytes ∧
          blocks = file.blocks.toList.map (·.data) := by
  cases hresult : (load {} bytes).result with
  | error fault => simp [extract, embeddedModules, hresult, Except.map]
  | ok _ =>
    obtain ⟨file, told, htelling, hevents, hfile, hcomplete, hfits⟩ := load_opens_whole hresult
    have htaken : (load {} bytes).events.flatMap LoadEvent.blocks = file.blocks.toList.map (·.data) := by
      rw [hevents, List.flatMap_append, List.flatMap_cons, htelling.blocks, List.append_nil]
      exact List.append_nil _
    have hextract : (extract c bytes).1 = some (file.blocks.toList.map (·.data)) := by
      simp [extract, embeddedModules, hresult, Except.map, htaken]
    rw [hextract]
    refine ⟨iff_of_true rfl rfl, ?_⟩
    intro blocks hblocks
    obtain rfl := Option.some.inj hblocks
    exact ⟨file, told, htelling, hevents, hfile, hcomplete, hfits, rfl⟩

theorem twoModules_are_extracted :
    (extract {} twoModules).1 = some [[7], [9]] ∧
      ∃ file told, Telling told ∧ (load {} twoModules).events = .opened file :: told ++ [.completed file] ∧
        (load {} twoModules).loader.file? = some file ∧ file.isComplete = true ∧ file.Fits twoModules ∧
        [[7], [9]] = file.blocks.toList.map (·.data) := by
  have hextract : (extract {} twoModules).1 = some [[7], [9]] := by decide +kernel
  obtain ⟨-, hwhole⟩ := extraction_is_whole {} twoModules
  exact ⟨hextract, hwhole _ hextract⟩

end Loader

end MovieVm.Movie
