import MovieVm.Proofs.Completion
import MovieVm.Proofs.EagerSymbols

/-!
# Announcements

Eager symbols wait in batches until the listener takes them. None is lost or comes twice on the way: what has been
announced and what still waits are, one behind the other, the symbols that the records of the file define.
-/

namespace MovieVm.Movie

/-! ## What events announce -/

def LoadEvent.batch? : LoadEvent → Option Batch
  | .symbols b => some b
  | _ => none

def LoadEvent.image? : LoadEvent → Option Symbol
  | .image symbol => some symbol
  | _ => none

/-- The batches that events announce, in their order. -/
def announcedBatches (events : List LoadEvent) : List Batch :=
  events.filterMap LoadEvent.batch?

/-- The symbols that events announce. -/
def announced (events : List LoadEvent) : List Symbol :=
  (announcedBatches events).flatMap (·.symbols)

/-- The images whose bytes are told to be there. -/
def images (events : List LoadEvent) : List Symbol :=
  events.filterMap LoadEvent.image?

@[simp] theorem announcedBatches_append (events events' : List LoadEvent) :
    announcedBatches (events ++ events') = announcedBatches events ++ announcedBatches events' :=
  List.filterMap_append

@[simp] theorem images_append (events events' : List LoadEvent) :
    images (events ++ events') = images events ++ images events' :=
  List.filterMap_append

@[simp] theorem announcedBatches_batchEvents (b : Batch) : announcedBatches (Loader.batchEvents b) = [b] := by
  have himages : announcedBatches ((b.symbols.filter (·.kind = .image)).map .image) = [] := by
    rw [announcedBatches, List.filterMap_map]
    exact List.filterMap_eq_nil_iff.2 fun _ _ => rfl
  exact congrArg (b :: ·) himages

@[simp] theorem images_batchEvents (b : Batch) :
    images (Loader.batchEvents b) = b.symbols.filter (·.kind = .image) := by
  have himages : images ((b.symbols.filter (·.kind = .image)).map .image) = b.symbols.filter (·.kind = .image) := by
    rw [images, List.filterMap_map]
    exact List.filterMap_some
  exact himages

/-! ## Receptions -/

namespace Reception

/-- The symbols are those of the tags that have been read of the bytes. -/
inductive Gathers (bytes : List UInt8) : Reception → List Symbol → Prop where
  | unread {r : Reception} (hfile : r.file? = none) : Gathers bytes r []
  | tags {p : Preamble} {intake intake' : Intake} {body rest : List UInt8} {file : File} {symbols : List Symbol}
    (h : Unpacks bytes p intake body) (hsymbols : file.Gathered (contents bytes body) symbols) :
    Gathers bytes (.tags intake' file rest) symbols

variable {bytes more body rest : List UInt8} {r r' : Reception} {symbols : List Symbol} {p : Preamble} {intake : Intake}
  {file file' : File}

/-- The bytes unpack in one way only. -/
theorem Gathers.gathered {intake' : Intake} (h : Gathers bytes (.tags intake' file rest) symbols)
    (hunpacks : Unpacks bytes p intake body) : file.Gathered (contents bytes body) symbols := by
  cases h with
  | unread hfile => cases hfile
  | tags hthere hsymbols =>
    obtain ⟨-, rfl⟩ := hunpacks.unique hthere
    exact hsymbols

theorem Gathers.push (h : r.Gathers bytes symbols) (hholds : r.Holds bytes) (hpush : r.push more = .ok r') :
    r'.Gathers (bytes ++ more) symbols := by
  cases hholds with
  | preamble | header =>
    cases h with
    | unread hfile => exact .unread ((Loader.file?_of_push hpush).trans hfile)
  | tags hunpacks =>
    obtain ⟨⟨added, intake⟩, hadded, hpush⟩ := Except.bind_eq_ok.1 hpush
    cases hpush
    refine .tags (hunpacks.push hadded) ?_
    rw [hunpacks.contents_push more added]
    exact (h.gathered hunpacks).append added

/-- A file that has just been opened has no tags. -/
theorem Gathers.openFile (hholds : Holds bytes (.header p intake body))
    (hheader : p.readHeader body = .ok (some (file, rest))) : Gathers bytes (.tags intake file rest) [] := by
  have hread : p.readHeader body ≠ .ok none := by simp [hheader]
  obtain ⟨first, hfirst, hlong⟩ := Preamble.long_of_readHeader hread
  rw [Preamble.readHeader_of_long hlong hfirst] at hheader
  obtain ⟨bounds, -, hopened⟩ := Except.map_eq_ok.1 hheader
  obtain ⟨rfl, -⟩ := Prod.mk.inj (Option.some.inj hopened)
  cases hholds with
  | header hunpacks => exact .tags hunpacks .nil

theorem Gathers.scan (h : Gathers bytes (.tags intake file body) symbols)
    (hholds : Holds bytes (.tags intake file body)) {s : File.Scan} (hscan : file.scan body = (file', rest, .ok s)) :
    Gathers bytes (.tags intake file' rest) (symbols ++ s.eager) := by
  cases hholds with
  | tags hunpacks _ _ hfile hrest =>
    exact .tags hunpacks ((File.Scans.of_scan hscan).gathered rfl hfile hrest (h.gathered hunpacks))

end Reception

/-! ## Scans -/

namespace File

/-- The batch that a scan leaves, if it has read eager symbols. -/
def Scan.batches (s : Scan) : List Batch :=
  if s.eager.isEmpty then [] else [⟨s.eager, s.bytes⟩]

theorem Scan.symbols_batches (s : Scan) : s.batches.flatMap (·.symbols) = s.eager := by
  unfold batches
  split
  · rename_i hempty
    exact (List.isEmpty_iff.1 hempty).symm
  · exact List.flatMap_singleton ..

theorem Scan.filled_batches (s : Scan) : ∀ b ∈ s.batches, b.symbols ≠ [] := by
  intro b hb
  unfold batches at hb
  split at hb
  · cases hb
  · rename_i hfilled
    obtain rfl := List.mem_singleton.1 hb
    exact fun hnone => hfilled (List.isEmpty_iff.2 hnone)

/-- The bytes unpack to the contents that the file records, and the symbols that its eager tags define are just those
that the events announce. -/
def Announced (f : File) (bytes : List UInt8) (events : List LoadEvent) : Prop :=
  ∃ p intake body first, Unpacks bytes p intake body ∧ body.head? = some first ∧
    f.Recorded (contents bytes body) (tagsStart first) ∧
      ∀ symbols, f.Gathered (contents bytes body) symbols ↔ symbols = announced events

end File

namespace Loader

variable {l l' : Loader} {d : Delivery} {bytes more body rest : List UInt8} {events new : List LoadEvent}
  {file file' : File}

/-- After a scan its batch waits behind the others. -/
theorem scanned_batches {s : File.Scan} (hscan : file.scan body = (file', rest, .ok s)) :
    (l.scanned s).batches = l.batches ++ s.batches := by
  unfold scanned File.Scan.batches
  split
  · rename_i hidle
    obtain ⟨-, -, rfl⟩ := (File.Scans.of_scan hscan).idle hidle
    exact (List.append_nil _).symm
  · split <;> simp

/-! ## The invariant -/

/-- What a loader has read of the bytes and what it has told go together: the eager symbols are those of the batches
that were announced and of those that wait, no batch is empty, and images are told of with their batches. -/
structure Gathers (l : Loader) (bytes : List UInt8) (events : List LoadEvent) : Prop extends l.Keeps bytes where
  gathered : l.state ≠ .failed →
    l.reception.Gathers bytes ((announcedBatches events ++ l.batches).flatMap (·.symbols))
  filled : ∀ b ∈ announcedBatches events ++ l.batches, b.symbols ≠ []
  images : images events = (announced events).filter (·.kind = .image)
  settled : l.state = .complete → l.batches = []

theorem gathers_start (acks : List Ack) : Gathers { acks } [] [] where
  toKeeps := keeps_start acks
  gathered _ := .unread rfl
  filled := nofun
  images := rfl
  settled := nofun

theorem Gathers.same (h : l.Gathers bytes events) (hreception : l'.reception = l.reception)
    (hstate : l'.state = l.state) (hbatches : l'.batches = l.batches) : l'.Gathers bytes events where
  holds := by rw [hreception, hstate]; exact h.holds
  complete := by rw [file?, hreception, hstate]; exact h.complete
  gathered := by rw [hreception, hstate, hbatches]; exact h.gathered
  filled := by rw [hbatches]; exact h.filled
  images := h.images
  settled := by rw [hstate, hbatches]; exact h.settled

/-- Other events announce nothing. -/
theorem Gathers.tell (h : l.Gathers bytes events) (hnone : announcedBatches new = [])
    (himages : Movie.images new = []) : l.Gathers bytes (events ++ new) := by
  have hbatches : announcedBatches (events ++ new) = announcedBatches events := by
    rw [announcedBatches_append, hnone, List.append_nil]
  refine ⟨h.toKeeps, ?_, ?_, ?_, h.settled⟩
  · rw [hbatches]
    exact h.gathered
  · rw [hbatches]
    exact h.filled
  · rw [images_append, himages, List.append_nil, announced, hbatches]
    exact h.images

/-- The batch that waits longest is announced. -/
theorem Gathers.announce (h : l.Gathers bytes events) {b : Batch} {batches : List Batch}
    (hbatches : l.batches = b :: batches) (acks : List Ack) (isWaiting : Bool) :
    Gathers { l with batches, acks, isWaiting } bytes (events ++ batchEvents b) := by
  -- A batch only passes from those that wait to those that were announced.
  have hall : announcedBatches (events ++ batchEvents b) ++ batches = announcedBatches events ++ l.batches := by
    rw [announcedBatches_append, announcedBatches_batchEvents, hbatches, List.append_assoc, List.singleton_append]
  refine ⟨⟨h.holds, h.complete⟩, ?_, ?_, ?_, ?_⟩
  · intro hstate
    rw [hall]
    exact h.gathered hstate
  · rw [hall]
    exact h.filled
  · rw [images_append, images_batchEvents, h.images, announced, announced, announcedBatches_append,
      announcedBatches_batchEvents, List.flatMap_append, List.flatMap_singleton, List.filter_append]
  · intro hstate
    cases (h.settled hstate).symm.trans hbatches

/-- The symbols that a scan reads wait behind what was announced. -/
theorem Gathers.scan (h : l.Gathers bytes events) {s : File.Scan} (hempty : l.batches = [])
    (hkeeps : l'.Keeps bytes) (hstate : l'.state ≠ .complete) (hbatches : l'.batches = s.batches)
    (hgathers : l'.reception.Gathers bytes (announced events ++ s.eager)) (hnone : announcedBatches new = [])
    (himages : Movie.images new = []) : l'.Gathers bytes (events ++ new) := by
  have hfilled := h.filled
  rw [hempty, List.append_nil] at hfilled
  have hgathered : l'.Gathers bytes events := by
    refine ⟨hkeeps, ?_, ?_, h.images, fun hcomplete => absurd hcomplete hstate⟩
    · intro _
      rw [hbatches, List.flatMap_append, s.symbols_batches]
      exact hgathers
    · rw [hbatches]
      intro b hb
      exact (List.mem_append.1 hb).elim (hfilled b) (s.filled_batches b)
  exact hgathered.tell hnone himages

/-- A load that fails announces nothing more. -/
theorem Gathers.fail (h : l.Gathers bytes events) (hfailed : l'.state = .failed) (hbatches : l'.batches = [])
    (fault : Fault) : l'.Gathers more (events ++ [.failed fault]) := by
  have hgathered : l'.Gathers more events := by
    refine ⟨⟨absurd hfailed, ?_⟩, absurd hfailed, ?_, h.images, fun _ => hbatches⟩
    · rw [hfailed]
      nofun
    · rw [hbatches, List.append_nil]
      exact fun b hb => h.filled b (List.mem_append_left _ hb)
  exact hgathered.tell rfl rfl

/-! ## Steps and calls keep it -/

/-- All that a loader without waiting batches has gathered is announced. -/
theorem Gathers.of_empty (h : l.Gathers bytes events) (hruns : l.isFinished = false) (hempty : l.batches = []) :
    l.reception.Gathers bytes (announced events) := by
  have hgathered := h.gathered (isFinished_eq_false.1 hruns).2
  rwa [hempty, List.append_nil] at hgathered

theorem Gathers.goes (h : l.Gathers bytes events) (hgoes : l.Goes l' new) : l'.Gathers bytes (events ++ new) := by
  have hkeeps := h.toKeeps.goes hgoes
  have hcomplete := hgoes.state_ne (isFinished_eq_false.1 hgoes.runs).1
  cases hgoes with
  | announced _ hbatches => exact h.announce hbatches _ _
  | told =>
    have htold : Gathers { l with progressDue := false } bytes events := h.same rfl rfl rfl
    exact htold.tell rfl rfl
  | @opened p intake body rest rest' file file' s hruns hempty hreception hheader hscan =>
    have hholds := h.holds (isFinished_eq_false.1 hruns).2
    have hunread := h.of_empty hruns hempty
    rw [hreception] at hholds hunread
    -- Nothing was announced before the file was opened.
    have hnone : announced events = [] := by
      generalize announced events = symbols at hunread
      cases hunread
      rfl
    have hopened := (Reception.Gathers.openFile hholds hheader).scan (hholds.openFile hheader) hscan
    refine h.scan (s := s) hempty hkeeps hcomplete ?_ ?_ rfl rfl
    · change (scanned _ s).batches = s.batches
      rw [scanned_batches hscan, hempty, List.nil_append]
    · change (scanned _ s).reception.Gathers bytes _
      rw [scanned_reception, hnone]
      exact hopened
  | @read intake file file' body rest s hruns hempty hreception _ hscan =>
    have hholds := h.holds (isFinished_eq_false.1 hruns).2
    have hread := h.of_empty hruns hempty
    rw [hreception] at hholds hread
    refine h.scan (s := s) hempty hkeeps hcomplete ?_ ?_ rfl rfl
    · rw [scanned_batches hscan, hempty, List.nil_append]
    · rw [scanned_reception]
      exact hread.scan hholds hscan

theorem Gathers.halts (h : l.Gathers bytes events) (hhalts : l.Halts d) :
    d.loader.Gathers bytes (events ++ d.events) := by
  have hkeeps := h.toKeeps.halts hhalts
  cases hhalts with
  | idle | starved =>
    rw [List.append_nil]
    exact h
  | held _ _ hbatches => exact h.announce hbatches _ _
  | completed hruns _ _ hempty =>
    have hgathered := h.gathered (isFinished_eq_false.1 hruns).2
    have hcomplete : Gathers { l with state := .complete } bytes events :=
      ⟨hkeeps, fun _ => hgathered, h.filled, h.images, fun _ => hempty⟩
    exact hcomplete.tell rfl rfl
  | refused | ended => exact h.fail rfl rfl _

theorem Gathers.push (h : l.Gathers bytes events) (hruns : l.isFinished = false) {r : Reception}
    (hpush : l.reception.push more = .ok r) : Gathers { l with reception := r } (bytes ++ more) events := by
  have hfailed := (isFinished_eq_false.1 hruns).2
  refine ⟨h.toKeeps.push hruns hpush, ?_, h.filled, h.images, h.settled⟩
  intro _
  exact (h.gathered hfailed).push (h.holds hfailed) hpush

theorem gathers_kept : Kept Gathers where
  goes h hgoes := h.goes hgoes
  halts h hhalts := h.halts hhalts
  push h hruns hpush := h.push hruns hpush
  fail h _ _ := h.fail rfl rfl _
  finish h := h.same rfl rfl rfl
  resume h := h.same rfl rfl rfl

theorem Gathers.session (h : l.Gathers bytes events) (calls : List Call) :
    (l.session calls).1.Gathers (bytes ++ l.arrived calls) (events ++ (l.session calls).2) :=
  gathers_kept.session _ _ h calls

/-! ## Complete files -/

/-- At the end of a load no batch waits. -/
theorem Gathers.announced (h : l.Gathers bytes events) (hstate : l.state = .complete) (hfile : l.file? = some file) :
    file.Announced bytes events := by
  have hruns : l.state ≠ .failed := by simp [hstate]
  have hholds := h.holds hruns
  have hgathered := h.gathered hruns
  obtain ⟨intake, rest, hreception⟩ := exists_tags_of_file? hfile
  rw [h.settled hstate, List.append_nil, hreception] at hgathered
  rw [hreception] at hholds
  cases hholds with
  | tags hunpacks hfirst _ hconsistent =>
    have hsymbols := hgathered.gathered hunpacks
    refine ⟨_, _, _, _, hunpacks, hfirst, hconsistent.recorded, fun symbols => ?_⟩
    constructor
    · exact fun hothers => hothers.unique hsymbols
    · rintro rfl
      exact hsymbols

/-- Whatever is asked of a loader and whatever its listener answers, no batch of symbols is empty, and images are told
of with their batches, each once and in their order. When a file is told of as complete, the batches together have the
symbols that its image and font tags define, each once and in the order of the file; a symbol whose id is defined again
later is among them. The same goes for a caller that hands over pieces and lets the loader go on each time until it waits
no more: these are calls that bring the first of the bytes, and unless one of them fails the file is told of as
complete. -/
theorem eager_symbols_are_announced_once (acks : List Ack) :
    (∀ calls,
      (∀ b, .symbols b ∈ (session { acks } calls).2 → b.symbols ≠ []) ∧
        images (session { acks } calls).2 = (announced (session { acks } calls).2).filter (·.kind = .image) ∧
        ∀ file, .completed file ∈ (session { acks } calls).2 →
          file.isComplete = true ∧ file.Announced (arrived { acks } calls) (session { acks } calls).2) ∧
      ∀ chunks, ∃ calls, session { acks } calls = ((feed { acks } chunks).loader, (feed { acks } chunks).events) ∧
        arrived { acks } calls <+: chunks.flatten ∧
        ((feed { acks } chunks).result = .ok () → ∃ file, .completed file ∈ (feed { acks } chunks).events) := by
  have hgathers (calls : List Call) : (session { acks } calls).1.Gathers (arrived { acks } calls)
      (session { acks } calls).2 := (gathers_start acks).session calls
  have hcompletes (calls : List Call) : (session { acks } calls).1.Completes (session { acks } calls).2 :=
    (completes_start acks).session calls
  constructor
  · intro calls
    refine ⟨?_, (hgathers calls).images, ?_⟩
    · intro b hb
      have hmem : b ∈ announcedBatches (session { acks } calls).2 := List.mem_filterMap.2 ⟨_, hb, rfl⟩
      exact (hgathers calls).filled b (List.mem_append_left _ hmem)
    · intro file hmem
      obtain ⟨hstate, hfile⟩ := (hcompletes calls file).1 hmem
      obtain ⟨f, hf, hcomplete⟩ := (hgathers calls).complete hstate
      obtain rfl := Option.some.inj (hfile.symm.trans hf)
      exact ⟨hcomplete, (hgathers calls).announced hstate hfile⟩
  · intro chunks
    obtain ⟨bytes, hprefix, calls, hcalls, rfl⟩ := asks_feed { acks } chunks
    refine ⟨calls, hcalls, hprefix, ?_⟩
    intro hok
    have hstate : (feed { acks } chunks).loader.state = .complete := complete_of_feed (sound_start acks) rfl hok
    have hthere := hgathers calls
    have htold := hcompletes calls
    rw [hcalls] at hthere htold
    obtain ⟨file, hfile, -⟩ := hthere.complete hstate
    exact ⟨file, (htold file).2 ⟨hstate, hfile⟩⟩

/-- A file whose first image is defined again by the tag behind it, and a font. -/
def redefined : List UInt8 :=
  [0x46, 0x57, 0x53, 10, 28, 0, 0, 0] ++ [0, 0, 24, 0, 0] ++ [0x02, 0x09, 1, 0] ++ [0x83, 0x01, 1, 0, 9] ++
    [0x82, 0x02, 2, 0] ++ [0, 0]

/-- The file in two pieces that part the second image. -/
def redefinedPieces : List (List UInt8) :=
  [redefined.take 20, redefined.drop 20]

/-- The listener holds the loader back at the first image, and hears of all three symbols. The dictionary keeps two. -/
theorem redefined_image_is_announced :
    (feed { acks := [.pending] } redefinedPieces).result = .ok () ∧
      ∃ calls file, session { acks := [.pending] } calls = ((feed { acks := [.pending] } redefinedPieces).loader,
          (feed { acks := [.pending] } redefinedPieces).events) ∧
        .completed file ∈ (session { acks := [.pending] } calls).2 ∧
        file.Announced (arrived { acks := [.pending] } calls) (session { acks := [.pending] } calls).2 ∧
        (announced (session { acks := [.pending] } calls).2).map (·.id) = [1, 1, 2] ∧
        file.dictionary.map (·.id) = [1, 2] := by
  have hok : (feed { acks := [.pending] } redefinedPieces).result = .ok () :=
    Except.eq_ok_of_toOption (by decide +kernel)
  have hids : (announced (feed { acks := [.pending] } redefinedPieces).events).map (·.id) = [1, 1, 2] := by
    decide +kernel
  have hkept : ∀ f ∈ shownFiles (feed { acks := [.pending] } redefinedPieces).events, f.isComplete = true →
      f.dictionary.map (·.id) = [1, 2] := by
    decide +kernel
  obtain ⟨halways, hfed⟩ := eager_symbols_are_announced_once [.pending]
  obtain ⟨calls, hcalls, -, hends⟩ := hfed redefinedPieces
  obtain ⟨file, hmem⟩ := hends hok
  have hthere : .completed file ∈ (session { acks := [.pending] } calls).2 := by
    rw [hcalls]
    exact hmem
  obtain ⟨hcomplete, hannounced⟩ := (halways calls).2.2 file hthere
  refine ⟨hok, calls, file, hcalls, hthere, hannounced, ?_, ?_⟩
  · rw [hcalls]
    exact hids
  · exact hkept file (List.mem_filterMap.2 ⟨_, hmem, rfl⟩) hcomplete

end Loader

end MovieVm.Movie
