import Mathlib.Data.List.Basic
import MovieVm.Proofs.LoadEvents

/-!
# The growing file

While a file is loaded, the listener is shown it again and again. Frames that were closed once and the modules that
they list do not change any more, so every file that is shown is a beginning of the file that the loader has.
-/

namespace MovieVm.Movie

namespace File

/-! ## Extensions -/

/-- The frames, the one that is being collected among them, list modules that are there. -/
def Numbered (f : File) : Prop :=
  ∀ frame ∈ f.openFrame :: f.frames.toList, ∀ i ∈ frame.blocks, i < f.blocks.size

/-- A later state of a file. -/
structure Extends (f g : File) : Prop where
  frames : f.frames.toList <+: g.frames.toList
  blocks : f.blocks.toList <+: g.blocks.toList
  numbered : f.Numbered → g.Numbered

variable {f g h : File}

theorem Extends.trans (hfirst : f.Extends g) (hsecond : g.Extends h) : f.Extends h where
  frames := hfirst.frames.trans hsecond.frames
  blocks := hfirst.blocks.trans hsecond.blocks
  numbered := hsecond.numbered ∘ hfirst.numbered

/-- The open frame may get a label, or be counted on. -/
theorem Extends.same (hframes : g.frames = f.frames) (hblocks : g.blocks = f.blocks)
    (hopen : g.openFrame.blocks = f.openFrame.blocks) : f.Extends g where
  frames := hframes ▸ List.prefix_refl _
  blocks := hblocks ▸ List.prefix_refl _
  numbered := by
    simp only [Numbered, List.mem_cons, forall_eq_or_imp, hframes, hblocks, hopen]
    exact id

theorem Extends.refl (f : File) : f.Extends f :=
  .same rfl rfl rfl

theorem Extends.closeFrame (f : File) : f.Extends f.closeFrame where
  frames := by
    rw [File.closeFrame, Array.toList_push]
    exact List.prefix_append ..
  blocks := List.prefix_refl _
  numbered := by
    intro hf frame hframe i hi
    obtain rfl | hmem := List.mem_cons.1 hframe
    · exact absurd hi (Array.not_mem_empty i)
    · rw [File.closeFrame, Array.toList_push] at hmem
      obtain hmem | hmem := List.mem_append.1 hmem
      · exact hf frame (List.mem_cons_of_mem _ hmem) i hi
      · obtain rfl := List.mem_singleton.1 hmem
        exact hf _ List.mem_cons_self i hi

theorem Extends.close (f : File) : f.Extends f.close := by
  unfold File.close
  split
  · exact (Extends.closeFrame f).trans (.same rfl rfl rfl)
  · rename_i hempty
    obtain ⟨-, hblocks⟩ := Bool.or_eq_false_iff.1 (Bool.eq_false_iff.2 hempty)
    have hnone : f.openFrame.blocks = #[] := by simpa using hblocks
    exact .same rfl rfl hnone.symm

/-- A new module gets the number that the open frame lists it by. -/
theorem Extends.addBlock (f : File) (name : String) (flags : Nat) (data : List UInt8) :
    f.Extends (f.addBlock name flags data) where
  frames := List.prefix_refl _
  blocks := by
    rw [File.addBlock, Array.toList_push]
    exact List.prefix_append ..
  numbered := by
    intro hf frame hframe i hi
    have hsize : (f.addBlock name flags data).blocks.size = f.blocks.size + 1 := Array.size_push _
    rw [hsize]
    obtain rfl | hmem := List.mem_cons.1 hframe
    · obtain hold | rfl := Array.mem_push.1 hi
      · exact Nat.lt_succ_of_lt (hf _ List.mem_cons_self i hold)
      · exact Nat.lt_succ_self _
    · exact Nat.lt_succ_of_lt (hf frame (List.mem_cons_of_mem _ hmem) i hi)

theorem Extends.ite {α : Type} {p : Prop} [Decidable p] {a b : File × α} (ha : f.Extends a.1)
    (hb : f.Extends b.1) : f.Extends (if p then a else b).1 := by
  split
  · exact ha
  · exact hb

theorem Extends.read {α : Type} {use : α → File × Option Symbol} {reader : Reader α} {source : Source}
    (huse : ∀ x, f.Extends (use x).1) :
    f.Extends (match reader source with
      | .ok x _ => ((use x).1, Except.ok (ε := Fault) (use x).2)
      | .error fault _ => (f, .error fault)).1 := by
  split
  · exact huse _
  · exact .refl f

/-- Whatever a tag is, what was there before stays. -/
theorem Extends.decode (f : File) (tag : Tag) (source : Source) : f.Extends (f.decode tag source).1 := by
  unfold File.decode
  refine .ite (.close f) (.ite (.closeFrame f) ?_)
  repeat' apply Extends.ite
  -- The other tags add a module, or something that the frames do not list.
  all_goals first
    | exact .same rfl rfl rfl
    | (apply Extends.read; intro x; exact .same rfl rfl rfl)
    | exact .addBlock f ..
    | (apply Extends.read; intro x; exact .addBlock f ..)

theorem Extends.add (f : File) (raw : RawTag) : f.Extends (f.add raw).1 := by
  have hdecoded := Extends.decode { f with tags := f.tags.push ⟨raw.tag, f.bytesLoaded, raw.body.length⟩ }
    raw.tag ⟨f.bytesLoaded + raw.headerSize, raw.body⟩
  have hpushed : f.Extends { f with tags := f.tags.push ⟨raw.tag, f.bytesLoaded, raw.body.length⟩ } :=
    .same rfl rfl rfl
  simp only [File.add]
  split
  · rename_i g symbol hdecode
    rw [hdecode] at hdecoded
    exact (hpushed.trans hdecoded).trans (.same rfl rfl rfl)
  · rename_i g fault hdecode
    rw [hdecode] at hdecoded
    exact hpushed.trans hdecoded

theorem Scans.extends {f f' : File} {rest rest' : List UInt8} {outcome : Except Fault Scan}
    (h : Scans f rest f' rest' outcome) : f.Extends f' := by
  induction h with
  | stop => exact .refl _
  | @fault f f' rest next raw fault hopen hsplit hadd =>
    have hextends := Extends.add f raw
    rwa [hadd] at hextends
  | @tag f g f' rest next rest' raw symbol outcome hopen hsplit hadd hscans ih =>
    have hextends := Extends.add f raw
    rw [hadd] at hextends
    exact hextends.trans ih

/-! ## Frames of extensions -/

theorem Extends.frame (hg : f.Extends g) {i : Nat} {frame : Frame} (hframe : f.frames[i]? = some frame) :
    g.frames[i]? = some frame := by
  obtain ⟨more, hmore⟩ := hg.frames
  rw [← Array.getElem?_toList] at hframe ⊢
  obtain ⟨hi, -⟩ := List.getElem?_eq_some_iff.1 hframe
  rw [← hmore, List.getElem?_append_left hi, hframe]

theorem Extends.block (hg : f.Extends g) {i : Nat} (hi : i < f.blocks.size) : g.blocks[i]? = f.blocks[i]? := by
  obtain ⟨more, hmore⟩ := hg.blocks
  rw [← Array.getElem?_toList, ← Array.getElem?_toList, ← hmore, List.getElem?_append_left hi]

/-- A frame has the same modules in every later state. -/
theorem Extends.frameBlocks (hg : f.Extends g) (hf : f.Numbered) {i : Nat} {frame : Frame}
    (hframe : f.frames[i]? = some frame) : g.frameBlocks i = frame.blocks.toList.filterMap (f.blocks[·]?) := by
  rw [File.frameBlocks, hg.frame hframe]
  have hthere : frame ∈ f.openFrame :: f.frames.toList :=
    List.mem_cons_of_mem _ (Array.mem_toList_iff.2 (Array.mem_of_getElem? hframe))
  exact List.filterMap_congr fun j hj => hg.block (hf frame hthere j (Array.mem_toList_iff.1 hj))

theorem numbered_of_readHeader {p : Preamble} {body rest : List UInt8}
    (h : p.readHeader body = .ok (some (f, rest))) : f.Numbered := by
  have hread : p.readHeader body ≠ .ok none := by simp [h]
  obtain ⟨first, hfirst, hlong⟩ := Preamble.long_of_readHeader hread
  rw [Preamble.readHeader_of_long hlong hfirst] at h
  obtain ⟨bounds, -, hopened⟩ := Except.map_eq_ok.1 h
  obtain ⟨rfl, -⟩ := Prod.mk.inj (Option.some.inj hopened)
  intro frame hframe i hi
  obtain rfl := List.mem_singleton.1 hframe
  exact absurd hi (Array.not_mem_empty i)

end File

/-! ## The files that a listener is shown -/

/-- The file that an event shows. -/
def LoadEvent.file? : LoadEvent → Option File
  | .opened file => some file
  | .progressed file _ => some file
  | .completed file => some file
  | _ => none

/-- The files that events show, in their order. -/
def shownFiles (events : List LoadEvent) : List File :=
  events.filterMap LoadEvent.file?

theorem shownFiles_batchEvents (b : Batch) : shownFiles (Loader.batchEvents b) = [] := by
  apply List.filterMap_eq_nil_iff.2
  intro e he
  obtain rfl | hmem := List.mem_cons.1 he
  · rfl
  · obtain ⟨symbol, _, rfl⟩ := List.mem_map.1 hmem
    rfl

namespace Loader

/-- Every file that was shown is a beginning of the file that the loader has. -/
structure Shows (l : Loader) (events : List LoadEvent) : Prop where
  numbered : ∀ {file}, l.file? = some file → file.Numbered
  extended : ∀ f ∈ shownFiles events, f.Numbered ∧ ∃ file, l.file? = some file ∧ f.Extends file

variable {l l' : Loader} {d : Delivery} {events new : List LoadEvent}

theorem shows_start (acks : List Ack) : Shows { acks } [] where
  numbered := fun hfile => by cases hfile
  extended := List.forall_mem_nil _

/-- The file may grow, and the one that there is then may be shown. -/
theorem Shows.grow (h : l.Shows events)
    (hgrown : ∀ {file}, l.file? = some file → ∃ file', l'.file? = some file' ∧ file.Extends file')
    (hnumbered : ∀ {file'}, l'.file? = some file' → file'.Numbered)
    (hnew : ∀ f ∈ shownFiles new, l'.file? = some f) : l'.Shows (events ++ new) where
  numbered := hnumbered
  extended := by
    intro f hf
    rw [shownFiles, List.filterMap_append] at hf
    obtain hold | hnewly := List.mem_append.1 hf
    · obtain ⟨hf, file, hfile, hextends⟩ := h.extended f hold
      obtain ⟨file', hfile', hextends'⟩ := hgrown hfile
      exact ⟨hf, file', hfile', hextends.trans hextends'⟩
    · exact ⟨hnumbered (hnew f hnewly), f, hnew f hnewly, .refl f⟩

theorem Shows.keep (h : l.Shows events) (hfile : l'.file? = l.file?) (hnew : ∀ f ∈ shownFiles new, l.file? = some f) :
    l'.Shows (events ++ new) :=
  h.grow (fun {file} hf => ⟨file, hfile.trans hf, .refl file⟩) (fun hf => h.numbered (hfile.symm.trans hf))
    fun f hf => hfile.trans (hnew f hf)

/-- Nothing is shown. -/
theorem Shows.silent (h : l.Shows events) (hfile : l'.file? = l.file?) (hnew : shownFiles new = []) :
    l'.Shows (events ++ new) :=
  h.keep hfile (hnew ▸ List.forall_mem_nil _)

theorem Shows.same (h : l.Shows events) (hfile : l'.file? = l.file?) : l'.Shows events := by
  have hsilent : l'.Shows (events ++ []) := h.silent hfile rfl
  rwa [List.append_nil] at hsilent

/-- Tags are read behind those of the file. -/
theorem Shows.scan (h : l.Shows events) {intake intake' : Intake} {file file' : File} {body rest : List UInt8}
    {outcome : Except Fault File.Scan} (hreception : l.reception = .tags intake file body)
    (hscan : file.scan body = (file', rest, outcome)) (hreception' : l'.reception = .tags intake' file' rest)
    (hnew : shownFiles new = []) : l'.Shows (events ++ new) := by
  have hfile : l.file? = some file := by rw [file?, hreception]; rfl
  have hfile' : l'.file? = some file' := by rw [file?, hreception']; rfl
  have hextends := (File.Scans.of_scan hscan).extends
  refine h.grow (fun hf => ⟨file', hfile', ?_⟩) (fun hf => ?_) (by simp [hnew])
  · obtain rfl := Option.some.inj (hfile.symm.trans hf)
    exact hextends
  · obtain rfl := Option.some.inj (hfile'.symm.trans hf)
    exact hextends.numbered (h.numbered hfile)

/-- The first tags are read behind the header. -/
theorem Shows.firstScan (h : l.Shows events) {p : Preamble} {intake intake' : Intake} {file file' : File}
    {body rest rest' : List UInt8} {outcome : Except Fault File.Scan}
    (hreception : l.reception = .header p intake body) (hheader : p.readHeader body = .ok (some (file, rest)))
    (hscan : file.scan rest = (file', rest', outcome)) (hreception' : l'.reception = .tags intake' file' rest')
    (hnew : ∀ f ∈ shownFiles new, f = file') : l'.Shows (events ++ new) := by
  have hnone : l.file? = none := by rw [file?, hreception]; rfl
  have hfile' : l'.file? = some file' := by rw [file?, hreception']; rfl
  refine h.grow (fun hf => ?_) (fun hf => ?_) fun f hf => hnew f hf ▸ hfile'
  · rw [hnone] at hf
    cases hf
  · obtain rfl := Option.some.inj (hfile'.symm.trans hf)
    exact (File.Scans.of_scan hscan).extends.numbered (File.numbered_of_readHeader hheader)

theorem Shows.goes (h : l.Shows events) (hgoes : l.Goes l' new) : l'.Shows (events ++ new) := by
  cases hgoes with
  | announced => exact h.silent rfl (shownFiles_batchEvents _)
  | @told intake file body _ _ hreception =>
    refine h.keep rfl fun f hf => ?_
    obtain rfl := List.mem_singleton.1 hf
    rw [file?, hreception]
    rfl
  | @opened p intake body rest rest' file file' s _ _ hreception hheader hscan =>
    refine h.firstScan hreception hheader hscan (scanned_reception _ s) fun f hf => ?_
    exact List.mem_singleton.1 hf
  | @read intake file file' body rest s _ _ hreception _ hscan =>
    exact h.scan hreception hscan (scanned_reception _ s) rfl

theorem Shows.halts (h : l.Shows events) (hhalts : l.Halts d) : d.loader.Shows (events ++ d.events) := by
  cases hhalts with
  | idle => exact h.silent rfl rfl
  | held => exact h.silent rfl (shownFiles_batchEvents _)
  | @completed intake file body _ hreception =>
    refine h.keep rfl fun f hf => ?_
    obtain rfl := List.mem_singleton.1 hf
    rw [file?, hreception]
    rfl
  | @refused fault r _ hrefused =>
    generalize hreception : l.reception = before at hrefused
    cases hrefused with
    | header => exact h.silent (congrArg Reception.file? hreception.symm) rfl
    | firstTags hheader hscan => exact h.firstScan hreception hheader hscan rfl (List.forall_mem_nil _)
    | tags hscan => exact h.scan hreception hscan rfl rfl
  | ended => exact h.silent rfl rfl
  | starved => exact h.silent rfl rfl

/-- Whatever is done, the files that were shown are beginnings of the one that there is. -/
theorem shows_kept : Kept fun l _ events => l.Shows events where
  goes h hgoes := h.goes hgoes
  halts h hhalts := h.halts hhalts
  push h _ hpush := h.same (file?_of_push hpush)
  fail h _ _ := h.silent rfl rfl
  finish h := h.same rfl
  resume h := h.same rfl

theorem Shows.call (h : l.Shows events) (c : Call) : (l.call c).loader.Shows (events ++ (l.call c).events) :=
  shows_kept.call [] _ h c

theorem Shows.session (h : l.Shows events) (calls : List Call) :
    (l.session calls).1.Shows (events ++ (l.session calls).2) :=
  shows_kept.session [] _ h calls

end Loader

end MovieVm.Movie
