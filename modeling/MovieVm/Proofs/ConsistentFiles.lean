import MovieVm.Proofs.TagRecords
import MovieVm.Proofs.TrailingBytes
import MovieVm.Shell.Analysis

/-!
# Files and their contents

However the bytes of a file arrive, the file that a loader has fits the contents that the bytes unpack to: its records
tile them from the end of the header on, and its blocks and its frames go with its records.
-/

namespace MovieVm.Movie

/-! ## Unpacked bytes -/

/-- The bytes of a file begin with a preamble, and the others unpack to the body. -/
structure Unpacks (bytes : List UInt8) (p : Preamble) (intake : Intake) (body : List UInt8) : Prop where
  long : Preamble.size ≤ bytes.length
  preamble : Preamble.ofBytes bytes = .ok p
  body : (if p.compressed then Intake.deflated {} else .plain).push (bytes.drop Preamble.size) = .ok (body, intake)

theorem Unpacks.unique {bytes : List UInt8} {p p' : Preamble} {intake intake' : Intake} {body body' : List UInt8}
    (h : Unpacks bytes p intake body) (h' : Unpacks bytes p' intake' body') : intake = intake' ∧ body = body' := by
  obtain rfl := Except.ok.inj (h.preamble.symm.trans h'.preamble)
  obtain ⟨rfl, rfl⟩ := Prod.mk.inj (Except.ok.inj (h.body.symm.trans h'.body))
  exact ⟨rfl, rfl⟩

/-- The file before compression, as far as it has arrived. -/
def contents (bytes body : List UInt8) : List UInt8 :=
  bytes.take Preamble.size ++ body

/-- Where the tags begin in a file whose body begins with a byte. -/
def tagsStart (first : UInt8) : Nat :=
  Preamble.size + Rect.encodedSize first + 4

/-- The bytes that a file was read from unpack to contents with a header, and the file records what is behind it. -/
def File.Fits (f : File) (bytes : List UInt8) : Prop :=
  ∃ p intake body first, Unpacks bytes p intake body ∧ body.head? = some first ∧
    f.Recorded (contents bytes body) (tagsStart first)

variable {bytes more : List UInt8} {p : Preamble} {intake intake' : Intake} {body added : List UInt8}

theorem Unpacks.push (h : Unpacks bytes p intake body) (hpush : intake.push more = .ok (added, intake')) :
    Unpacks (bytes ++ more) p intake' (body ++ added) where
  long := by
    rw [List.length_append]
    exact Nat.le_add_right_of_le h.long
  preamble := (Preamble.ofBytes_append h.long more).trans h.preamble
  body := by
    rw [List.drop_append_of_le_length h.long, Intake.push_append]
    exact Except.bind_eq_ok.2 ⟨_, h.body, Except.bind_eq_ok.2 ⟨_, hpush, rfl⟩⟩

theorem Unpacks.contents_push (h : Unpacks bytes p intake body) (more added : List UInt8) :
    contents (bytes ++ more) (body ++ added) = contents bytes body ++ added := by
  rw [contents, contents, List.take_append_of_le_length h.long, List.append_assoc]

theorem Unpacks.length_contents (h : Unpacks bytes p intake body) :
    (contents bytes body).length = Preamble.size + body.length := by
  rw [contents, List.length_append, List.length_take_of_le h.long]

theorem Unpacks.drop_contents (h : Unpacks bytes p intake body) (n : Nat) :
    (contents bytes body).drop (Preamble.size + n) = body.drop n := by
  rw [contents, ← List.drop_drop, List.drop_left' (List.length_take_of_le h.long)]

/-! ## Receptions -/

namespace Reception

/-- A reception has made of the bytes that have come what there is to make of them. -/
inductive Holds (bytes : List UInt8) : Reception → Prop where
  | preamble (hshort : bytes.length < Preamble.size) : Holds bytes (.preamble bytes)
  | header {p : Preamble} {intake : Intake} {body : List UInt8} (h : Unpacks bytes p intake body) :
    Holds bytes (.header p intake body)
  | tags {p : Preamble} {intake : Intake} {body rest : List UInt8} {first : UInt8} {file : File}
    (h : Unpacks bytes p intake body) (hfirst : body.head? = some first)
    (hstart : tagsStart first ≤ (contents bytes body).length)
    (hfile : file.Consistent (contents bytes body) (tagsStart first))
    (hrest : (contents bytes body).drop file.bytesLoaded = rest) : Holds bytes (.tags intake file rest)

variable {r r' : Reception} {file file' : File} {rest : List UInt8}

/-- Bytes that arrive leave what was read as it is. -/
theorem Holds.push (h : r.Holds bytes) (hpush : r.push more = .ok r') : r'.Holds (bytes ++ more) := by
  cases h with
  | preamble hshort =>
    rw [Reception.push] at hpush
    split at hpush
    · rename_i hstill
      cases hpush
      exact .preamble hstill
    · rename_i hlong
      obtain ⟨p, hp, hpush⟩ := Except.bind_eq_ok.1 hpush
      obtain ⟨⟨body, intake⟩, hbody, hpush⟩ := Except.bind_eq_ok.1 hpush
      cases hpush
      exact .header ⟨Nat.le_of_not_lt hlong, hp, hbody⟩
  | header h =>
    obtain ⟨⟨added, intake'⟩, hadded, hpush⟩ := Except.bind_eq_ok.1 hpush
    cases hpush
    exact .header (h.push hadded)
  | @tags p intake body rest first file h hfirst hstart hfile hrest =>
    obtain ⟨⟨added, intake'⟩, hadded, hpush⟩ := Except.bind_eq_ok.1 hpush
    cases hpush
    have hcontents := h.contents_push more added
    have hfirst' : (body ++ added).head? = some first := by
      rw [List.head?_append, hfirst]
      rfl
    refine .tags (h.push hadded) hfirst' ?_ ?_ ?_
    · rw [hcontents, List.length_append]
      exact Nat.le_add_right_of_le hstart
    · rw [hcontents]
      exact hfile.append added
    · rw [hcontents, List.drop_append_of_le_length (hfile.tiles.le_length hstart), hrest]

/-- A file that has just been opened has nothing but its header. -/
theorem Holds.openFile (h : Holds bytes (.header p intake body)) (hheader : p.readHeader body = .ok (some (file, rest))) :
    Holds bytes (.tags intake file rest) := by
  cases h with
  | header h =>
    have hread : p.readHeader body ≠ .ok none := by simp [hheader]
    obtain ⟨first, hfirst, hlong⟩ := Preamble.long_of_readHeader hread
    rw [Preamble.readHeader_of_long hlong hfirst] at hheader
    obtain ⟨bounds, -, hopened⟩ := Except.map_eq_ok.1 hheader
    obtain ⟨rfl, rfl⟩ := Prod.mk.inj (Option.some.inj hopened)
    refine .tags h hfirst ?_ ⟨.nil, .nil, ⟨rfl, nofun, nofun⟩, .inl ⟨rfl, nofun, rfl, rfl⟩⟩ ?_
    · rw [h.length_contents, tagsStart]
      omega
    · exact h.drop_contents (Rect.encodedSize first + 4)

theorem Holds.scan (h : Holds bytes (.tags intake file body)) {s : File.Scan}
    (hscan : file.scan body = (file', rest, .ok s)) : Holds bytes (.tags intake file' rest) := by
  cases h with
  | tags h hfirst hstart hfile hrest =>
    obtain ⟨hfile', hrest'⟩ := (File.Scans.of_scan hscan).consistent rfl hfile hrest
    exact .tags h hfirst hstart hfile' hrest'

theorem Holds.fits (h : Holds bytes (.tags intake file rest)) : file.Fits bytes := by
  cases h with
  | tags h hfirst _ hfile => exact ⟨_, _, _, _, h, hfirst, hfile.recorded⟩

theorem Holds.closed (h : Holds bytes (.tags intake file rest)) (hcomplete : file.isComplete = true) : file.Closed := by
  cases h with
  | tags _ _ _ hfile => exact hfile.closed hcomplete

end Reception

/-! ## Loaders -/

namespace Loader

/-- What a loader keeps of the bytes that have come, unless it has failed. -/
structure Keeps (l : Loader) (bytes : List UInt8) : Prop where
  holds : l.state ≠ .failed → l.reception.Holds bytes
  complete : l.state = .complete → ∃ f, l.file? = some f ∧ f.isComplete = true

variable {l l' : Loader} {d : Delivery} {events : List LoadEvent}

theorem Keeps.goes (h : l.Keeps bytes) (hgoes : l.Goes l' events) : l'.Keeps bytes := by
  cases hgoes with
  | announced => exact ⟨h.holds, h.complete⟩
  | told => exact ⟨h.holds, h.complete⟩
  | @opened p intake body rest rest' file file' s hruns _ hreception hheader hscan =>
    have hholds := h.holds (isFinished_eq_false.1 hruns).2
    rw [hreception] at hholds
    refine ⟨fun _ => ?_, nofun⟩
    change (scanned _ s).reception.Holds bytes
    rw [scanned_reception]
    exact (hholds.openFile hheader).scan hscan
  | @read intake file file' body rest s hruns _ hreception _ hscan =>
    have hholds := h.holds (isFinished_eq_false.1 hruns).2
    rw [hreception] at hholds
    refine ⟨fun _ => ?_, fun hcomplete => ?_⟩
    · rw [scanned_reception]
      exact hholds.scan hscan
    · rw [scanned_state] at hcomplete
      exact absurd hcomplete (isFinished_eq_false.1 hruns).1

theorem Keeps.halts (h : l.Keeps bytes) (hhalts : l.Halts d) : d.loader.Keeps bytes := by
  cases hhalts with
  | idle | starved => exact h
  | held => exact ⟨h.holds, h.complete⟩
  | @completed intake file body hruns hreception hcomplete =>
    refine ⟨fun _ => h.holds (isFinished_eq_false.1 hruns).2, fun _ => ⟨file, ?_, hcomplete⟩⟩
    rw [file?, hreception]
    rfl
  | refused | ended => exact ⟨fun hstate => absurd rfl hstate, fun hcomplete => by cases hcomplete⟩

theorem Keeps.push (h : l.Keeps bytes) (hruns : l.isFinished = false) {r : Reception}
    (hpush : l.reception.push more = .ok r) : Keeps { l with reception := r } (bytes ++ more) := by
  obtain ⟨hcomplete, hfailed⟩ := isFinished_eq_false.1 hruns
  exact ⟨fun _ => (h.holds hfailed).push hpush, fun hstate => absurd hstate hcomplete⟩

/-- Whatever is done, a loader keeps what it has made of the bytes. -/
theorem keeps_kept : Kept fun l bytes _ => l.Keeps bytes where
  goes h hgoes := h.goes hgoes
  halts h hhalts := h.halts hhalts
  push h hruns hpush := h.push hruns hpush
  fail _ _ _ := ⟨fun hstate => absurd rfl hstate, nofun⟩
  finish h := ⟨h.holds, h.complete⟩
  resume h := ⟨h.holds, h.complete⟩

theorem Keeps.session (h : l.Keeps bytes) (calls : List Call) :
    (l.session calls).1.Keeps (bytes ++ l.arrived calls) :=
  keeps_kept.session _ [] h calls

theorem keeps_start (acks : List Ack) : Keeps { acks } [] :=
  ⟨fun _ => .preamble (by decide), nofun⟩

/-- Whatever is asked of a loader and whatever its listener answers, its file fits what has arrived, unless the load has
failed: the bytes unpack to contents that the records of the file tile from its header on, with nothing behind a tag that
ends the file, and the records of the modules' tags and the blocks go together one by one. When the load is complete the
frames list all blocks in their order, each in its own frame, and their number is that of the records that show a frame,
and one more when a label or a block follows the last of them. -/
theorem file_fits_contents (acks : List Ack) (calls : List Call)
    (hstate : (session { acks } calls).1.state ≠ .failed) :
    (∀ f, (session { acks } calls).1.file? = some f → f.Fits (arrived { acks } calls)) ∧
      ((session { acks } calls).1.state = .complete →
        ∃ f, (session { acks } calls).1.file? = some f ∧ f.isComplete = true ∧ f.Closed) := by
  have hkeeps : (session { acks } calls).1.Keeps (arrived { acks } calls) := (keeps_start acks).session calls
  have hholds := hkeeps.holds hstate
  refine ⟨fun f hfile => ?_, fun hcomplete => ?_⟩
  · obtain ⟨intake, rest, hreception⟩ := exists_tags_of_file? hfile
    rw [hreception] at hholds
    exact hholds.fits
  · obtain ⟨f, hfile, hf⟩ := hkeeps.complete hcomplete
    obtain ⟨intake, rest, hreception⟩ := exists_tags_of_file? hfile
    rw [hreception] at hholds
    exact ⟨f, hfile, hf, hholds.closed hf⟩

/-- A file with a module in a frame and another one behind it. -/
def twoModules : List UInt8 :=
  [0x46, 0x57, 0x53, 10, 33, 0, 0, 0] ++ [0, 0, 24, 1, 0] ++ [0x01, 0x12, 7] ++ [0x40, 0] ++
    [0xbf, 0x14, 7, 0, 0, 0, 1, 0, 0, 0, 0x62, 0, 9] ++ [0, 0]

/-- The file in two pieces; the first ends within a tag. -/
def twoPieces : List Call :=
  [.append (twoModules.take 20), .append (twoModules.drop 20), .finish]

theorem twoModules_fits_contents :
    (session {} twoPieces).1.state = .complete ∧
      ∃ f, (session {} twoPieces).1.file? = some f ∧ f.Fits (arrived {} twoPieces) ∧ f.isComplete = true ∧ f.Closed := by
  have hcomplete : (session {} twoPieces).1.state = .complete := by decide +kernel
  have hstate : (session {} twoPieces).1.state ≠ .failed := by
    rw [hcomplete]
    decide
  obtain ⟨hfits, hends⟩ := file_fits_contents [] twoPieces hstate
  obtain ⟨f, hfile, hclosed⟩ := hends hcomplete
  exact ⟨hcomplete, f, hfile, hfits f hfile, hclosed⟩

/-- The first piece of a file is held like any other. -/
theorem Arrives.holds {file : File} {rest : List UInt8} {s : File.Scan} (h : Arrives bytes intake file rest s) :
    Reception.Holds bytes (.tags intake file rest) := by
  obtain @⟨p, body, behind, start, hpush, hheader, hscan⟩ := h
  have hstart : Reception.start.Holds [] := .preamble (by decide)
  have hpushed := hstart.push hpush
  rw [List.nil_append] at hpushed
  exact (hpushed.openFile hheader).scan hscan

end Loader

end MovieVm.Movie

/-! ## Modules of analysed files -/

namespace MovieVm.Shell.Analysis

open Movie

/-- The block that a record is visited with: a module's tag has one, another has none. -/
structure Visits (related : TagRecord → AbcBlock → Prop) (r : TagRecord) (entry : Tag × Option AbcBlock) : Prop where
  tag : entry.1 = r.tag
  block : r.tag.isAbc = true → ∃ b, entry.2 = some b ∧ related r b
  bare : r.tag.isAbc = false → entry.2 = none

/-- Blocks that go with the modules' tags one by one are visited with them. -/
theorem withBlocks_visits {related : TagRecord → AbcBlock → Prop} {records : List TagRecord} {blocks : List AbcBlock}
    (h : List.Forall₂ related (records.filter (·.tag.isAbc)) blocks) :
    List.Forall₂ (Visits related) records (withBlocks records blocks) := by
  induction records generalizing blocks with
  | nil => exact .nil
  | cons r records ih =>
    cases habc : r.tag.isAbc with
    | true =>
      rw [List.filter_cons, if_pos habc] at h
      cases h with
      | @cons _ b _ blocks hrelated hothers =>
        simp only [withBlocks, habc, if_true]
        exact .cons ⟨rfl, fun _ => ⟨b, rfl, hrelated⟩, fun hnot => by cases habc.symm.trans hnot⟩ (ih hothers)
    | false =>
      rw [List.filter_cons_of_neg (by simp [habc])] at h
      simp only [withBlocks, habc, Bool.false_eq_true, if_false]
      exact .cons ⟨rfl, fun hthere => (by cases habc.symm.trans hthere), fun _ => rfl⟩ (ih h)

/-- The analysis of a file visits each module's tag with the block that the tag yields. -/
theorem loadFile_visits {path : String} {bytes : List UInt8} {file : File}
    (h : loadFile path bytes = .ok (some file)) :
    ∃ p intake body, Unpacks bytes p intake body ∧
      List.Forall₂ (Visits (File.Produces (contents bytes body))) file.tags.toList
        (withBlocks file.tags.toList file.blocks.toList) := by
  simp only [loadFile] at h
  split at h
  · rename_i hresult
    obtain ⟨intake, file', rest, s, harrives⟩ := Loader.exists_arrives hresult
    have hfile := harrives.file_load []
    obtain rfl : file' = file := Option.some.inj (hfile.symm.trans (Except.ok.inj h))
    obtain ⟨p, intake, body, first, hunpacks, -, hrecorded⟩ := harrives.holds.fits
    exact ⟨p, intake, body, hunpacks, withBlocks_visits hrecorded.produced⟩
  · cases h

end MovieVm.Shell.Analysis
