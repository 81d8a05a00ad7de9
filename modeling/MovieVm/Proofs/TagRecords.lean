import Mathlib.Data.List.DropRight
import Mathlib.Data.List.Forall2
import MovieVm.Proofs.TagScan

/-!
# Tag records

A file keeps a record of every tag that was read, a list of its blocks, and frames that list blocks by number. The
records tile what follows the header, each record of a module's tag stands for one block, and the frames share out the
blocks in the order of the file.
-/

namespace MovieVm.Movie

/-- Whether a tag gives a frame a label or a block. -/
def Tag.fills (t : Tag) : Bool :=
  t = .frameLabel || t.isAbc

/-- Whether a frame has a label or a block. -/
def Frame.isFilled (frame : Frame) : Bool :=
  frame.label.isSome || !frame.blocks.isEmpty

/-! ## Fields that are read -/

theorem Reader.number_eq_ok {width n : Nat} {source after : Source} (h : Reader.number width source = .ok n after) :
    width ≤ source.rest.length ∧ n = ofLittleEndian (source.rest.take width) ∧ after = source.skip width := by
  obtain ⟨s, t, hget, h⟩ := EStateM.bind_eq_ok.1 h
  obtain ⟨rfl, rfl⟩ := EStateM.get_eq_ok.1 hget
  obtain ⟨_, u, hset, h⟩ := EStateM.bind_eq_ok.1 h
  obtain rfl := EStateM.set_eq_ok.1 hset
  obtain ⟨hlong, h⟩ := EStateM.refuse_eq_ok.1 h
  obtain ⟨rfl, rfl⟩ := EStateM.pure_eq_ok.1 h
  simp only [Source.skip, List.length_take] at hlong
  exact ⟨by omega, rfl, rfl⟩

/-- A text ends before a zero byte or with the bytes. -/
theorem text_of_bytes (bytes : List UInt8) : ∃ text, bytes.takeWhile (· ≠ 0) = text ∧ 0 ∉ text ∧
    (bytes = text ++ 0 :: bytes.drop (text.length + 1) ∨ bytes = text ∧ bytes.drop (text.length + 1) = []) := by
  induction bytes with
  | nil => exact ⟨[], rfl, List.not_mem_nil, .inr ⟨rfl, rfl⟩⟩
  | cons b bytes ih =>
    by_cases hzero : b = 0
    · exact ⟨[], by simp [hzero], List.not_mem_nil, .inl (by simp [hzero])⟩
    · obtain ⟨text, htext, hnot, hbytes⟩ := ih
      have htaken : (b :: bytes).takeWhile (· ≠ 0) = b :: text := by
        rw [List.takeWhile_cons_of_pos (by simpa using hzero), htext]
      refine ⟨b :: text, htaken, by simp [Ne.symm hzero, hnot], ?_⟩
      exact hbytes.imp (congrArg (b :: ·)) fun h => ⟨congrArg (b :: ·) h.1, h.2⟩

namespace File

/-! ## Records and bytes -/

section

variable {bytes rest : List UInt8} {raw : RawTag}

theorem RawTag.layout_of_body {tag : Tag} {headerSize length : Nat}
    (h : split?.body tag headerSize length bytes = some (raw, rest)) :
    raw.headerSize = headerSize ∧ bytes = raw.body ++ rest := by
  simp only [split?.body] at h
  split at h
  · cases h
  · obtain ⟨rfl, rfl⟩ := Prod.mk.inj (Option.some.inj h)
    exact ⟨rfl, (List.take_append_drop length bytes).symm⟩

/-- A tag has a header of two or six bytes; its body and what follows it come behind. -/
theorem RawTag.layout_of_split? (h : split? bytes = some (raw, rest)) :
    (raw.headerSize = 2 ∨ raw.headerSize = 6) ∧ bytes.drop raw.headerSize = raw.body ++ rest := by
  obtain _ | ⟨a, _ | ⟨b, bytes⟩⟩ := bytes
  · cases h
  · cases h
  · simp only [split?] at h
    split at h
    · obtain ⟨hsize, hbytes⟩ := layout_of_body h
      exact ⟨.inl hsize, by rw [hsize, ← hbytes]; rfl⟩
    · obtain _ | ⟨c, _ | ⟨d, _ | ⟨e, _ | ⟨g, bytes⟩⟩⟩⟩ := bytes
      case cons.cons.cons.cons =>
        obtain ⟨hsize, hbytes⟩ := layout_of_body h
        exact ⟨.inr hsize, by rw [hsize, ← hbytes]; rfl⟩
      all_goals cases h

theorem RawTag.rest_of_split? (h : split? bytes = some (raw, rest)) : rest = bytes.drop raw.size := by
  obtain ⟨-, hbytes⟩ := layout_of_split? h
  rw [RawTag.size, ← List.drop_drop, hbytes, List.drop_left]

end

/-- The records tile the contents of a file from `start` to `stop`: each begins where the body of the one before it
ends, with a header of two or six bytes. -/
inductive Tiles (contents : List UInt8) (start : Nat) : List TagRecord → Nat → Prop where
  | nil : Tiles contents start [] start
  | concat {records : List TagRecord} {stop : Nat} {raw : RawTag} {rest : List UInt8}
    (h : Tiles contents start records stop) (hsplit : RawTag.split? (contents.drop stop) = some (raw, rest))
    (hheader : raw.headerSize = 2 ∨ raw.headerSize = 6) :
    Tiles contents start (records ++ [⟨raw.tag, stop, raw.body.length⟩]) (stop + raw.headerSize + raw.body.length)

/-- The blocks that a tag yields. A block has flags of four bytes and a name, unless it is nothing but its data. -/
inductive RawTag.Yields : RawTag → AbcBlock → Prop where
  | bare (headerSize : Nat) (data : List UInt8) (frame : Nat) :
    Yields ⟨.doAbcDefine, headerSize, data⟩ ⟨"", 0, data, frame⟩
  | named (headerSize : Nat) {flags name : List UInt8} (data : List UInt8) (frame : Nat) (hflags : flags.length = 4)
    (hname : 0 ∉ name) :
    Yields ⟨.doAbc, headerSize, flags ++ name ++ 0 :: data⟩
      ⟨Text.ofUtf8Lossy name, ofLittleEndian flags, data, frame⟩
  | cut (headerSize : Nat) {flags name : List UInt8} (frame : Nat) (hflags : flags.length = 4) (hname : 0 ∉ name) :
    Yields ⟨.doAbc, headerSize, flags ++ name⟩ ⟨Text.ofUtf8Lossy name, ofLittleEndian flags, [], frame⟩

/-- A block comes from the tag that a record stands for. -/
inductive Produces (contents : List UInt8) : TagRecord → AbcBlock → Prop where
  | intro {offset : Nat} {raw : RawTag} {rest : List UInt8} {block : AbcBlock}
    (hsplit : RawTag.split? (contents.drop offset) = some (raw, rest)) (hyields : raw.Yields block) :
    Produces contents ⟨raw.tag, offset, raw.body.length⟩ block

section

variable {contents : List UInt8} {start stop : Nat} {records : List TagRecord}

/-- Where a tag can be split off there are bytes. -/
theorem lt_length_of_split? {raw : RawTag} {rest : List UInt8}
    (h : RawTag.split? (contents.drop stop) = some (raw, rest)) : stop < contents.length := by
  have hlength := RawTag.length_of_split? h
  rw [List.length_drop] at hlength
  omega

theorem split?_drop_append {raw : RawTag} {rest : List UInt8}
    (h : RawTag.split? (contents.drop stop) = some (raw, rest)) (more : List UInt8) :
    RawTag.split? ((contents ++ more).drop stop) = some (raw, rest ++ more) := by
  rw [List.drop_append_of_le_length (Nat.le_of_lt (lt_length_of_split? h))]
  exact RawTag.split?_append h more

theorem Tiles.append (h : Tiles contents start records stop) (more : List UInt8) :
    Tiles (contents ++ more) start records stop := by
  induction h with
  | nil => exact .nil
  | concat _ hsplit hheader ih => exact .concat ih (split?_drop_append hsplit more) hheader

/-- Records end within the contents. -/
theorem Tiles.le_length (h : Tiles contents start records stop) (hstart : start ≤ contents.length) :
    stop ≤ contents.length := by
  cases h with
  | nil => exact hstart
  | @concat _ stop raw rest _ hsplit =>
    have hsize := RawTag.size_of_split? hsplit
    have hthere := lt_length_of_split? hsplit
    rw [List.length_drop, RawTag.size] at hsize
    omega

theorem Produces.append {record : TagRecord} {block : AbcBlock} (h : Produces contents record block)
    (more : List UInt8) : Produces (contents ++ more) record block := by
  obtain ⟨hsplit, hyields⟩ := h
  exact .intro (split?_drop_append hsplit more) hyields

end

/-! ## What a tag does -/

theorem RawTag.Yields.isAbc {raw : RawTag} {block : AbcBlock} (h : raw.Yields block) : raw.tag.isAbc = true := by
  cases h <;> rfl

/-- A block is read from behind its flags and its name. -/
theorem yields_of_readAbc {position flags headerSize : Nat} {body data : List UInt8} {name : String} {after : Source}
    (h : readAbc ⟨position, body⟩ = .ok (flags, name, data) after) (frame : Nat) :
    RawTag.Yields ⟨.doAbc, headerSize, body⟩ ⟨name, flags, data, frame⟩ := by
  obtain ⟨n, s, hnumber, h⟩ := EStateM.bind_eq_ok.1 h
  obtain ⟨hlong, rfl, rfl⟩ := Reader.number_eq_ok hnumber
  have hflags : (body.take 4).length = 4 := List.length_take_of_le hlong
  obtain ⟨text, htext, hname, hbytes⟩ := text_of_bytes (body.drop 4)
  -- The name and the data are taken from what is there in any case.
  have hread : (⟨ofLittleEndian (body.take 4), Text.ofUtf8Lossy ((body.drop 4).takeWhile (· ≠ 0)),
      (body.drop 4).drop (((body.drop 4).takeWhile (· ≠ 0)).length + 1)⟩ : Nat × String × List UInt8) =
        (flags, name, data) :=
    (EStateM.Result.ok.inj h).1
  rw [htext] at hread
  cases hread
  obtain hzero | ⟨hall, hnone⟩ := hbytes
  · have hyields := RawTag.Yields.named headerSize ((body.drop 4).drop (text.length + 1)) frame hflags hname
    rwa [List.append_assoc, ← hzero, List.take_append_drop] at hyields
  · have hyields := RawTag.Yields.cut headerSize frame hflags hname
    have hbody : body.take 4 ++ text = body := by rw [← hall, List.take_append_drop]
    rwa [hbody, ← hnone] at hyields

/-- The files agree in their records, their blocks and their frames. -/
structure SameFrames (f g : File) : Prop where
  tags : g.tags = f.tags
  blocks : g.blocks = f.blocks
  frames : g.frames = f.frames
  label : g.openFrame.label = f.openFrame.label
  listed : g.openFrame.blocks = f.openFrame.blocks
  isComplete : g.isComplete = f.isComplete

/-- What reading a tag can come to. -/
inductive Decodes (f : File) (raw : RawTag) : File × Except Fault (Option Symbol) → Prop where
  | finish {symbol : Option Symbol} (htag : raw.tag = .finish) : Decodes f raw (f.close, .ok symbol)
  | shown {symbol : Option Symbol} (htag : raw.tag = .showFrame) : Decodes f raw (f.closeFrame, .ok symbol)
  | block {name : String} {flags : Nat} {data : List UInt8} {symbol : Option Symbol}
    (hyields : ∀ frame, raw.Yields ⟨name, flags, data, frame⟩) :
    Decodes f raw (f.addBlock name flags data, .ok symbol)
  | label {text : String} {symbol : Option Symbol} (htag : raw.tag = .frameLabel) :
    Decodes f raw ({ f with openFrame := { f.openFrame with label := some text } }, .ok symbol)
  | other {g : File} {outcome : Except Fault (Option Symbol)} (hfinish : raw.tag ≠ .finish)
    (hshow : raw.tag ≠ .showFrame) (hfills : raw.tag.fills = false) (hsame : f.SameFrames g) :
    Decodes f raw (g, outcome)
  | failed {g : File} {fault : Fault} : Decodes f raw (g, .error fault)

variable {f g : File} {raw : RawTag}

theorem Decodes.ite {p : Prop} [Decidable p] {a b : File × Except Fault (Option Symbol)}
    (ha : p → Decodes f raw a) (hb : ¬p → Decodes f raw b) : Decodes f raw (if p then a else b) := by
  split
  · exact ha ‹_›
  · exact hb ‹_›

theorem Decodes.read {α : Type} {use : α → File × Option Symbol} {reader : Reader α} {source : Source}
    (huse : ∀ x after, reader source = .ok x after → Decodes f raw ((use x).1, .ok (use x).2)) :
    Decodes f raw (match reader source with
      | .ok x _ => ((use x).1, Except.ok (ε := Fault) (use x).2)
      | .error fault _ => (f, .error fault)) := by
  split
  · exact huse _ _ ‹_›
  · exact .failed

theorem decodes (f : File) (raw : RawTag) (position : Nat) :
    Decodes f raw (f.decode raw.tag ⟨position, raw.body⟩) := by
  unfold decode
  refine .ite .finish fun hfinish => .ite .shown fun hshow => ?_
  refine .ite (fun htag => ?_) fun habc => .ite (fun htag => ?_) fun hdefine => ?_
  · apply Decodes.read
    rintro ⟨flags, name, data⟩ after hread
    obtain ⟨tag, headerSize, body⟩ := raw
    cases htag
    exact .block (yields_of_readAbc hread)
  · obtain ⟨tag, headerSize, body⟩ := raw
    cases htag
    exact .block (.bare headerSize body)
  have hother {g : File} {outcome : Except Fault (Option Symbol)} (hlabel : raw.tag ≠ .frameLabel)
      (hsame : f.SameFrames g) : Decodes f raw (g, outcome) :=
    .other hfinish hshow (by simp [Tag.fills, Tag.isAbc, habc, hdefine, hlabel]) hsame
  refine .ite (fun htag => hother (htag ▸ by decide) ⟨rfl, rfl, rfl, rfl, rfl, rfl⟩) fun _ => ?_
  refine .ite (fun htag => hother (htag ▸ by decide) ⟨rfl, rfl, rfl, rfl, rfl, rfl⟩) fun _ => ?_
  refine .ite .label fun hlabel => ?_
  repeat' (apply Decodes.ite <;> intro _)
  -- The other tags set, define or count something that no frame lists.
  all_goals first
    | exact .read fun _ _ _ => hother hlabel ⟨rfl, rfl, rfl, rfl, rfl, rfl⟩
    | exact hother hlabel ⟨rfl, rfl, rfl, rfl, rfl, rfl⟩

section

variable (f : File)

@[simp] theorem tags_close : f.close.tags = f.tags := by
  unfold File.close
  split <;> rfl

@[simp] theorem blocks_close : f.close.blocks = f.blocks := by
  unfold File.close
  split <;> rfl

@[simp] theorem openFrame_close : f.close.openFrame = {} := by
  unfold File.close
  split <;> rfl

@[simp] theorem isComplete_close : f.close.isComplete = true := by
  unfold File.close
  split <;> rfl

theorem frames_close : f.close.frames = if f.openFrame.isFilled then f.frames.push f.openFrame else f.frames := by
  unfold File.close Frame.isFilled
  split <;> rfl

end

/-! ## Blocks and frames -/

/-- A block that belongs to a frame. -/
def Owns (f : File) (frame index : Nat) : Prop :=
  ∃ block, f.blocks[index]? = some block ∧ block.frame = frame

/-- The frames, and last the one that is being collected, list all blocks in their order, each block in the frame that
it belongs to. -/
structure Listed (f : File) : Prop where
  all : f.frames.toList.flatMap (·.blocks.toList) ++ f.openFrame.blocks.toList = List.range f.blocks.size
  closed : ∀ {i frame}, f.frames[i]? = some frame → ∀ k ∈ frame.blocks, f.Owns i k
  collected : ∀ k ∈ f.openFrame.blocks, f.Owns f.frames.size k

theorem Listed.same (h : f.Listed) (hblocks : g.blocks = f.blocks) (hframes : g.frames = f.frames)
    (hlisted : g.openFrame.blocks = f.openFrame.blocks) : g.Listed := by
  refine ⟨?_, ?_, ?_⟩
  · rw [hframes, hlisted, hblocks]
    exact h.all
  · simp only [hframes, Owns, hblocks]
    exact h.closed
  · simp only [hframes, hlisted, Owns, hblocks]
    exact h.collected

theorem Listed.closeFrame (h : f.Listed) : f.closeFrame.Listed where
  all := by
    rw [File.closeFrame, Array.toList_push, List.flatMap_append, List.flatMap_singleton, List.append_nil]
    exact h.all
  closed := by
    intro i frame hframe
    rw [File.closeFrame, Array.getElem?_push] at hframe
    split at hframe
    · rename_i hlast
      obtain rfl := Option.some.inj hframe
      exact hlast ▸ h.collected
    · exact h.closed hframe
  collected := fun k hk => absurd hk (Array.not_mem_empty k)

theorem Listed.addBlock (h : f.Listed) (name : String) (flags : Nat) (data : List UInt8) :
    (f.addBlock name flags data).Listed := by
  have hold {i k : Nat} (howns : f.Owns i k) : (f.addBlock name flags data).Owns i k := by
    obtain ⟨block, hblock, hframe⟩ := howns
    refine ⟨block, ?_, hframe⟩
    rw [File.addBlock, Array.getElem?_push, if_neg, hblock]
    exact Nat.ne_of_lt (Array.getElem?_eq_some_iff.1 hblock).1
  refine ⟨?_, fun hframe k hk => hold (h.closed hframe k hk), fun k hk => ?_⟩
  · simp only [File.addBlock, Array.toList_push, Array.size_push, List.range_succ, ← h.all, List.append_assoc]
  · obtain hk | rfl := Array.mem_push.1 hk
    · exact hold (h.collected k hk)
    · exact ⟨_, Array.getElem?_push_size, rfl⟩

theorem Listed.close (h : f.Listed) : f.close.Listed := by
  unfold File.close
  split
  · exact h.closeFrame.same rfl rfl rfl
  · rename_i hempty
    obtain ⟨-, hblocks⟩ := Bool.or_eq_false_iff.1 (Bool.eq_false_iff.2 hempty)
    have hnone : f.openFrame.blocks = #[] := by simpa using hblocks
    exact h.same rfl rfl hnone.symm

theorem Listed.decodes {symbol : Option Symbol} (h : f.Listed) (hdecodes : Decodes f raw (g, .ok symbol)) :
    g.Listed := by
  cases hdecodes with
  | finish => exact h.close
  | shown => exact h.closeFrame
  | block => exact h.addBlock _ _ _
  | label => exact h.same rfl rfl rfl
  | other _ _ _ hsame => exact h.same hsame.blocks hsame.frames hsame.listed

/-! ## The number of frames -/

/-- How many records are of a shown frame. -/
def shownFrames (records : List TagRecord) : Nat :=
  records.countP (·.tag = .showFrame)

/-- Whether a label or a block follows the last shown frame. -/
def opensFrame (records : List TagRecord) : Bool :=
  (records.rtakeWhile (·.tag ≠ .showFrame)).any (·.tag.fills)

section

variable (records : List TagRecord) {r : TagRecord}

theorem shownFrames_concat_show (h : r.tag = .showFrame) : shownFrames (records ++ [r]) = shownFrames records + 1 := by
  simp [shownFrames, List.countP_append, h]

theorem shownFrames_concat (h : r.tag ≠ .showFrame) : shownFrames (records ++ [r]) = shownFrames records := by
  simp [shownFrames, List.countP_append, h]

theorem opensFrame_concat_show (h : r.tag = .showFrame) : opensFrame (records ++ [r]) = false := by
  simp [opensFrame, h]

theorem opensFrame_concat (h : r.tag ≠ .showFrame) : opensFrame (records ++ [r]) = (opensFrame records || r.tag.fills) := by
  simp [opensFrame, h]

end

/-- While tags are read there is a frame for each record that shows one, and the open frame is filled when a label or a
block follows them. -/
structure Collecting (f : File) (records : List TagRecord) : Prop where
  isOpen : f.isComplete = false
  ends : ∀ s ∈ records, s.tag ≠ .finish
  frames : f.frames.size = shownFrames records
  filled : f.openFrame.isFilled = opensFrame records

/-- At the end of the file labels and blocks behind the last shown frame have made one more. -/
structure Ended (f : File) (records : List TagRecord) : Prop where
  isComplete : f.isComplete = true
  ends : records.Pairwise fun r _ => r.tag ≠ .finish
  empty : f.openFrame = {}
  frames : f.frames.size = shownFrames records + (opensFrame records).toNat

section

variable {records : List TagRecord} {r : TagRecord}

theorem Collecting.ends_concat (h : f.Collecting records) (hfinish : r.tag ≠ .finish) :
    ∀ s ∈ records ++ [r], s.tag ≠ .finish := by
  intro s hs
  obtain hs | hs := List.mem_append.1 hs
  · exact h.ends s hs
  · exact List.mem_singleton.1 hs ▸ hfinish

theorem Collecting.pairwise (h : f.Collecting records) : records.Pairwise fun s _ => s.tag ≠ .finish :=
  List.pairwise_of_forall_mem_list fun s hs _ _ => h.ends s hs

theorem Collecting.shown (h : f.Collecting records) (hshow : r.tag = .showFrame) :
    f.closeFrame.Collecting (records ++ [r]) where
  isOpen := h.isOpen
  ends := h.ends_concat (hshow ▸ by decide)
  frames := by rw [shownFrames_concat_show records hshow, ← h.frames, closeFrame, Array.size_push]
  filled := (opensFrame_concat_show records hshow).symm

/-- A tag that shows no frame may only fill the open one. -/
theorem Collecting.next (h : f.Collecting records) (hfinish : r.tag ≠ .finish) (hshow : r.tag ≠ .showFrame)
    (hopen : g.isComplete = f.isComplete) (hframes : g.frames = f.frames)
    (hfilled : g.openFrame.isFilled = (f.openFrame.isFilled || r.tag.fills)) : g.Collecting (records ++ [r]) where
  isOpen := hopen.trans h.isOpen
  ends := h.ends_concat hfinish
  frames := by rw [shownFrames_concat records hshow, hframes, h.frames]
  filled := by rw [opensFrame_concat records hshow, hfilled, h.filled]

theorem Collecting.finish (h : f.Collecting records) (hfinish : r.tag = .finish) : f.close.Ended (records ++ [r]) where
  isComplete := f.isComplete_close
  ends := List.pairwise_append.2 ⟨h.pairwise, List.pairwise_singleton .., fun s hs _ _ => h.ends s hs⟩
  empty := f.openFrame_close
  frames := by
    have hshow : r.tag ≠ .showFrame := hfinish ▸ by decide
    have hfills : r.tag.fills = false := hfinish ▸ by decide
    rw [shownFrames_concat records hshow, opensFrame_concat records hshow, hfills, Bool.or_false, ← h.filled, ← h.frames,
      frames_close]
    cases f.openFrame.isFilled with
    | true => exact Array.size_push _
    | false => rfl

theorem Collecting.decodes {symbol : Option Symbol} (h : f.Collecting records) (htag : raw.tag = r.tag)
    (hdecodes : Decodes f raw (g, .ok symbol)) :
    g.Collecting (records ++ [r]) ∨ g.Ended (records ++ [r]) := by
  cases hdecodes with
  | finish hfinish => exact .inr (h.finish (htag ▸ hfinish))
  | shown hshow => exact .inl (h.shown (htag ▸ hshow))
  | block hyields =>
    have habc : r.tag.isAbc = true := htag ▸ (hyields 0).isAbc
    have hfills : r.tag.fills = true := by simp [Tag.fills, habc]
    refine .inl (h.next ?_ ?_ rfl rfl ?_)
    · rintro hfinish
      rw [hfinish] at habc
      cases habc
    · rintro hshow
      rw [hshow] at habc
      cases habc
    · simp [Frame.isFilled, addBlock, hfills]
  | label hlabel =>
    have hfills : r.tag.fills = true := htag ▸ hlabel ▸ rfl
    refine .inl (h.next (htag ▸ hlabel ▸ by decide) (htag ▸ hlabel ▸ by decide) rfl rfl ?_)
    rw [hfills, Bool.or_true]
    rfl
  | other hfinish hshow hfills hsame =>
    refine .inl (h.next (htag ▸ hfinish) (htag ▸ hshow) hsame.isComplete hsame.frames ?_)
    rw [← htag, hfills, Bool.or_false, Frame.isFilled, hsame.label, hsame.listed]
    rfl

end

/-! ## Consistency -/

theorem Decodes.tags {symbol : Option Symbol} (h : Decodes f raw (g, .ok symbol)) : g.tags = f.tags := by
  cases h with
  | finish => exact f.tags_close
  | shown | block | label => rfl
  | other _ _ _ hsame => exact hsame.tags

/-- The file with the record of a tag that is about to be read. -/
def recorded (f : File) (raw : RawTag) : File :=
  { f with tags := f.tags.push ⟨raw.tag, f.bytesLoaded, raw.body.length⟩ }

theorem decode_of_add {symbol : Option Symbol} (h : f.add raw = (g, .ok symbol)) :
    ∃ g', (f.recorded raw).decode raw.tag ⟨f.bytesLoaded + raw.headerSize, raw.body⟩ = (g', .ok symbol) ∧
      g = { g' with bytesLoaded := f.bytesLoaded + raw.size } := by
  simp only [File.add] at h
  split at h
  · rename_i g' symbol' hdecode
    obtain ⟨rfl, hsymbol⟩ := Prod.mk.inj h
    obtain rfl := Except.ok.inj hsymbol
    exact ⟨g', hdecode, rfl⟩
  · cases (Prod.mk.inj h).2

theorem decodes_of_add {symbol : Option Symbol} (h : f.add raw = (g, .ok symbol)) :
    ∃ g', Decodes (f.recorded raw) raw (g', .ok symbol) ∧
      g = { g' with bytesLoaded := f.bytesLoaded + raw.size } := by
  obtain ⟨g', hdecode, hg⟩ := decode_of_add h
  exact ⟨g', hdecode ▸ decodes (f.recorded raw) raw _, hg⟩

theorem tags_of_add {symbol : Option Symbol} (h : f.add raw = (g, .ok symbol)) :
    g.tags.toList = f.tags.toList ++ [⟨raw.tag, f.bytesLoaded, raw.body.length⟩] := by
  obtain ⟨g, hdecodes, rfl⟩ := decodes_of_add h
  rw [hdecodes.tags, recorded, Array.toList_push]

/-- Only the tags of modules add blocks, one each. -/
theorem Decodes.blocks {symbol : Option Symbol} (h : Decodes f raw (g, .ok symbol)) :
    raw.tag.isAbc = false ∧ g.blocks = f.blocks ∨ ∃ block, raw.Yields block ∧ g.blocks = f.blocks.push block := by
  cases h with
  | finish htag => exact .inl ⟨htag ▸ rfl, f.blocks_close⟩
  | shown htag => exact .inl ⟨htag ▸ rfl, rfl⟩
  | block hyields => exact .inr ⟨_, hyields f.frames.size, rfl⟩
  | label htag => exact .inl ⟨htag ▸ rfl, rfl⟩
  | other _ _ hfills hsame => exact .inl ⟨(Bool.or_eq_false_iff.1 hfills).2, hsame.blocks⟩

/-- What holds of a file after every tag: the records, the blocks and the frames go with each other and with the contents
that were read. -/
structure Consistent (f : File) (contents : List UInt8) (start : Nat) : Prop where
  tiles : Tiles contents start f.tags.toList f.bytesLoaded
  produced : List.Forall₂ (Produces contents) (f.tags.toList.filter (·.tag.isAbc)) f.blocks.toList
  listed : f.Listed
  counted : f.Collecting f.tags.toList ∨ f.Ended f.tags.toList

variable {contents : List UInt8} {start : Nat}

theorem Consistent.collecting (h : f.Consistent contents start) (hopen : f.isComplete = false) :
    f.Collecting f.tags.toList := by
  obtain hcollecting | hended := h.counted
  · exact hcollecting
  · cases hopen.symm.trans hended.isComplete

theorem Consistent.append (h : f.Consistent contents start) (more : List UInt8) :
    f.Consistent (contents ++ more) start where
  tiles := h.tiles.append more
  produced := h.produced.imp fun _ _ hproduces => hproduces.append more
  listed := h.listed
  counted := h.counted

theorem Consistent.add {next : List UInt8} {symbol : Option Symbol} (h : f.Consistent contents start)
    (hopen : f.isComplete = false) (hsplit : RawTag.split? (contents.drop f.bytesLoaded) = some (raw, next))
    (hadd : f.add raw = (g, .ok symbol)) :
    g.Consistent contents start ∧ contents.drop g.bytesLoaded = next := by
  have htags := tags_of_add hadd
  obtain ⟨g, hdecodes, rfl⟩ := decodes_of_add hadd
  refine ⟨⟨?_, ?_, ?_, ?_⟩, ?_⟩
  · rw [htags, RawTag.size, ← Nat.add_assoc]
    exact .concat h.tiles hsplit (RawTag.layout_of_split? hsplit).1
  · rw [htags, List.filter_append]
    obtain ⟨habc, hblocks⟩ | ⟨block, hyields, hblocks⟩ := hdecodes.blocks
    · rw [hblocks, List.filter_cons_of_neg (by simp [habc]), List.filter_nil, List.append_nil]
      exact h.produced
    · rw [hblocks, List.filter_cons_of_pos (by simp [hyields.isAbc]), List.filter_nil, Array.toList_push]
      exact List.rel_append h.produced (.cons (.intro hsplit hyields) .nil)
  · have hlisted : (f.recorded raw).Listed := h.listed.same rfl rfl rfl
    exact (hlisted.decodes hdecodes).same rfl rfl rfl
  · have hcollecting := h.collecting hopen
    have hrecorded : (f.recorded raw).Collecting f.tags.toList :=
      ⟨hcollecting.isOpen, hcollecting.ends, hcollecting.frames, hcollecting.filled⟩
    have hdecoded := hrecorded.decodes (r := ⟨raw.tag, f.bytesLoaded, raw.body.length⟩) rfl hdecodes
    rw [htags]
    refine hdecoded.imp (fun hgoes => ?_) fun hended => ?_
    · exact ⟨hgoes.isOpen, hgoes.ends, hgoes.frames, hgoes.filled⟩
    · exact ⟨hended.isComplete, hended.ends, hended.empty, hended.frames⟩
  · rw [← List.drop_drop, ← RawTag.rest_of_split? hsplit]

/-- A scan goes on behind the records, and leaves what is behind its own. -/
theorem Scans.consistent {rest rest' : List UInt8} {outcome : Except Fault Scan} (h : Scans f rest g rest' outcome)
    (houtcome : outcome.isOk = true) (hf : f.Consistent contents start) (hrest : contents.drop f.bytesLoaded = rest) :
    g.Consistent contents start ∧ contents.drop g.bytesLoaded = rest' := by
  induction h with
  | stop => exact ⟨hf, hrest⟩
  | fault => cases houtcome
  | @tag f g f' rest next rest' raw symbol outcome hopen hsplit hadd _ ih =>
    obtain ⟨hg, hnext⟩ := hf.add hopen (hrest ▸ hsplit) hadd
    have hok : outcome.isOk = true := by
      cases outcome with
      | ok => rfl
      | error => exact houtcome
    exact ih hok hg hnext

/-! ## What a file comes to -/

/-- The records of a file tile its contents from `start` to the end of what was read, nothing follows a tag that ends the
file, and the records of the modules' tags and the blocks go together one by one. -/
structure Recorded (f : File) (contents : List UInt8) (start : Nat) : Prop where
  tiles : Tiles contents start f.tags.toList f.bytesLoaded
  ends : f.tags.toList.Pairwise fun r _ => r.tag ≠ .finish
  produced : List.Forall₂ (Produces contents) (f.tags.toList.filter (·.tag.isAbc)) f.blocks.toList

/-- The frames of a complete file list each block once, in its order and in the frame it belongs to; there is a frame
for each that is shown, and one more when a label or a block follows the last of them. -/
structure Closed (f : File) : Prop where
  all : f.frames.toList.flatMap (·.blocks.toList) = List.range f.blocks.size
  owned : ∀ {i frame}, f.frames[i]? = some frame → ∀ k ∈ frame.blocks, f.Owns i k
  frames : f.frames.size = shownFrames f.tags.toList + if opensFrame f.tags.toList then 1 else 0

theorem Consistent.recorded (h : f.Consistent contents start) : f.Recorded contents start where
  tiles := h.tiles
  ends := by
    obtain hcollecting | hended := h.counted
    · exact hcollecting.pairwise
    · exact hended.ends
  produced := h.produced

theorem Consistent.closed (h : f.Consistent contents start) (hcomplete : f.isComplete = true) : f.Closed := by
  obtain hcollecting | hended := h.counted
  · cases hcollecting.isOpen.symm.trans hcomplete
  · refine ⟨?_, h.listed.closed, ?_⟩
    · have hall := h.listed.all
      rwa [hended.empty, List.append_nil] at hall
    · rw [hended.frames]
      cases opensFrame f.tags.toList <;> rfl

theorem map_range_getElem? {α : Type} (items : Array α) :
    (List.range items.size).map (items[·]?) = items.toList.map some := by
  apply List.ext_getElem
  · simp
  · intro i hi _
    have hsize : i < items.size := by simpa using hi
    simp [hsize]

/-- The blocks of the frames, one frame after the other, are all blocks of the file. -/
theorem Closed.frameBlocks (h : f.Closed) : (List.range f.frames.size).flatMap f.frameBlocks = f.blocks.toList := by
  have hframes : f.frameBlocks = fun i => f.frames[i]?.elim [] fun frame => frame.blocks.toList.filterMap (f.blocks[·]?) := by
    funext i
    rw [File.frameBlocks]
    cases f.frames[i]? <;> rfl
  calc (List.range f.frames.size).flatMap f.frameBlocks
      = ((List.range f.frames.size).map (f.frames[·]?)).flatMap
          (·.elim [] fun frame => frame.blocks.toList.filterMap (f.blocks[·]?)) := by
        rw [hframes, List.flatMap_map]
    _ = f.frames.toList.flatMap fun frame => frame.blocks.toList.filterMap (f.blocks[·]?) := by
        rw [map_range_getElem?, List.flatMap_map]
        rfl
    _ = (f.frames.toList.flatMap (·.blocks.toList)).filterMap (f.blocks[·]?) := by
        rw [List.filterMap_flatMap]
    _ = ((List.range f.blocks.size).map (f.blocks[·]?)).filterMap id := by
        rw [h.all, List.filterMap_map]
        rfl
    _ = f.blocks.toList := by
        rw [map_range_getElem?, List.filterMap_map]
        exact List.filterMap_some

end File

end MovieVm.Movie
