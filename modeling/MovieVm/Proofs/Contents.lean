import MovieVm.Proofs.Fields

/-!
# The file that contents make

What a list of contents makes of a file: each list of the file has what the contents say, in their order, and
every block and label belongs to the frame that is shown next.
-/

namespace MovieVm.Movie

/-! ## Single contents -/

namespace Content

/-- What can be written: texts without zeros, numbers that have room in their fields, and font names of no more
than 255 bytes. The body of a bare tag is not looked at. -/
def Valid : Content → Prop
  | fileAttributes flags => flags < 2 ^ 32
  | backgroundColor _ => True
  | abc name flags _ => '\x00' ∉ name.toList ∧ flags < 2 ^ 32
  | abcDefine _ => True
  | symbolClass id name => id < 2 ^ 16 ∧ '\x00' ∉ name.toList
  | exported id name => id < 2 ^ 16 ∧ '\x00' ∉ name.toList
  | frameLabel label => '\x00' ∉ label.toList
  | image id _ => id < 2 ^ 16
  | font id name => id < 2 ^ 16 ∧ '\x00' ∉ name.toList ∧ name.utf8ByteSize ≤ 255
  | binaryData id _ => id < 2 ^ 16
  | showFrame => True
  | tag _ _ => False

instance : DecidablePred Valid
  | fileAttributes _ | image _ _ | binaryData _ _ => inferInstanceAs (Decidable (_ < _))
  | backgroundColor _ | abcDefine _ | showFrame => .isTrue trivial
  | abc _ _ _ | symbolClass _ _ | exported _ _ | font _ _ => inferInstanceAs (Decidable (_ ∧ _))
  | frameLabel _ => inferInstanceAs (Decidable (_ ∉ _))
  | tag _ _ => .isFalse id

def attributes? : Content → Option Nat
  | fileAttributes flags => some flags
  | _ => none

/-- A color has 24 bits. -/
def color? : Content → Option Nat
  | backgroundColor color => some (color % 2 ^ 24)
  | _ => none

/-- The block that belongs to a frame. -/
def block? (frame : Nat) : Content → Option AbcBlock
  | abc name flags data => some ⟨name, flags, data, frame⟩
  | abcDefine data => some ⟨"", 0, data, frame⟩
  | _ => none

def symbolClass? : Content → Option (Nat × String)
  | symbolClass id name => some (id, name)
  | _ => none

def exported? : Content → Option (Nat × String)
  | exported id name => some (id, name)
  | _ => none

def label? : Content → Option String
  | frameLabel label => some label
  | _ => none

/-- The length of a symbol is that of the body of its tag, and of the mere data where there is no more. -/
def symbol? : Content → Option Symbol
  | image id payload => some ⟨id, .image, .defineBitsLossless2, none, payload.length + 2⟩
  | font id name => some ⟨id, .font, .defineFont3, some name, name.utf8ByteSize + 7⟩
  | binaryData id data => some ⟨id, .binaryData, .defineBinaryData, none, data.length⟩
  | _ => none

/-- The tag of a content with its header. -/
def encoded (c : Content) : List UInt8 :=
  c.toTag.1.encode c.toTag.2

/-- The frame that is collected with one more label or block. -/
def collect (f : File) (c : Content) : Frame where
  label := c.label?.elim f.openFrame.label some
  blocks := (c.block? f.frames.size).elim f.openFrame.blocks fun _ => f.openFrame.blocks.push f.blocks.size
  tagCount := f.openFrame.tagCount

/-- A file with one more content. -/
def enter (f : File) (c : Content) : File :=
  match c with
  | showFrame => f.closeFrame
  | c =>
    { f with
      attributes := c.attributes?.elim f.attributes some
      backgroundColor := c.color?.elim f.backgroundColor some
      blocks := (c.block? f.frames.size).elim f.blocks f.blocks.push
      dictionary := c.symbol?.elim f.dictionary fun symbol => f.dictionary.insert symbol
      symbolClasses := c.symbolClass?.elim f.symbolClasses fun entry => f.symbolClasses ++ [entry]
      exports := c.exported?.elim f.exports fun entry => f.exports ++ [entry]
      openFrame := c.collect f }

variable (f : File) (c : Content)

@[simp] theorem enter_header : (c.enter f).header = f.header := by
  cases c <;> rfl

@[simp] theorem enter_attributes : (c.enter f).attributes = c.attributes?.elim f.attributes some := by
  cases c <;> rfl

@[simp] theorem enter_backgroundColor :
    (c.enter f).backgroundColor = c.color?.elim f.backgroundColor some := by
  cases c <;> rfl

@[simp] theorem enter_blocks : (c.enter f).blocks = (c.block? f.frames.size).elim f.blocks f.blocks.push := by
  cases c <;> rfl

@[simp] theorem enter_dictionary :
    (c.enter f).dictionary = c.symbol?.elim f.dictionary fun symbol => f.dictionary.insert symbol := by
  cases c <;> rfl

@[simp] theorem enter_symbolClasses :
    (c.enter f).symbolClasses = c.symbolClass?.elim f.symbolClasses fun entry => f.symbolClasses ++ [entry] := by
  cases c <;> rfl

@[simp] theorem enter_exports :
    (c.enter f).exports = c.exported?.elim f.exports fun entry => f.exports ++ [entry] := by
  cases c <;> rfl

@[simp] theorem enter_tags : (c.enter f).tags = f.tags := by
  cases c <;> rfl

@[simp] theorem enter_isComplete : (c.enter f).isComplete = f.isComplete := by
  cases c <;> rfl

theorem enter_frames_of_ne {c : Content} (h : c ≠ .showFrame) : (c.enter f).frames = f.frames := by
  cases c <;> first | rfl | contradiction

theorem enter_openFrame_of_ne {c : Content} (h : c ≠ .showFrame) : (c.enter f).openFrame = c.collect f := by
  cases c <;> first | rfl | contradiction

end Content

namespace File

open Reader

variable {f : File}

/-! ## Reading a content -/

/-- The answer of a tag is what is made of its body. -/
theorem decode_of_read {α : Type} {tag : Tag} {source : Source} {reader : Reader α} {x : α}
    (use : α → File × Option Symbol)
    (h : f.decode tag source = match reader source with
      | .ok x _ => ((use x).1, .ok (use x).2)
      | .error fault _ => (f, .error fault))
    (hread : ∃ after, reader source = .ok x after) : f.decode tag source = ((use x).1, .ok (use x).2) := by
  obtain ⟨after, hafter⟩ := hread
  rw [h, hafter]

theorem decode_symbolClass {source : Source} {names : List (Nat × String)}
    (h : readNameTable source = (names, none)) :
    f.decode .symbolClass source = ({ f with symbolClasses := f.symbolClasses ++ names }, .ok none) := by
  unfold decode
  rw [h]
  rfl

theorem decode_exportAssets {source : Source} {names : List (Nat × String)}
    (h : readNameTable source = (names, none)) :
    f.decode .exportAssets source = ({ f with exports := f.exports ++ names }, .ok none) := by
  unfold decode
  rw [h]
  rfl

/-- A content that can be written is read back as what it is. -/
theorem decode_content {c : Content} (hc : c.Valid) (f : File) (position : Nat) :
    ∃ symbol, f.decode c.toTag.1 ⟨position, c.toTag.2⟩ = (c.enter f, .ok symbol) := by
  cases c with
  | fileAttributes flags =>
    exact ⟨_, decode_of_read (fun flags => ({ f with attributes := some flags }, none)) rfl
      ⟨_, number_whole hc position⟩⟩
  | backgroundColor color =>
    exact ⟨_, decode_of_read (fun color => ({ f with backgroundColor := some color }, none)) rfl
      (readColor_of_body position color)⟩
  | abc name flags data =>
    exact ⟨_, decode_of_read (fun block => (f.addBlock block.2.1 block.1 block.2.2, none)) rfl
      (readAbc_of_body position hc.1 hc.2 data)⟩
  | abcDefine data =>
    exact ⟨_, decode_of_read (fun data => (f.addBlock "" 0 data, none)) rfl ⟨_, rfl⟩⟩
  | symbolClass id name =>
    exact ⟨none, decode_symbolClass (readNameTable_of_body position hc.1 hc.2)⟩
  | exported id name =>
    exact ⟨none, decode_exportAssets (readNameTable_of_body position hc.1 hc.2)⟩
  | frameLabel label =>
    exact ⟨_, decode_of_read (fun label => ({ f with openFrame := { f.openFrame with label := some label } }, none))
      rfl ⟨_, terminatedText_whole hc position⟩⟩
  | image id payload =>
    exact ⟨_, decode_of_read (fun symbol => (f.define symbol, some symbol)) rfl
      (readImage_of_body position hc _ _ payload)⟩
  | font id name =>
    obtain ⟨hid, hname, hlength⟩ := hc
    have hread := readFont_of_body position hid hname hlength (name.utf8ByteSize + 7)
    rw [← length_fontBody hlength id] at hread
    have hdecode : f.decode .defineFont3 ⟨position, Content.fontBody id name⟩ = _ :=
      decode_of_read (fun symbol => (f.define symbol, some symbol)) rfl hread
    rw [length_fontBody hlength id] at hdecode
    exact ⟨_, hdecode⟩
  | binaryData id data =>
    exact ⟨_, decode_of_read (fun symbol => (f.define symbol, none)) rfl
      (readBinaryData_of_body position hc _ data)⟩
  | showFrame => exact ⟨none, rfl⟩
  | tag t body => exact hc.elim

end File

/-! ## Lists of contents -/

namespace Content

/-- How many frames are shown. -/
def shown (cs : List Content) : Nat :=
  cs.count .showFrame

/-- Each content with the number of frames that are shown before it. -/
def numbered (cs : List Content) : List (Content × Nat) :=
  cs.zipIdx.map fun (c, i) => (c, shown (cs.take i))

/-- The blocks in their order, each with the frame it belongs to. -/
def blocks (cs : List Content) : List AbcBlock :=
  (numbered cs).filterMap fun (c, frame) => c.block? frame

/-- The labels that a frame is given, the last of which it has. -/
def labels (cs : List Content) (frame : Nat) : List String :=
  (numbered cs).filterMap fun (c, n) => if n = frame then c.label? else none

/-- The numbers of the blocks of a frame. -/
def blockNumbers (cs : List Content) (frame : Nat) : List Nat :=
  (blocks cs).zipIdx.filterMap fun (b, i) => if b.frame = frame then some i else none

/-- A frame with the last label set in it and its blocks. -/
def frame (cs : List Content) (n : Nat) : Frame where
  label := (labels cs n).getLast?
  blocks := (blockNumbers cs n).toArray

/-- Whether a label or a block follows the last shown frame. -/
def opensFrame (cs : List Content) : Bool :=
  !(labels cs (shown cs)).isEmpty || !(blockNumbers cs (shown cs)).isEmpty

/-- One frame for each that is shown, and one more for what follows. -/
def frames (cs : List Content) : List Frame :=
  (List.range (if opensFrame cs then shown cs + 1 else shown cs)).map (frame cs)

/-- Where each tag stands behind the place `start`, and the size of its body. -/
def records (start : Nat) (cs : List Content) : List TagRecord :=
  cs.zipIdx.map fun (c, i) => ⟨c.toTag.1, start + ((cs.take i).flatMap encoded).length, c.toTag.2.length⟩

/-! ### One more content -/

variable {cs : List Content} {c : Content}

/-- What is said of each item and those before it is not changed by one more item. -/
theorem map_zipIdx_concat {α : Type} (f : Content → List Content → α) (cs : List Content) (c : Content) :
    ((cs ++ [c]).zipIdx.map fun (x, i) => f x ((cs ++ [c]).take i)) =
      (cs.zipIdx.map fun (x, i) => f x (cs.take i)) ++ [f c cs] := by
  rw [List.zipIdx_append, List.map_append]
  congr 1
  · apply List.map_congr_left
    rintro ⟨x, i⟩ hmem
    have hi : i < cs.length := by simpa using List.snd_lt_of_mem_zipIdx hmem
    simp only [List.take_append_of_le_length (Nat.le_of_lt hi)]
  · simp

theorem shown_concat (cs : List Content) (c : Content) :
    shown (cs ++ [c]) = if c = .showFrame then shown cs + 1 else shown cs := by
  rw [shown, List.count_append, List.count_singleton]
  by_cases hc : c = .showFrame <;> simp [hc, shown]

theorem numbered_concat (cs : List Content) (c : Content) : numbered (cs ++ [c]) = numbered cs ++ [(c, shown cs)] :=
  map_zipIdx_concat (fun c before => (c, shown before)) cs c

theorem records_concat (start : Nat) (cs : List Content) (c : Content) : records start (cs ++ [c]) =
    records start cs ++ [⟨c.toTag.1, start + (cs.flatMap encoded).length, c.toTag.2.length⟩] :=
  map_zipIdx_concat
    (fun c before => (⟨c.toTag.1, start + (before.flatMap encoded).length, c.toTag.2.length⟩ : TagRecord)) cs c

theorem frame_of_block? {n : Nat} {b : AbcBlock} (h : c.block? n = some b) : b.frame = n := by
  cases c with
  | abc | abcDefine =>
    obtain rfl := Option.some.inj h
    rfl
  | _ => cases h

theorem blocks_concat (cs : List Content) (c : Content) :
    blocks (cs ++ [c]) = blocks cs ++ (c.block? (shown cs)).toList := by
  rw [blocks, numbered_concat, List.filterMap_append]
  cases hblock : c.block? (shown cs) <;> simp [blocks, hblock]

theorem labels_concat (cs : List Content) (c : Content) (n : Nat) :
    labels (cs ++ [c]) n = labels cs n ++ if shown cs = n then c.label?.toList else [] := by
  rw [labels, numbered_concat, List.filterMap_append]
  by_cases hn : shown cs = n <;> cases hlabel : c.label? <;> simp [labels, hn, hlabel]

theorem blockNumbers_concat (cs : List Content) (c : Content) (n : Nat) :
    blockNumbers (cs ++ [c]) n = blockNumbers cs n ++
      if shown cs = n then ((c.block? (shown cs)).map fun _ => (blocks cs).length).toList else [] := by
  rw [blockNumbers, blocks_concat, List.zipIdx_append, List.filterMap_append]
  cases hblock : c.block? (shown cs) with
  | none => simp [blockNumbers]
  | some b =>
    have hframe : b.frame = shown cs := frame_of_block? hblock
    by_cases hn : shown cs = n <;> simp [blockNumbers, hframe, hn]

theorem filterMap_concat {α : Type} (g : Content → Option α) (cs : List Content) (c : Content) :
    (cs ++ [c]).filterMap g = (g c).elim (cs.filterMap g) fun x => cs.filterMap g ++ [x] := by
  rw [List.filterMap_append]
  cases hg : g c <;> simp [hg]

/-- The last of what contents say is what the last content says, if it says anything. -/
theorem getLast?_filterMap_concat {α : Type} (g : Content → Option α) (cs : List Content) (c : Content) :
    ((cs ++ [c]).filterMap g).getLast? = (g c).elim (cs.filterMap g).getLast? some := by
  rw [filterMap_concat]
  cases g c with
  | none => rfl
  | some x => exact List.getLast?_concat

/-! ### Frames -/

theorem le_shown_of_mem_numbered {n : Nat} (h : (c, n) ∈ numbered cs) : n ≤ shown cs := by
  obtain ⟨⟨x, i⟩, _, hsame⟩ := List.mem_map.1 h
  obtain ⟨-, rfl⟩ := Prod.mk.inj hsame
  exact (List.take_sublist i cs).count_le _

theorem le_shown_of_mem_blocks {b : AbcBlock} (h : b ∈ blocks cs) : b.frame ≤ shown cs := by
  obtain ⟨⟨c, n⟩, hmem, hblock⟩ := List.mem_filterMap.1 h
  rw [frame_of_block? hblock]
  exact le_shown_of_mem_numbered hmem

/-- Nothing belongs to a frame behind the one that is shown next. -/
theorem frame_of_lt {n : Nat} (h : shown cs < n) : frame cs n = {} := by
  have hlabels : labels cs n = [] := by
    apply List.filterMap_eq_nil_iff.2
    rintro ⟨c, k⟩ hmem
    have hle := le_shown_of_mem_numbered hmem
    exact if_neg (by omega)
  have hnumbers : blockNumbers cs n = [] := by
    apply List.filterMap_eq_nil_iff.2
    rintro ⟨b, i⟩ hmem
    have hle : b.frame ≤ shown cs := le_shown_of_mem_blocks (List.fst_mem_of_mem_zipIdx hmem)
    exact if_neg (by omega)
  rw [frame, hlabels, hnumbers]
  rfl

/-- Frames that were shown before do not change. -/
theorem frame_concat_of_ne {n : Nat} (h : shown cs ≠ n) (c : Content) : frame (cs ++ [c]) n = frame cs n := by
  simp only [frame, labels_concat, blockNumbers_concat, if_neg h, List.append_nil]

/-- The frame that is shown next gets a label and a block from one more content. -/
theorem frame_concat (cs : List Content) (c : Content) : frame (cs ++ [c]) (shown cs) =
    { label := c.label?.elim (frame cs (shown cs)).label some
      blocks := (c.block? (shown cs)).elim (frame cs (shown cs)).blocks fun _ =>
        (frame cs (shown cs)).blocks.push (blocks cs).length } := by
  simp only [frame, labels_concat, blockNumbers_concat, if_true]
  cases c.label? <;> cases c.block? (shown cs) <;> simp

end Content

end MovieVm.Movie
