import MovieVm.Proofs.Contents
import MovieVm.Proofs.Verdict

/-!
# Scanning contents

A file whose tags are those of some contents has what the contents say, after each tag and at the end.
-/

namespace MovieVm.Movie

/-! ## The dictionary -/

namespace Dictionary

/-- The symbols are in the order of their ids, and of those with one id the last that was defined is there. -/
structure Lists (d : Dictionary) (symbols : List Symbol) : Prop where
  sorted : d.Pairwise (·.id < ·.id)
  last : ∀ id, d.find? (·.id = id) = symbols.reverse.find? (·.id = id)

variable {d : Dictionary} {s : Symbol} {symbols : List Symbol}

theorem mem_insert {x : Symbol} (h : x ∈ d.insert s) : x = s ∨ x ∈ d := by
  induction d with
  | nil => exact .inl (List.mem_singleton.1 h)
  | cons y d ih =>
    simp only [insert] at h
    split at h
    · obtain rfl | hmem := List.mem_cons.1 h
      · exact .inr List.mem_cons_self
      · exact (ih hmem).imp_right (List.mem_cons_of_mem _)
    · split at h
      · exact (List.mem_cons.1 h).imp_right (List.mem_cons_of_mem _)
      · exact List.mem_cons.1 h

theorem pairwise_insert (h : d.Pairwise (·.id < ·.id)) : (d.insert s).Pairwise (·.id < ·.id) := by
  induction d with
  | nil => exact List.pairwise_singleton _ _
  | cons y d ih =>
    obtain ⟨hfirst, hrest⟩ := List.pairwise_cons.1 h
    simp only [insert]
    split
    · rename_i hlt
      refine List.pairwise_cons.2 ⟨?_, ih hrest⟩
      intro x hx
      obtain rfl | hmem := mem_insert hx
      · exact hlt
      · exact hfirst x hmem
    · split
      · rename_i hsame
        refine List.pairwise_cons.2 ⟨?_, hrest⟩
        intro x hx
        exact hsame ▸ hfirst x hx
      · refine List.pairwise_cons.2 ⟨?_, h⟩
        intro x hx
        obtain rfl | hmem := List.mem_cons.1 hx
        · omega
        · have hlt := hfirst x hmem
          omega

theorem find?_id_cons (x : Symbol) (d : Dictionary) (id : Nat) :
    (x :: d).find? (·.id = id) = if x.id = id then some x else d.find? (·.id = id) := by
  rw [List.find?_cons]
  by_cases hx : x.id = id <;> simp [hx]

theorem find?_insert (id : Nat) :
    (d.insert s).find? (·.id = id) = if s.id = id then some s else d.find? (·.id = id) := by
  induction d with
  | nil => exact find?_id_cons s [] id
  | cons y d ih =>
    simp only [insert]
    split
    · rw [find?_id_cons, find?_id_cons, ih]
      by_cases hid : s.id = id
      · have hy : y.id ≠ id := by omega
        simp [hid, hy]
      · simp [hid]
    · split
      · rename_i hsame
        rw [find?_id_cons, find?_id_cons, hsame]
        by_cases hid : s.id = id <;> simp [hid]
      · exact find?_id_cons s (y :: d) id

theorem Lists.insert (h : d.Lists symbols) (s : Symbol) : Lists (d.insert s) (symbols ++ [s]) where
  sorted := pairwise_insert h.sorted
  last := by
    intro id
    rw [find?_insert, h.last, List.reverse_append, List.reverse_singleton, List.singleton_append,
      find?_id_cons]

theorem lists_nil : Lists [] [] where
  sorted := .nil
  last := fun _ => rfl

end Dictionary

/-! ## A tag read back -/

open Bytecode (length_littleEndian)

namespace File

theorem body_append_whole (t : Tag) (headerSize : Nat) (body rest : List UInt8) :
    RawTag.split?.body t headerSize body.length (body ++ rest) = some (⟨t, headerSize, body⟩, rest) := by
  rw [RawTag.split?.body, List.take_left, List.drop_left]
  simp

/-- Two bytes make up the word of a tag. -/
theorem word_eq {n : Nat} (h : n < 65536) :
    (UInt8.ofNat n).toNat + 256 * (UInt8.ofNat (n / 256)).toNat = n := by
  rw [UInt8.toNat_ofNat', UInt8.toNat_ofNat']
  omega

theorem split?_short {n : Nat} (h : n < 65536) (hlow : n % 64 < 63) (rest : List UInt8) :
    RawTag.split? (littleEndian 2 n ++ rest) = RawTag.split?.body ⟨UInt16.ofNat (n / 64)⟩ 2 (n % 64) rest := by
  change RawTag.split? (UInt8.ofNat n :: UInt8.ofNat (n / 256) :: rest) = _
  simp only [RawTag.split?, word_eq h, if_pos hlow]

/-- A length of 63 stands for one of four bytes. -/
theorem split?_long {n length : Nat} (h : n < 65536) (hlow : ¬ n % 64 < 63) (hlength : length < 256 ^ 4)
    (rest : List UInt8) : RawTag.split? (littleEndian 2 n ++ (littleEndian 4 length ++ rest)) =
      RawTag.split?.body ⟨UInt16.ofNat (n / 64)⟩ 6 length rest := by
  have hread : ofLittleEndian (littleEndian 4 length) = length := by
    rw [ofLittleEndian_mod, Nat.mod_eq_of_lt hlength]
  simp only [littleEndian] at hread
  simp only [littleEndian, List.cons_append, List.nil_append, RawTag.split?, word_eq h, if_neg hlow, hread]

/-- A tag is split off as it was written. -/
theorem split?_encode {t : Tag} {body : List UInt8} (ht : t.code.toNat < 1024) (hbody : body.length < 256 ^ 4)
    (rest : List UInt8) :
    ∃ headerSize, RawTag.split? (t.encode body ++ rest) = some (⟨t, headerSize, body⟩, rest) ∧
      headerSize + body.length = (t.encode body).length := by
  have hcode : ∀ low < 64, (t.code.toNat * 64 + low) / 64 = t.code.toNat := by omega
  unfold Tag.encode
  by_cases hlong : 63 ≤ body.length || t.isImage
  · refine ⟨6, ?_, ?_⟩
    · rw [if_pos hlong, List.append_assoc, List.append_assoc, split?_long (by omega) (by omega) hbody,
        body_append_whole, hcode _ (by decide), UInt16.ofNat_toNat]
    · rw [if_pos hlong]
      simp only [List.length_append, length_littleEndian]
  · have hshort : body.length < 63 := by
      simp only [Bool.or_eq_true, decide_eq_true_eq, not_or] at hlong
      omega
    have hlow : (t.code.toNat * 64 + body.length) % 64 = body.length := by omega
    refine ⟨2, ?_, ?_⟩
    · rw [if_neg hlong, List.append_assoc, split?_short (by omega) (by omega), hlow, body_append_whole,
        hcode _ (by omega), UInt16.ofNat_toNat]
    · rw [if_neg hlong]
      simp only [List.length_append, length_littleEndian]

/-! ## One content after the other -/

open Content (encoded shown)

/-- The file has what the contents say, and the frame after the last shown one is being collected. Its tags
begin at the place `start`. -/
structure Follows (header : Header) (start : Nat) (cs : List Content) (f : File) : Prop where
  header : f.header = header
  attributes : f.attributes = (cs.filterMap Content.attributes?).getLast?
  backgroundColor : f.backgroundColor = (cs.filterMap Content.color?).getLast?
  blocks : f.blocks = (Content.blocks cs).toArray
  frames : f.frames = ((List.range (shown cs)).map (Content.frame cs)).toArray
  openFrame : f.openFrame = Content.frame cs (shown cs)
  dictionary : f.dictionary.Lists (cs.filterMap Content.symbol?)
  symbolClasses : f.symbolClasses = cs.filterMap Content.symbolClass?
  exports : f.exports = cs.filterMap Content.exported?
  tags : f.tags = (Content.records start cs).toArray
  bytesLoaded : f.bytesLoaded = start + (cs.flatMap encoded).length
  incomplete : f.isComplete = false

theorem follows_nil (header : Header) (start : Nat) : Follows header start [] { header, bytesLoaded := start } where
  header := rfl
  attributes := rfl
  backgroundColor := rfl
  blocks := rfl
  frames := rfl
  openFrame := rfl
  dictionary := Dictionary.lists_nil
  symbolClasses := rfl
  exports := rfl
  tags := rfl
  bytesLoaded := rfl
  incomplete := rfl

variable {header : Header} {start : Nat} {cs : List Content} {c : Content} {f : File}

/-- The frames that were shown are as they were. -/
theorem map_frame_concat (cs : List Content) (c : Content) :
    (List.range (shown cs)).map (Content.frame (cs ++ [c])) = (List.range (shown cs)).map (Content.frame cs) := by
  apply List.map_congr_left
  intro n hn
  exact Content.frame_concat_of_ne (Nat.ne_of_gt (List.mem_range.1 hn)) c

/-- What the contents say grows by one content with each tag. -/
theorem Follows.enter (h : Follows header start cs f) (c : Content) {record : TagRecord} {size : Nat}
    (hrecord : record = ⟨c.toTag.1, f.bytesLoaded, c.toTag.2.length⟩)
    (hsize : size = f.bytesLoaded + (encoded c).length) :
    Follows header start (cs ++ [c])
      { c.enter { f with tags := f.tags.push record } with bytesLoaded := size } := by
  have hsizes : f.frames.size = shown cs := by simp [h.frames]
  constructor
  case header => simpa using h.header
  case attributes => simp only [Content.enter_attributes, Content.getLast?_filterMap_concat, h.attributes]
  case backgroundColor =>
    simp only [Content.enter_backgroundColor, Content.getLast?_filterMap_concat, h.backgroundColor]
  case blocks =>
    simp only [Content.enter_blocks, hsizes, h.blocks, Content.blocks_concat]
    cases c.block? (shown cs) <;> simp
  case frames =>
    rw [Content.shown_concat]
    by_cases hc : c = .showFrame
    · -- The frame that was collected is shown as it was.
      subst hc
      have hframe : Content.frame (cs ++ [.showFrame]) (shown cs) = Content.frame cs (shown cs) :=
        Content.frame_concat cs .showFrame
      rw [if_pos rfl, List.range_succ, List.map_append, map_frame_concat, List.map_singleton, hframe]
      simp [Content.enter, closeFrame, h.frames, h.openFrame]
    · rw [if_neg hc, map_frame_concat]
      simp only [Content.enter_frames_of_ne _ hc, h.frames]
  case openFrame =>
    rw [Content.shown_concat]
    by_cases hc : c = .showFrame
    · subst hc
      rw [if_pos rfl, Content.frame_concat_of_ne (Nat.ne_of_lt (Nat.lt_succ_self _)),
        Content.frame_of_lt (Nat.lt_succ_self _)]
      rfl
    · rw [if_neg hc, Content.frame_concat]
      simp only [Content.enter_openFrame_of_ne _ hc, Content.collect, hsizes, h.openFrame, h.blocks,
        List.size_toArray]
      rfl
  case dictionary =>
    rw [Content.filterMap_concat]
    simp only [Content.enter_dictionary]
    cases c.symbol? with
    | none => exact h.dictionary
    | some symbol => exact h.dictionary.insert symbol
  case symbolClasses => simp only [Content.enter_symbolClasses, Content.filterMap_concat, h.symbolClasses]
  case exports => simp only [Content.enter_exports, Content.filterMap_concat, h.exports]
  case tags => simp [Content.records_concat, h.tags, hrecord, h.bytesLoaded]
  case bytesLoaded => simp [hsize, h.bytesLoaded, Nat.add_assoc]
  case incomplete => simpa using h.incomplete

theorem code_lt_of_valid (hc : c.Valid) : c.toTag.1.code.toNat < 1024 := by
  cases c with
  | tag => exact hc.elim
  | _ => exact of_decide_eq_true rfl

/-- The tag of a content is added as that content. -/
theorem Follows.add (h : Follows header start cs f) (hc : c.Valid) {headerSize : Nat}
    (hsize : headerSize + c.toTag.2.length = (encoded c).length) :
    ∃ g symbol, f.add ⟨c.toTag.1, headerSize, c.toTag.2⟩ = (g, .ok symbol) ∧ Follows header start (cs ++ [c]) g := by
  obtain ⟨symbol, hdecode⟩ := decode_content hc
    { f with tags := f.tags.push ⟨c.toTag.1, f.bytesLoaded, c.toTag.2.length⟩ } (f.bytesLoaded + headerSize)
  refine ⟨_, symbol, ?_, h.enter c rfl rfl⟩
  simp only [File.add, hdecode, RawTag.size, hsize]

/-- Contents are scanned one after the other. -/
theorem Follows.verdict (h : Follows header start cs f) {more : List Content} (hvalid : ∀ c ∈ more, c.Valid)
    (hbodies : ∀ c ∈ more, c.toTag.2.length < 256 ^ 4) (rest : List UInt8) :
    ∃ g, Follows header start (cs ++ more) g ∧ f.verdict (more.flatMap encoded ++ rest) = g.verdict rest := by
  induction more generalizing cs f with
  | nil => exact ⟨f, by rwa [List.append_nil], rfl⟩
  | cons c more ih =>
    obtain ⟨hc, hvalid⟩ := List.forall_mem_cons.1 hvalid
    obtain ⟨hbody, hbodies⟩ := List.forall_mem_cons.1 hbodies
    obtain ⟨headerSize, hsplit, hsize⟩ := split?_encode (code_lt_of_valid hc) hbody (more.flatMap encoded ++ rest)
    obtain ⟨g, symbol, hadd, hg⟩ := h.add hc hsize
    obtain ⟨k, hk, hverdict⟩ := ih hg hvalid hbodies
    rw [List.append_assoc] at hk
    refine ⟨k, hk, ?_⟩
    rw [List.flatMap_cons, List.append_assoc, encoded, verdict_of_ok h.incomplete hsplit hadd, hverdict]

/-! ## The end of a file -/

/-- A whole file has what its contents say: the last attributes and background color, every block, class and
export in their order, the last symbol defined with each id, a frame for each that is shown and one more for
a label or block behind them, and a record of every tag and the one that ends the file. -/
structure Whole (header : Header) (start : Nat) (cs : List Content) (f : File) : Prop where
  header : f.header = header
  attributes : f.attributes = (cs.filterMap Content.attributes?).getLast?
  backgroundColor : f.backgroundColor = (cs.filterMap Content.color?).getLast?
  blocks : f.blocks.toList = Content.blocks cs
  frames : f.frames.toList = Content.frames cs
  dictionary : f.dictionary.Lists (cs.filterMap Content.symbol?)
  symbolClasses : f.symbolClasses = cs.filterMap Content.symbolClass?
  exports : f.exports = cs.filterMap Content.exported?
  tags : f.tags.toList = Content.records start (cs ++ [.tag .finish []])
  bytesLoaded : f.bytesLoaded = start + (cs.flatMap encoded).length + 2
  openFrame : f.openFrame = {}
  complete : f.isComplete = true

/-- The end of a file changes nothing but its frames. -/
theorem close_eq (f : File) : f.close = { f with frames := f.close.frames, openFrame := {}, isComplete := true } := by
  unfold close
  split <;> rfl

/-- The frames of a file that ends. -/
theorem Follows.frames_close (h : Follows header start cs f) : f.close.frames.toList = Content.frames cs := by
  have hopens : (f.openFrame.label.isSome || !f.openFrame.blocks.isEmpty) = Content.opensFrame cs := by
    have hlast : ∀ labels : List String, labels.getLast?.isSome = !labels.isEmpty := by
      intro labels
      cases labels <;> simp
    rw [h.openFrame]
    simp only [Content.frame, Content.opensFrame, hlast, List.isEmpty_toArray]
  unfold close
  rw [hopens, Content.frames]
  cases Content.opensFrame cs with
  | false => simp [h.frames]
  | true => simp [closeFrame, h.frames, h.openFrame, List.range_succ]

/-- The last tag ends the file. -/
theorem Follows.finish (h : Follows header start cs f) :
    ∃ g, f.verdict (Tag.finish.encode []) = (.ok (), some g) ∧ Whole header start cs g := by
  let record : TagRecord := ⟨.finish, f.bytesLoaded, 0⟩
  let g : File := { ({ f with tags := f.tags.push record } : File).close with bytesLoaded := f.bytesLoaded + 2 }
  have hsplit : RawTag.split? (Tag.finish.encode []) = some (⟨.finish, 2, []⟩, []) := rfl
  have hadd : f.add ⟨.finish, 2, []⟩ = (g, .ok none) := rfl
  have hframes : ({ f with tags := f.tags.push record } : File).close.frames = f.close.frames := by
    unfold close
    split <;> rfl
  have hg : g = { f with
      tags := f.tags.push record
      frames := f.close.frames
      openFrame := {}
      isComplete := true
      bytesLoaded := f.bytesLoaded + 2 } := by
    change ({ File.close _ with bytesLoaded := _ } : File) = _
    rw [close_eq, hframes]
  refine ⟨g, ?_, ?_⟩
  · rw [verdict_of_ok h.incomplete hsplit hadd]
    exact verdict_of_complete (by rw [hg])
  · rw [hg]
    constructor
    case header => exact h.header
    case attributes => exact h.attributes
    case backgroundColor => exact h.backgroundColor
    case blocks => simp [h.blocks]
    case frames => exact h.frames_close
    case dictionary => exact h.dictionary
    case symbolClasses => exact h.symbolClasses
    case exports => exact h.exports
    case tags => simp [Content.records_concat, h.tags, h.bytesLoaded, record, Content.toTag]
    case bytesLoaded => exact congrArg (· + 2) h.bytesLoaded
    case openFrame => rfl
    case complete => rfl

end File

end MovieVm.Movie
