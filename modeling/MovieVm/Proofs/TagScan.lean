import MovieVm.Movie.Reception
import MovieVm.Proofs.Success

/-!
# Scanning tags

A scan adds the tags that are there in full. It does not matter how much of the rest has arrived: a tag that
was split off is the same when more bytes follow, so a scan may be broken off and taken up again anywhere.
-/

namespace MovieVm.Movie

/-- A field within some bytes stays when more bytes follow. -/
theorem take_drop_append {bytes more : List UInt8} {i n : Nat} (h : i + n ≤ bytes.length) :
    ((bytes ++ more).drop i).take n = (bytes.drop i).take n := by
  have hrest : n ≤ (bytes.drop i).length := by
    rw [List.length_drop]
    omega
  rw [List.drop_append_of_le_length (by omega), List.take_append_of_le_length hrest]

namespace File

/-! ## Splitting off a tag -/

theorem RawTag.body_append {tag : Tag} {headerSize length : Nat} {bytes rest : List UInt8} {raw : RawTag}
    (h : split?.body tag headerSize length bytes = some (raw, rest)) (more : List UInt8) :
    split?.body tag headerSize length (bytes ++ more) = some (raw, rest ++ more) := by
  simp only [split?.body, List.length_take] at h ⊢
  split at h
  · cases h
  · obtain ⟨rfl, rfl⟩ := Prod.mk.inj (Option.some.inj h)
    have hle : length ≤ bytes.length := by omega
    rw [if_neg (by simp only [List.length_append]; omega), List.take_append_of_le_length hle,
      List.drop_append_of_le_length hle]

theorem RawTag.split?_append {bytes rest : List UInt8} {raw : RawTag}
    (h : split? bytes = some (raw, rest)) (more : List UInt8) :
    split? (bytes ++ more) = some (raw, rest ++ more) := by
  obtain _ | ⟨a, _ | ⟨b, bytes⟩⟩ := bytes
  · cases h
  · cases h
  · simp only [split?, List.cons_append] at h ⊢
    split at h
    · rename_i hshort
      rw [if_pos hshort]
      exact body_append h more
    · rename_i hlong
      rw [if_neg hlong]
      obtain _ | ⟨c, _ | ⟨d, _ | ⟨e, _ | ⟨g, bytes⟩⟩⟩⟩ := bytes
      case cons.cons.cons.cons => exact body_append h more
      all_goals cases h

theorem RawTag.size_of_body {tag : Tag} {headerSize length : Nat} {bytes rest : List UInt8} {raw : RawTag}
    (h : split?.body tag headerSize length bytes = some (raw, rest)) :
    rest.length + raw.size = bytes.length + headerSize := by
  simp only [split?.body, List.length_take] at h
  split at h
  · cases h
  · obtain ⟨rfl, rfl⟩ := Prod.mk.inj (Option.some.inj h)
    simp only [RawTag.size, List.length_take, List.length_drop]
    omega

/-- A tag and what follows it make up the bytes. -/
theorem RawTag.size_of_split? {bytes rest : List UInt8} {raw : RawTag}
    (h : split? bytes = some (raw, rest)) : rest.length + raw.size = bytes.length := by
  obtain _ | ⟨a, _ | ⟨b, bytes⟩⟩ := bytes
  · cases h
  · cases h
  · simp only [split?] at h
    split at h
    · simpa using size_of_body h
    · obtain _ | ⟨c, _ | ⟨d, _ | ⟨e, _ | ⟨g, bytes⟩⟩⟩⟩ := bytes
      case cons.cons.cons.cons => simpa using size_of_body h
      all_goals cases h

/-! ## Adding a tag -/

/-- What reading a tag does to a file: frames are only added, and the header and the end of the last tag stay. -/
structure Grows (f g : File) : Prop where
  header : g.header = f.header
  bytesLoaded : g.bytesLoaded = f.bytesLoaded
  frames : f.frames.size ≤ g.frames.size

theorem Grows.same {f g : File} (hheader : g.header = f.header) (hbytes : g.bytesLoaded = f.bytesLoaded)
    (hframes : g.frames = f.frames) : f.Grows g :=
  ⟨hheader, hbytes, Nat.le_of_eq (congrArg Array.size hframes.symm)⟩

theorem Grows.closeFrame (f : File) : f.Grows f.closeFrame :=
  ⟨rfl, rfl, by simp [File.closeFrame]⟩

theorem Grows.close (f : File) : f.Grows f.close := by
  unfold File.close
  split
  · exact ⟨rfl, rfl, (Grows.closeFrame f).frames⟩
  · exact .same rfl rfl rfl

theorem Grows.ite {α : Type} {f : File} {p : Prop} [Decidable p] {a b : File × α} (ha : f.Grows a.1)
    (hb : f.Grows b.1) : f.Grows (if p then a else b).1 := by
  split
  · exact ha
  · exact hb

theorem Grows.read {α : Type} {f : File} {use : α → File × Option Symbol} {reader : Reader α}
    {source : Source} (huse : ∀ x, f.Grows (use x).1) :
    f.Grows (match reader source with
      | .ok x _ => ((use x).1, Except.ok (ε := Fault) (use x).2)
      | .error fault _ => (f, .error fault)).1 := by
  split
  · exact huse _
  · exact .same rfl rfl rfl

theorem Grows.decode (f : File) (tag : Tag) (source : Source) : f.Grows (f.decode tag source).1 := by
  unfold File.decode
  refine .ite (.close f) (.ite (.closeFrame f) ?_)
  repeat' apply Grows.ite
  -- No other tag adds a frame, whether its body is read or only counted.
  all_goals first
    | (apply Grows.read; intro x; exact .same rfl rfl rfl)
    | exact .same rfl rfl rfl

variable {f f' : File} {raw : RawTag}

theorem add_ok {symbol : Option Symbol} (h : f.add raw = (f', .ok symbol)) :
    f'.bytesLoaded = f.bytesLoaded + raw.size ∧ f.frames.size ≤ f'.frames.size := by
  simp only [add] at h
  split at h
  · rename_i g symbol' hdecode
    obtain ⟨rfl, -⟩ := Prod.mk.inj h
    have hgrows := Grows.decode { f with tags := f.tags.push ⟨raw.tag, f.bytesLoaded, raw.body.length⟩ }
      raw.tag ⟨f.bytesLoaded + raw.headerSize, raw.body⟩
    rw [hdecode] at hgrows
    exact ⟨rfl, hgrows.frames⟩
  · cases (Prod.mk.inj h).2

theorem add_error {fault : Fault} (h : f.add raw = (f', .error fault)) : f.Grows f' := by
  simp only [add] at h
  split at h
  · cases (Prod.mk.inj h).2
  · rename_i g fault' hdecode
    obtain ⟨rfl, -⟩ := Prod.mk.inj h
    have hgrows := Grows.decode { f with tags := f.tags.push ⟨raw.tag, f.bytesLoaded, raw.body.length⟩ }
      raw.tag ⟨f.bytesLoaded + raw.headerSize, raw.body⟩
    rw [hdecode] at hgrows
    exact ⟨hgrows.header, hgrows.bytesLoaded, hgrows.frames⟩

theorem header_add (f : File) (raw : RawTag) : (f.add raw).1.header = f.header := by
  have hgrows := Grows.decode { f with tags := f.tags.push ⟨raw.tag, f.bytesLoaded, raw.body.length⟩ }
    raw.tag ⟨f.bytesLoaded + raw.headerSize, raw.body⟩
  have hheader := hgrows.header
  rw [add]
  split
  · rename_i hdecode
    rwa [hdecode] at hheader
  · rename_i hdecode
    rwa [hdecode] at hheader

/-! ## Scans -/

variable {rest rest' next : List UInt8} {outcome : Except Fault Scan}

theorem scan_of_complete (h : f.isComplete = true) : f.scan rest = (f, rest, .ok {}) := by
  rw [scan, if_pos h]

theorem scan_of_error {fault : Fault} (h : f.isComplete = false)
    (hsplit : RawTag.split? rest = some (raw, next)) (hadd : f.add raw = (f', .error fault)) :
    f.scan rest = (f', rest, .error fault) := by
  rw [scan, if_neg (by simp [h])]
  split
  · simp_all
  · rename_i raw' next' hsplit'
    obtain ⟨rfl, rfl⟩ := Prod.mk.inj (Option.some.inj (hsplit.symm.trans hsplit'))
    rw [hadd]

/-- The scan after a tag that could be read. -/
theorem scan_of_ok {symbol : Option Symbol} (h : f.isComplete = false)
    (hsplit : RawTag.split? rest = some (raw, next)) (hadd : f.add raw = (f', .ok symbol)) :
    f.scan rest = ((f'.scan next).1, (f'.scan next).2.1, (f'.scan next).2.2.map fun s =>
      ⟨s.tags + 1, s.bytes + raw.size, symbol.toList ++ s.eager⟩) := by
  rw [scan, if_neg (by simp [h])]
  split
  · simp_all
  · rename_i raw' next' hsplit'
    obtain ⟨rfl, rfl⟩ := Prod.mk.inj (Option.some.inj (hsplit.symm.trans hsplit'))
    rw [hadd]

/-- How a scan goes: tag by tag, until the file is complete, a tag is not all there or cannot be read. -/
inductive Scans : File → List UInt8 → File → List UInt8 → Except Fault Scan → Prop where
  | stop {f : File} {rest : List UInt8} (h : f.isComplete = true ∨ RawTag.split? rest = none) :
    Scans f rest f rest (.ok {})
  | fault {f f' : File} {rest next : List UInt8} {raw : RawTag} {fault : Fault}
    (h : f.isComplete = false) (hsplit : RawTag.split? rest = some (raw, next))
    (hadd : f.add raw = (f', .error fault)) : Scans f rest f' rest (.error fault)
  | tag {f g f' : File} {rest next rest' : List UInt8} {raw : RawTag} {symbol : Option Symbol}
    {outcome : Except Fault Scan} (h : f.isComplete = false)
    (hsplit : RawTag.split? rest = some (raw, next)) (hadd : f.add raw = (g, .ok symbol))
    (hscans : Scans g next f' rest' outcome) :
    Scans f rest f' rest' (outcome.map fun s =>
      ⟨s.tags + 1, s.bytes + raw.size, symbol.toList ++ s.eager⟩)

theorem scans (f : File) (rest : List UInt8) :
    Scans f rest (f.scan rest).1 (f.scan rest).2.1 (f.scan rest).2.2 := by
  fun_induction scan f rest with
  | case1 f rest h => exact .stop (.inl h)
  | case2 f rest h hsplit => exact .stop (.inr hsplit)
  | case3 f rest h raw next hsplit f' fault hadd => exact .fault (Bool.eq_false_iff.2 h) hsplit hadd
  | case4 f rest h raw next hsplit g symbol hadd _ f' rest' outcome hscan ih =>
    rw [hscan] at ih
    exact .tag (Bool.eq_false_iff.2 h) hsplit hadd ih

theorem Scans.of_scan (h : f.scan rest = (f', rest', outcome)) : Scans f rest f' rest' outcome := by
  have hscans := scans f rest
  rwa [h] at hscans

/-- A scan that has read nothing leaves everything as it is. -/
theorem Scans.idle {s : Scan} (h : Scans f rest f' rest' (.ok s)) (hs : s.tags = 0) :
    f' = f ∧ rest' = rest ∧ s = {} := by
  generalize houtcome : Except.ok s = outcome at h
  cases h with
  | stop => exact ⟨rfl, rfl, Except.ok.inj houtcome⟩
  | fault => cases houtcome
  | tag =>
    obtain ⟨_, _, rfl⟩ := Except.map_eq_ok.1 houtcome.symm
    exact absurd hs (Nat.succ_ne_zero _)

/-- What a scan takes from the bytes it adds to the size of the file; frames are only added. -/
theorem Scans.grows (h : Scans f rest f' rest' outcome) :
    f'.bytesLoaded + rest'.length = f.bytesLoaded + rest.length ∧ f.frames.size ≤ f'.frames.size := by
  induction h with
  | stop => exact ⟨rfl, Nat.le_refl _⟩
  | fault _ _ hadd =>
    have hgrows := add_error hadd
    exact ⟨by rw [hgrows.bytesLoaded], hgrows.frames⟩
  | tag _ hsplit hadd _ ih =>
    obtain ⟨hbytes, hframes⟩ := add_ok hadd
    have hsize := RawTag.size_of_split? hsplit
    exact ⟨by omega, Nat.le_trans hframes ih.2⟩

theorem Scans.header (h : Scans f rest f' rest' outcome) : f'.header = f.header := by
  induction h with
  | stop => rfl
  | @fault f f' _ _ raw _ _ _ hadd =>
    have hheader := header_add f raw
    rwa [hadd] at hheader
  | @tag f g _ _ _ _ raw _ _ _ _ hadd _ ih =>
    have hheader := header_add f raw
    rw [hadd] at hheader
    exact ih.trans hheader

theorem Scans.shortens (h : Scans f rest f' rest' outcome) : rest'.length ≤ rest.length := by
  induction h with
  | stop => exact Nat.le_refl _
  | fault => exact Nat.le_refl _
  | tag _ hsplit _ _ ih =>
    have hfirst := RawTag.length_of_split? hsplit
    omega

/-- A scan that has read a tag has come at least two bytes further. -/
theorem Scans.advances {s : Scan} (h : Scans f rest f' rest' (.ok s)) (hs : s.tags ≠ 0) :
    rest'.length + 2 ≤ rest.length := by
  generalize houtcome : Except.ok s = outcome at h
  cases h with
  | stop =>
    obtain rfl := Except.ok.inj houtcome
    exact absurd rfl hs
  | fault => cases houtcome
  | tag _ hsplit hadd hscans =>
    have hfirst := RawTag.length_of_split? hsplit
    have hothers := hscans.shortens
    omega

end File

/-! ## The header -/

namespace Preamble

variable {p : Preamble} {body : List UInt8} {first : UInt8}

/-- The file that a header opens, once the bounds of the stage are read from its first `size` bytes. -/
def openedFile (p : Preamble) (size : Nat) (body : List UInt8) (bounds : Rect) : File where
  header := {
    compressed := p.compressed
    version := p.version
    fileLength := p.fileLength
    bounds
    frameRate := Reader.fixedPoint (ofLittleEndian ((body.drop size).take 2))
    frameCount := ofLittleEndian ((body.drop (size + 2)).take 2) }
  bytesLoaded := Preamble.size + size + 4

theorem readHeader_of_short (h : body.length < Rect.encodedSize first + 4) (hfirst : body.head? = some first) :
    p.readHeader body = .ok none := by
  cases body with
  | nil => cases hfirst
  | cons b body =>
    obtain rfl := Option.some.inj hfirst
    simp only [readHeader, if_pos h]
    rfl

/-- With all bytes of a header there, only its rectangle can be at fault. -/
theorem readHeader_of_long (h : Rect.encodedSize first + 4 ≤ body.length) (hfirst : body.head? = some first) :
    p.readHeader body = (Rect.decode (body.take (Rect.encodedSize first)) Preamble.size).map fun bounds =>
      some (p.openedFile (Rect.encodedSize first) body bounds, body.drop (Rect.encodedSize first + 4)) := by
  cases body with
  | nil => cases hfirst
  | cons b body =>
    obtain rfl := Option.some.inj hfirst
    simp only [readHeader, if_neg (Nat.not_lt.2 h)]
    cases Rect.decode ((b :: body).take (Rect.encodedSize b)) Preamble.size <;> rfl

/-- A header that is read, or is at fault, is all there. -/
theorem long_of_readHeader (h : p.readHeader body ≠ .ok none) :
    ∃ first, body.head? = some first ∧ Rect.encodedSize first + 4 ≤ body.length := by
  cases body with
  | nil => exact absurd rfl h
  | cons first body =>
    refine ⟨first, rfl, Nat.le_of_not_lt fun hshort => h ?_⟩
    exact readHeader_of_short hshort rfl

theorem readHeader_append (h : p.readHeader body ≠ .ok none) (more : List UInt8) :
    p.readHeader (body ++ more) =
      (p.readHeader body).map (Option.map fun (file, rest) => (file, rest ++ more)) := by
  obtain ⟨first, hfirst, hlong⟩ := long_of_readHeader h
  have hlong' : Rect.encodedSize first + 4 ≤ (body ++ more).length := by
    rw [List.length_append]
    omega
  have hfirst' : (body ++ more).head? = some first := by
    rw [List.head?_append, hfirst]
    rfl
  rw [readHeader_of_long hlong hfirst, readHeader_of_long hlong' hfirst',
    List.take_append_of_le_length (by omega), List.drop_append_of_le_length hlong]
  cases Rect.decode (body.take (Rect.encodedSize first)) Preamble.size with
  | error fault => rfl
  | ok bounds =>
    -- Every field lies within the bytes that were there before.
    have hrate : Rect.encodedSize first + 2 ≤ body.length := by omega
    have hcount : Rect.encodedSize first + 2 + 2 ≤ body.length := by omega
    simp only [Except.map, Option.map, openedFile, take_drop_append hrate, take_drop_append hcount]

/-- A file that has just been opened has the declared size, and has read what is not left. -/
theorem opened_of_readHeader {file : File} {rest : List UInt8} (h : p.readHeader body = .ok (some (file, rest))) :
    file.header.fileLength = p.fileLength ∧ file.bytesLoaded + rest.length = size + body.length := by
  have hread : p.readHeader body ≠ .ok none := by simp [h]
  obtain ⟨first, hfirst, hlong⟩ := long_of_readHeader hread
  rw [readHeader_of_long hlong hfirst] at h
  obtain ⟨bounds, _, hopened⟩ := Except.map_eq_ok.1 h
  obtain ⟨rfl, rfl⟩ := Prod.mk.inj (Option.some.inj hopened)
  have hloaded : (p.openedFile (Rect.encodedSize first) body bounds).bytesLoaded =
      size + Rect.encodedSize first + 4 := rfl
  refine ⟨rfl, ?_⟩
  rw [hloaded, List.length_drop]
  omega

/-- A header leaves fewer bytes. -/
theorem length_of_readHeader {file : File} {rest : List UInt8}
    (h : p.readHeader body = .ok (some (file, rest))) : rest.length + 4 ≤ body.length := by
  have hread : p.readHeader body ≠ .ok none := by simp [h]
  obtain ⟨first, hfirst, hlong⟩ := long_of_readHeader hread
  rw [readHeader_of_long hlong hfirst] at h
  obtain ⟨bounds, _, hopened⟩ := Except.map_eq_ok.1 h
  obtain ⟨-, rfl⟩ := Prod.mk.inj (Option.some.inj hopened)
  rw [List.length_drop]
  omega

end Preamble

end MovieVm.Movie
