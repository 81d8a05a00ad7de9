import MovieVm.Proofs.TagRecords

/-!
# Eager symbols

The tags of images and of fonts each define a symbol that is announced as soon as it is read. The symbol is given by the
bytes of the tag's body alone, and a scan gathers the symbols in the order of the records.
-/

namespace MovieVm.Movie

/-- Whether a tag defines a symbol that is announced. -/
def Tag.isEager (t : Tag) : Bool :=
  t.isImage || t.isFont

/-! ## Layout -/

/-- The name that a font is given by what its tag holds behind the id. Two of the tags hold two bytes of settings, a
length and a name, whose zeros at the end do not count; another one holds one such byte and a name up to a zero. -/
inductive Tag.Names : Tag → List UInt8 → Option String → Prop where
  | counted {tag : Tag} (htag : tag = .defineFont2 ∨ tag = .defineFont3) (flags language count : UInt8)
    {name : List UInt8} (hcount : name.length = count.toNat) (rest : List UInt8) :
    Names tag (flags :: language :: count :: (name ++ rest))
      (some (String.ofList ((Text.ofUtf8Lossy name).toList.rdropWhile (· = '\x00'))))
  | terminated (flags : UInt8) (text : List UInt8) :
    Names .defineFont4 (flags :: text) (some (Text.ofUtf8Lossy (text.takeWhile (· ≠ 0))))
  | unnamed {tag : Tag} (htag : tag ∉ [.defineFont2, .defineFont3, .defineFont4]) (body : List UInt8) :
    Names tag body none

namespace File

/-- The symbol that a tag defines: an id of two bytes comes first, and the size is that of the body. -/
inductive RawTag.Defines : RawTag → Symbol → Prop where
  | image {tag : Tag} (himage : tag.isImage = true) (headerSize : Nat) {id : List UInt8} (hid : id.length = 2)
    (data : List UInt8) :
    Defines ⟨tag, headerSize, id ++ data⟩ ⟨ofLittleEndian id, .image, tag, none, (id ++ data).length⟩
  | font {tag : Tag} (hfont : tag.isFont = true) (headerSize : Nat) {id : List UInt8} (hid : id.length = 2)
    {body : List UInt8} {name : Option String} (hname : tag.Names body name) :
    Defines ⟨tag, headerSize, id ++ body⟩ ⟨ofLittleEndian id, .font, tag, name, (id ++ body).length⟩

/-- A symbol is defined by the tag that a record stands for. -/
inductive DefinesAt (contents : List UInt8) : TagRecord → Symbol → Prop where
  | intro {offset : Nat} {raw : RawTag} {rest : List UInt8} {symbol : Symbol}
    (hsplit : RawTag.split? (contents.drop offset) = some (raw, rest)) (hdefines : raw.Defines symbol) :
    DefinesAt contents ⟨raw.tag, offset, raw.body.length⟩ symbol

end File

/-! ## One symbol for each tag -/

theorem Tag.not_isFont_of_isImage {tag : Tag} (h : tag.isImage = true) : tag.isFont = false := by
  have hcode : tag.code ∈ [6, 20, 21, 35, 36, 90] := List.contains_iff_mem.1 h
  simp only [List.mem_cons, List.not_mem_nil, or_false] at hcode
  obtain hcode | hcode | hcode | hcode | hcode | hcode := hcode <;> rw [isFont, hcode] <;> rfl

theorem Tag.Names.unique {tag : Tag} {body : List UInt8} {name name' : Option String} (h : tag.Names body name)
    (h' : tag.Names body name') : name = name' := by
  cases h with
  | @counted _ htag flags language count text hcount rest =>
    generalize hbody : flags :: language :: count :: (text ++ rest) = body at h'
    cases h' with
    | counted _ _ _ _ hcount' =>
      simp only [List.cons.injEq] at hbody
      obtain ⟨-, -, rfl, hnames⟩ := hbody
      obtain ⟨rfl, -⟩ := List.append_inj hnames (hcount.trans hcount'.symm)
      rfl
    | terminated => exact absurd htag (by decide)
    | unnamed hother => exact absurd (by obtain rfl | rfl := htag <;> simp) hother
  | terminated flags text =>
    cases h' with
    | counted htag => exact absurd htag (by decide)
    | terminated => rfl
    | unnamed hother => exact absurd (by simp) hother
  | unnamed hother =>
    cases h' with
    | counted htag => exact absurd (by obtain rfl | rfl := htag <;> simp) hother
    | terminated => exact absurd (by simp) hother
    | unnamed => rfl

namespace File

theorem RawTag.Defines.unique {raw : RawTag} {symbol symbol' : Symbol} (h : raw.Defines symbol)
    (h' : raw.Defines symbol') : symbol = symbol' := by
  cases h with
  | @image tag himage headerSize id hid data =>
    generalize hraw : (⟨tag, headerSize, id ++ data⟩ : RawTag) = raw at h'
    cases h' with
    | @image _ _ _ id' hid' =>
      obtain ⟨rfl, rfl, hbody⟩ := RawTag.mk.inj hraw
      obtain ⟨rfl, rfl⟩ := List.append_inj hbody (hid.trans hid'.symm)
      rfl
    | font hfont =>
      obtain ⟨rfl, -, -⟩ := RawTag.mk.inj hraw
      cases (Tag.not_isFont_of_isImage himage).symm.trans hfont
  | @font tag hfont headerSize id hid body name hname =>
    generalize hraw : (⟨tag, headerSize, id ++ body⟩ : RawTag) = raw at h'
    cases h' with
    | image himage =>
      obtain ⟨rfl, -, -⟩ := RawTag.mk.inj hraw
      cases (Tag.not_isFont_of_isImage himage).symm.trans hfont
    | @font _ _ _ id' hid' body' name' hname' =>
      obtain ⟨rfl, rfl, hbody⟩ := RawTag.mk.inj hraw
      obtain ⟨rfl, rfl⟩ := List.append_inj hbody (hid.trans hid'.symm)
      rw [hname.unique hname']

theorem DefinesAt.unique {contents : List UInt8} {record : TagRecord} {symbol symbol' : Symbol}
    (h : DefinesAt contents record symbol) (h' : DefinesAt contents record symbol') : symbol = symbol' := by
  obtain @⟨offset, raw, rest, _, hsplit, hdefines⟩ := h
  generalize hrecord : (⟨raw.tag, offset, raw.body.length⟩ : TagRecord) = record at h'
  obtain @⟨offset', raw', rest', _, hsplit', hdefines'⟩ := h'
  obtain ⟨-, rfl, -⟩ := TagRecord.mk.inj hrecord
  obtain ⟨rfl, -⟩ := Prod.mk.inj (Option.some.inj (hsplit.symm.trans hsplit'))
  exact hdefines.unique hdefines'

theorem DefinesAt.append {contents : List UInt8} {record : TagRecord} {symbol : Symbol}
    (h : DefinesAt contents record symbol) (more : List UInt8) : DefinesAt (contents ++ more) record symbol := by
  obtain ⟨hsplit, hdefines⟩ := h
  exact .intro (split?_drop_append hsplit more) hdefines

end File

/-! ## What is read -/

theorem Reader.byte_eq_ok {n : Nat} {source after : Source} (h : Reader.number 1 source = .ok n after) :
    ∃ b, source.rest = b :: after.rest ∧ n = b.toNat := by
  obtain ⟨hlong, rfl, rfl⟩ := Reader.number_eq_ok h
  obtain ⟨position, rest⟩ := source
  cases rest with
  | nil => cases hlong
  | cons b rest => exact ⟨b, rfl, by simp [ofLittleEndian]⟩

theorem Reader.bytes_eq_ok {n : Nat} {taken : List UInt8} {source after : Source}
    (h : Reader.bytes n source = .ok taken after) :
    source.rest = taken ++ source.rest.drop n ∧ taken.length = n := by
  obtain ⟨s, t, hget, h⟩ := EStateM.bind_eq_ok.1 h
  obtain ⟨rfl, rfl⟩ := EStateM.get_eq_ok.1 hget
  obtain ⟨hlong, h⟩ := EStateM.refuse_eq_ok.1 h
  obtain ⟨_, u, hset, h⟩ := EStateM.bind_eq_ok.1 h
  obtain ⟨rfl, -⟩ := EStateM.pure_eq_ok.1 h
  simp only [Source.skip] at hlong
  exact ⟨(List.take_append_drop n _).symm, by omega⟩

theorem names_of_fontName {tag : Tag} {source after : Source} {name : Option String}
    (h : File.fontName tag source = .ok name after) : tag.Names source.rest name := by
  unfold File.fontName at h
  split at h
  · rename_i htag
    obtain ⟨flags, s, hflags, h⟩ := EStateM.bind_eq_ok.1 h
    obtain ⟨language, t, hlanguage, h⟩ := EStateM.bind_eq_ok.1 h
    obtain ⟨count, u, hcount, h⟩ := EStateM.bind_eq_ok.1 h
    obtain ⟨text, v, htext, h⟩ := EStateM.bind_eq_ok.1 h
    obtain ⟨rfl, -⟩ := EStateM.pure_eq_ok.1 h
    obtain ⟨flags, hfirst, -⟩ := Reader.byte_eq_ok hflags
    obtain ⟨language, hsecond, -⟩ := Reader.byte_eq_ok hlanguage
    obtain ⟨count, hthird, rfl⟩ := Reader.byte_eq_ok hcount
    obtain ⟨hrest, hlength⟩ := Reader.bytes_eq_ok htext
    rw [hfirst, hsecond, hthird, hrest]
    exact .counted (by simpa using htag) flags language count hlength _
  · split at h
    · rename_i htag
      subst htag
      obtain ⟨flags, s, hflags, h⟩ := EStateM.bind_eq_ok.1 h
      obtain ⟨flags, hfirst, -⟩ := Reader.byte_eq_ok hflags
      rw [hfirst]
      cases h
      exact .terminated flags s.rest
    · rename_i hcounted hterminated
      obtain ⟨rfl, -⟩ := EStateM.pure_eq_ok.1 h
      refine .unnamed ?_ _
      simpa [hterminated] using hcounted

namespace File

/-- What reading a tag gives to be announced: the symbol that it defines when it is an eager one, and nothing else. -/
inductive RawTag.Announces (raw : RawTag) : File × Except Fault (Option Symbol) → Prop where
  | symbol {g : File} {symbol : Symbol} (h : raw.Defines symbol) : Announces raw (g, .ok (some symbol))
  | nothing {g : File} (h : raw.tag.isEager = false) : Announces raw (g, .ok none)
  | failed {g : File} {fault : Fault} : Announces raw (g, .error fault)

variable {f g : File} {raw : RawTag}

theorem RawTag.Announces.ite {p : Prop} [Decidable p] {a b : File × Except Fault (Option Symbol)}
    (ha : p → raw.Announces a) (hb : ¬p → raw.Announces b) : raw.Announces (if p then a else b) := by
  split
  · exact ha ‹_›
  · exact hb ‹_›

theorem RawTag.Announces.read {α : Type} {use : α → File × Option Symbol} {reader : Reader α} {source : Source}
    (huse : ∀ x after, reader source = .ok x after → raw.Announces ((use x).1, .ok (use x).2)) :
    raw.Announces (match reader source with
      | .ok x _ => ((use x).1, Except.ok (ε := Fault) (use x).2)
      | .error fault _ => (f, .error fault)) := by
  split
  · exact huse _ _ ‹_›
  · exact .failed

/-- A table of names defines no symbol, whether all of its entries can be read or not. -/
theorem RawTag.Announces.settle (h : raw.tag.isEager = false) (fault : Option Fault) :
    raw.Announces (g, match fault with
      | some fault => .error fault
      | none => .ok none) := by
  cases fault with
  | none => exact .nothing h
  | some fault => exact .failed

theorem defines_of_readImage {position : Nat} {symbol : Symbol} {after : Source} (himage : raw.tag.isImage = true)
    (h : readImage raw.tag raw.body.length ⟨position, raw.body⟩ = .ok symbol after) : raw.Defines symbol := by
  obtain ⟨id, s, hid, h⟩ := EStateM.bind_eq_ok.1 h
  obtain ⟨rfl, -⟩ := EStateM.pure_eq_ok.1 h
  obtain ⟨hlong, rfl, -⟩ := Reader.number_eq_ok hid
  have hdefines := RawTag.Defines.image himage raw.headerSize (List.length_take_of_le hlong) (raw.body.drop 2)
  rwa [List.take_append_drop] at hdefines

theorem defines_of_readFont {position : Nat} {symbol : Symbol} {after : Source} (hfont : raw.tag.isFont = true)
    (h : readFont raw.tag raw.body.length ⟨position, raw.body⟩ = .ok symbol after) : raw.Defines symbol := by
  obtain ⟨id, s, hid, h⟩ := EStateM.bind_eq_ok.1 h
  obtain ⟨name, t, hname, h⟩ := EStateM.bind_eq_ok.1 h
  obtain ⟨rfl, -⟩ := EStateM.pure_eq_ok.1 h
  obtain ⟨hlong, rfl, rfl⟩ := Reader.number_eq_ok hid
  have hdefines := RawTag.Defines.font hfont raw.headerSize (List.length_take_of_le hlong) (names_of_fontName hname)
  have hrest : (Source.skip ⟨position, raw.body⟩ 2).rest = raw.body.drop 2 := rfl
  rwa [hrest, List.take_append_drop] at hdefines

theorem announces_decode (f : File) (raw : RawTag) (position : Nat) :
    raw.Announces (f.decode raw.tag ⟨position, raw.body⟩) := by
  unfold decode
  -- What the other tags read is kept in the file and not announced.
  have hquiet {tag : Tag} (htag : raw.tag = tag) (h : tag.isEager = false) : raw.tag.isEager = false := htag ▸ h
  refine .ite (fun htag => .nothing (hquiet htag rfl)) fun _ => ?_
  refine .ite (fun htag => .nothing (hquiet htag rfl)) fun _ => ?_
  refine .ite (fun htag => .read fun _ _ _ => .nothing (hquiet htag rfl)) fun _ => ?_
  refine .ite (fun htag => .nothing (hquiet htag rfl)) fun _ => ?_
  refine .ite (fun htag => .settle (hquiet htag rfl) _) fun _ => ?_
  refine .ite (fun htag => .settle (hquiet htag rfl) _) fun _ => ?_
  refine .ite (fun htag => .nothing (hquiet htag rfl)) fun _ => ?_
  iterate 3 refine .ite (fun htag => .read fun _ _ _ => .nothing (hquiet htag rfl)) fun _ => ?_
  refine .ite (fun himage => .read fun symbol after h => ?_) fun himage => .ite (fun hfont => ?_) fun hfont => ?_
  · exact .symbol (defines_of_readImage himage h)
  · exact .read fun symbol after h => .symbol (defines_of_readFont hfont h)
  · exact .nothing (by simp [Tag.isEager, himage, hfont])

theorem announces_of_add {symbol : Option Symbol} (h : f.add raw = (g, .ok symbol)) :
    ∃ g', raw.Announces (g', .ok symbol) := by
  obtain ⟨g', hdecode, -⟩ := decode_of_add h
  exact ⟨g', hdecode ▸ announces_decode (f.recorded raw) raw _⟩

/-! ## Scans -/

/-- The symbols are those that the eager tags of a file define, in the order of its records. -/
def Gathered (f : File) (contents : List UInt8) (symbols : List Symbol) : Prop :=
  List.Forall₂ (DefinesAt contents) (f.tags.toList.filter (·.tag.isEager)) symbols

variable {contents : List UInt8} {start : Nat} {symbols : List Symbol}

theorem RawTag.Defines.isEager {symbol : Symbol} (h : raw.Defines symbol) : raw.tag.isEager = true := by
  cases h with
  | image himage => simp [Tag.isEager, himage]
  | font hfont => simp [Tag.isEager, hfont]

/-- The records of a file define one list of symbols. -/
theorem Gathered.unique {symbols' : List Symbol} (h : f.Gathered contents symbols)
    (h' : f.Gathered contents symbols') : symbols = symbols' := by
  have hone : Relator.RightUnique (List.Forall₂ (DefinesAt contents)) :=
    .forall₂ fun _ _ _ hdefines hdefines' => hdefines.unique hdefines'
  exact hone h h'

theorem Gathered.append (h : f.Gathered contents symbols) (more : List UInt8) :
    f.Gathered (contents ++ more) symbols :=
  h.imp fun _ _ hdefines => hdefines.append more

theorem Gathered.add {next : List UInt8} {symbol : Option Symbol} (h : f.Gathered contents symbols)
    (hsplit : RawTag.split? (contents.drop f.bytesLoaded) = some (raw, next)) (hadd : f.add raw = (g, .ok symbol)) :
    g.Gathered contents (symbols ++ symbol.toList) := by
  obtain ⟨g', hannounces⟩ := announces_of_add hadd
  rw [Gathered, tags_of_add hadd, List.filter_append]
  apply List.rel_append h
  cases hannounces with
  | symbol hdefines =>
    rw [List.filter_cons_of_pos (by simp [hdefines.isEager])]
    exact .cons (.intro hsplit hdefines) .nil
  | nothing hquiet =>
    rw [List.filter_cons_of_neg (by simp [hquiet])]
    exact .nil

/-- A scan gathers the symbols of the tags that it reads. -/
theorem Scans.gathered {rest rest' : List UInt8} {outcome : Except Fault Scan} (h : Scans f rest g rest' outcome)
    {s : Scan} (houtcome : outcome = .ok s) (hf : f.Consistent contents start)
    (hrest : contents.drop f.bytesLoaded = rest) (hsymbols : f.Gathered contents symbols) :
    g.Gathered contents (symbols ++ s.eager) := by
  induction h generalizing symbols s with
  | stop =>
    obtain rfl := Except.ok.inj houtcome
    rwa [List.append_nil]
  | fault => cases houtcome
  | @tag f g f' rest next rest' raw symbol outcome hopen hsplit hadd _ ih =>
    obtain ⟨s, hs, rfl⟩ := Except.map_eq_ok.1 houtcome
    obtain ⟨hg, hnext⟩ := hf.add hopen (hrest ▸ hsplit) hadd
    -- What the first tag defines comes before what the others define.
    have hfirst := hsymbols.add (hrest ▸ hsplit) hadd
    have hothers := ih hs hg hnext hfirst
    rwa [List.append_assoc] at hothers

end File

end MovieVm.Movie
