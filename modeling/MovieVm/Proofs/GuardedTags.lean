import MovieVm.Movie.Basic
import MovieVm.Proofs.Guards
import MovieVm.Proofs.Success

/-!
# Tags read under guard

The fields of tags, with the places that they are read at. No body of a tag makes its decoder trap.
-/

namespace MovieVm.Movie

open Guarded

/-! ## Fields -/

abbrev GuardedReader := Guarded Fault

namespace GuardedReader

def number (width : Nat) : GuardedReader Nat :=
  return ofLittleEndian (← exactly width do fail (.truncated (← finish)))

/-- A text that is not ended by a zero byte is ended by the data; the byte behind it is not looked for then. -/
def terminatedText : GuardedReader String := do
  let c ← cursor
  let data ← guarded (Guard.sliceFrom c.data c.position)
  let length := data.findIdx (· = 0)
  let text ← guarded (Guard.sliceTo data length)
  let past ← guarded (Guard.add length 1)
  seek (← guarded (Guard.add c.position (min past data.length)))
  return Text.ofUtf8Lossy text

def bytes (n : Nat) : GuardedReader (List UInt8) :=
  exactly n do fail (.truncated (← offset))

def rest : GuardedReader (List UInt8) := do
  let c ← cursor
  let taken ← guarded (Guard.sliceFrom c.data (min c.position c.data.length))
  seek c.data.length
  return taken

/-! ## Parts of tags -/

def nameEntry : GuardedReader (Nat × String) := do
  let id ← number 2
  return (id, ← terminatedText)

def fontName (tag : Tag) : GuardedReader (Option String) := do
  if tag = Tag.defineFont2 || tag = Tag.defineFont3 then
    let _ ← number 1
    let _ ← number 1
    let name := Text.ofUtf8Lossy (← bytes (← number 1))
    return some (String.ofList (name.toList.reverse.dropWhile (· = '\x00')).reverse)
  else if tag = Tag.defineFont4 then
    let _ ← number 1
    return some (← terminatedText)
  else return none

def readAbc : GuardedReader (Nat × String × List UInt8) := do
  let flags ← number 4
  let name ← terminatedText
  return (flags, name, ← rest)

/-- The parts of a color are shifted into one word. -/
def readColor : GuardedReader Nat := do
  let color ← bytes 3
  let red ← guarded (Guard.index color 0)
  let green ← guarded (Guard.index color 1)
  let blue ← guarded (Guard.index color 2)
  return red.toNat <<< (← guarded (Guard.shift 32 16)) ||| green.toNat <<< (← guarded (Guard.shift 32 8)) |||
    blue.toNat

def readBinaryData (tag : Tag) : GuardedReader Symbol := do
  let id ← number 2
  let _ ← number 4
  return ⟨id, .binaryData, tag, none, (← cursor).remaining⟩

def readImage (tag : Tag) (length : Nat) : GuardedReader Symbol := do
  return ⟨← number 2, .image, tag, none, length⟩

def readFont (tag : Tag) (length : Nat) : GuardedReader Symbol := do
  let id ← number 2
  return ⟨id, .font, tag, ← fontName tag, length⟩

/-! ## No trap -/

theorem number_of_le {s : Source} {width : Nat} (h : width ≤ s.rest.length) :
    Reader.number width s = .ok (ofLittleEndian (s.rest.take width)) (s.skip width) := by
  change (if s.position + width ≠ (s.skip width).position then throw _ >>= _ else
    pure (ofLittleEndian (s.rest.take width)) : Reader Nat) (s.skip width) = _
  rw [if_neg (not_not_intro (Source.skip_reaches.2 h))]
  rfl

theorem number_of_lt {s : Source} {width : Nat} (h : s.rest.length < width) :
    Reader.number width s = .error (.truncated (s.skip width).position) (s.skip width) := by
  change (if s.position + width ≠ (s.skip width).position then throw _ >>= _ else
    pure (ofLittleEndian (s.rest.take width)) : Reader Nat) (s.skip width) = _
  rw [if_pos fun hreaches => Nat.not_le.2 h (Source.skip_reaches.1 hreaches)]
  rfl

theorem bytes_of_le {s : Source} {n : Nat} (h : n ≤ s.rest.length) :
    Reader.bytes n s = .ok (s.rest.take n) (s.skip n) := by
  change (if s.position + n ≠ (s.skip n).position then throw _ >>= _ else set (s.skip n) >>= fun _ =>
    pure (s.rest.take n) : Reader (List UInt8)) s = _
  rw [if_neg (not_not_intro (Source.skip_reaches.2 h))]
  rfl

theorem bytes_of_lt {s : Source} {n : Nat} (h : s.rest.length < n) :
    Reader.bytes n s = .error (.truncated s.position) s := by
  change (if s.position + n ≠ (s.skip n).position then throw _ >>= _ else set (s.skip n) >>= fun _ =>
    pure (s.rest.take n) : Reader (List UInt8)) s = _
  rw [if_pos fun hreaches => Nat.not_le.2 h (Source.skip_reaches.1 hreaches)]
  rfl

theorem number_apply {c : Cursor} (hc : c.Valid) {width : Nat} (h : width ≤ c.remaining) :
    number width c = some (.ok (ofLittleEndian (c.source.rest.take width), c.seek (c.position + width))) := by
  rw [number, bind_apply, exactly_of_le hc h]
  rfl

theorem follows_number (width : Nat) : Follows (number width) (Reader.number width) := by
  intro c hc
  by_cases hlong : width ≤ c.remaining
  · rw [number_of_le (by rwa [c.length_rest]), number_apply hc hlong, Cursor.source_skip hc hlong]
    exact .ok _ (hc.position_add hlong)
  · have hshort : c.remaining < width := Nat.lt_of_not_le hlong
    rw [number_of_lt (by rwa [c.length_rest]), number, bind_apply, exactly_of_lt hshort, finish_bind hc,
      Cursor.source_skip_all hc (Nat.le_of_lt hshort)]
    exact .error _ _

theorem follows_bytes (n : Nat) : Follows (bytes n) (Reader.bytes n) := by
  refine .exactly (fun _ => bytes_of_le) fun c hc hshort => ?_
  rw [bytes_of_lt (by rwa [c.length_rest]), offset_bind hc]
  exact .error _ _

theorem follows_rest : Follows rest Reader.rest := by
  intro c hc
  have hfrom : Guard.sliceFrom c.data (min c.position c.data.length) = some c.source.rest := by
    rw [Nat.min_eq_left hc.position, Guard.sliceFrom_eq hc.position, Cursor.source]
  have hread : rest c = some (.ok (c.source.rest, c.seek c.data.length)) := by
    change (guarded (Guard.sliceFrom c.data (min c.position c.data.length)) >>= fun taken =>
      seek c.data.length >>= fun _ => pure taken : GuardedReader (List UInt8)) c = _
    rw [hfrom]
    rfl
  have hall : Reader.rest c.source = .ok c.source.rest (c.source.skip c.source.rest.length) := rfl
  rw [hread, hall, Cursor.source_skip_all hc (Nat.le_of_eq c.length_rest.symm)]
  exact .ok _ (Nat.le_refl _)

theorem takeWhile_eq_take_findIdx (data : List UInt8) :
    data.takeWhile (· ≠ 0) = data.take (data.findIdx (· = 0)) := by
  rw [List.takeWhile_eq_take_findIdx_not]
  simp only [decide_not, Bool.not_not]

theorem follows_terminatedText : Follows terminatedText Reader.terminatedText := by
  intro c hc
  have hposition := hc.position
  have hroom := hc.room
  let length := c.source.rest.findIdx (· = 0)
  have hlength : length ≤ c.source.rest.length := List.findIdx_le_length
  have hremaining := c.length_rest
  have hfrom : Guard.sliceFrom c.data c.position = some c.source.rest := Guard.sliceFrom_eq hposition
  have hto : Guard.sliceTo c.source.rest length = some (c.source.rest.take length) := Guard.sliceTo_eq hlength
  -- Where no byte is zero the text is all there is, and one more lies behind the end; hence the minimum.
  have hpast : Guard.add length 1 = some (length + 1) := by
    refine Guard.add_eq ?_
    rw [hremaining, Cursor.remaining] at hlength
    omega
  have hstop : Guard.add c.position (min (length + 1) c.source.rest.length) =
      some (c.position + min (length + 1) c.remaining) := by
    rw [hremaining]
    refine Guard.add_eq ?_
    simp only [Cursor.remaining]
    omega
  have hread : terminatedText c = some (.ok (Text.ofUtf8Lossy (c.source.rest.take length),
      c.seek (c.position + min (length + 1) c.remaining))) := by
    simp only [terminatedText, cursor_bind_apply, hfrom, guarded_some_bind, length, hto, hpast, hstop]
    rfl
  have hmodel : Reader.terminatedText c.source =
      .ok (Text.ofUtf8Lossy (c.source.rest.take length)) (c.source.skip (length + 1)) := by
    have hwhile : c.source.rest.takeWhile (· ≠ 0) = c.source.rest.take length := takeWhile_eq_take_findIdx _
    have htaken : (c.source.rest.take length).length = length := List.length_take_of_le hlength
    change EStateM.Result.ok (Text.ofUtf8Lossy (c.source.rest.takeWhile (· ≠ 0)))
      (c.source.skip ((c.source.rest.takeWhile (· ≠ 0)).length + 1)) = _
    rw [hwhile, htaken]
  rw [hread, hmodel, Cursor.source_skip_min hc]
  refine .ok _ ?_
  simp only [Cursor.remaining]
  omega

theorem follows_nameEntry : Follows nameEntry (do
    let id ← Reader.number 2
    return (id, ← Reader.terminatedText)) :=
  (follows_number 2).bind fun _ => follows_terminatedText.bind fun _ => .pure _

theorem follows_fontName (tag : Tag) : Follows (fontName tag) (File.fontName tag) :=
  .ite (fun _ => (follows_number 1).bind fun _ => (follows_number 1).bind fun _ => (follows_number 1).bind fun n =>
      (follows_bytes n).bind fun _ => .pure _) fun _ =>
    .ite (fun _ => (follows_number 1).bind fun _ => follows_terminatedText.bind fun _ => .pure _) fun _ => .pure _

theorem follows_readAbc : Follows readAbc File.readAbc :=
  (follows_number 4).bind fun _ => follows_terminatedText.bind fun _ => follows_rest.bind fun _ => .pure _

theorem follows_readImage (tag : Tag) (length : Nat) : Follows (readImage tag length) (File.readImage tag length) :=
  (follows_number 2).bind fun _ => .pure _

theorem follows_readFont (tag : Tag) (length : Nat) : Follows (readFont tag length) (File.readFont tag length) :=
  (follows_number 2).bind fun _ => (follows_fontName tag).bind fun _ => .pure _

theorem follows_readBinaryData (tag : Tag) : Follows (readBinaryData tag) (File.readBinaryData tag) := by
  refine (follows_number 2).bind fun id => (follows_number 4).bind fun _ => .cursor_bind fun c hc => ?_
  have hremaining : c.source.remaining = c.remaining := c.length_rest
  rw [hremaining]
  exact .ok _ hc.position

theorem length_of_bytes {n : Nat} {s s' : Source} {taken : List UInt8} (h : Reader.bytes n s = .ok taken s') :
    taken.length = n := by
  by_cases hlong : n ≤ s.rest.length
  · rw [bytes_of_le hlong] at h
    cases h
    exact List.length_take_of_le hlong
  · rw [bytes_of_lt (Nat.lt_of_not_le hlong)] at h
    cases h

/-- The parts of a color do not overlap. -/
theorem color_eq (red green blue : UInt8) :
    red.toNat <<< 16 ||| green.toNat <<< 8 ||| blue.toNat =
      256 * (256 * (256 * 0 + red.toNat) + green.toNat) + blue.toNat := by
  have hgreen := green.toNat_lt
  have hblue := blue.toNat_lt
  have hupper : red.toNat <<< 16 ||| green.toNat <<< 8 = (red.toNat <<< 8 + green.toNat) <<< 8 := by
    rw [Nat.shiftLeft_add_eq_or_of_lt hgreen, Nat.shiftLeft_or_distrib, ← Nat.shiftLeft_add]
  rw [hupper, ← Nat.shiftLeft_add_eq_or_of_lt hblue, Nat.shiftLeft_eq, Nat.shiftLeft_eq]
  omega

theorem follows_readColor : Follows readColor File.readColor := by
  refine (follows_bytes 3).bind_of (·.length = 3) (fun _ _ _ => length_of_bytes) fun color hcolor => ?_
  obtain ⟨red, green, blue, rfl⟩ : ∃ red green blue, color = [red, green, blue] := by
    match color, hcolor with
    | [red, green, blue], _ => exact ⟨red, green, blue, rfl⟩
  -- Three bytes have been read, so the guards of the three indices and of both shifts let them through.
  refine .guarded_bind rfl (.guarded_bind rfl (.guarded_bind rfl (.guarded_bind rfl (.guarded_bind rfl ?_))))
  rw [color_eq]
  exact .pure _

end GuardedReader

/-! ## Tags -/

namespace File

open GuardedReader

/-- Up to `count` ids with a name each. What stands before a failure is kept. -/
def guardedNames : (count : Nat) → Cursor → Option (List (Nat × String) × Option Fault)
  | 0, _ => some ([], none)
  | count + 1, c =>
    match nameEntry c with
    | none => none
    | some (.error fault) => some ([], some fault)
    | some (.ok (entry, c)) => (guardedNames count c).map fun table => (entry :: table.1, table.2)

def guardedNameTable (c : Cursor) : Option (List (Nat × String) × Option Fault) :=
  match number 2 c with
  | none => none
  | some (.error fault) => some ([], some fault)
  | some (.ok (count, c)) => guardedNames count c

/-- What becomes of a file with what a guarded reader reads. -/
def guardedRead {α : Type} (f : File) (c : Cursor) (reader : GuardedReader α) (use : α → File × Option Symbol) :
    Option (File × Except Fault (Option Symbol)) :=
  match reader c with
  | none => none
  | some (.error fault) => some (f, .error fault)
  | some (.ok (x, _)) => some ((use x).1, .ok (use x).2)

/-- What becomes of a file with a table of names. -/
def guardedTable (c : Cursor) (use : List (Nat × String) → File) : Option (File × Except Fault (Option Symbol)) :=
  (guardedNameTable c).map fun table =>
    (use table.1, match table.2 with | some fault => .error fault | none => .ok none)

/-- The file after a tag with this body, which stands at the place `base`, and the symbol to announce. -/
def guardedDecode (f : File) (tag : Tag) (body : List UInt8) (base : Nat) :
    Option (File × Except Fault (Option Symbol)) :=
  let c : Cursor := ⟨body, base, 0⟩
  if tag = Tag.finish then some (f.close, .ok none)
  else if tag = Tag.showFrame then some (f.closeFrame, .ok none)
  else if tag = Tag.doAbc then
    f.guardedRead c GuardedReader.readAbc fun (flags, name, data) => (f.addBlock name flags data, none)
  else if tag = Tag.doAbcDefine then f.guardedRead c rest fun data => (f.addBlock "" 0 data, none)
  else if tag = Tag.symbolClass then
    guardedTable c fun names => { f with symbolClasses := f.symbolClasses ++ names }
  else if tag = Tag.exportAssets then guardedTable c fun names => { f with exports := f.exports ++ names }
  else if tag = Tag.frameLabel then
    f.guardedRead c terminatedText fun label => ({ f with openFrame := { f.openFrame with label := some label } }, none)
  else if tag = Tag.fileAttributes then
    f.guardedRead c (number 4) fun flags => ({ f with attributes := some flags }, none)
  else if tag = Tag.setBackgroundColor then
    f.guardedRead c GuardedReader.readColor fun color => ({ f with backgroundColor := some color }, none)
  else if tag = Tag.defineBinaryData then
    f.guardedRead c (GuardedReader.readBinaryData tag) fun symbol => (f.define symbol, none)
  else if tag.isImage then
    f.guardedRead c (GuardedReader.readImage tag body.length) fun symbol => (f.define symbol, some symbol)
  else if tag.isFont then
    f.guardedRead c (GuardedReader.readFont tag body.length) fun symbol => (f.define symbol, some symbol)
  else some ({ f with openFrame := { f.openFrame with tagCount := f.openFrame.tagCount + 1 } }, .ok none)

/-- Adds a tag that stands at the place `offset`. -/
def guardedAdd (f : File) (raw : RawTag) (offset : Nat) : Option (File × Except Fault (Option Symbol)) := do
  let f := { f with tags := f.tags.push ⟨raw.tag, offset, raw.body.length⟩ }
  let base ← Guard.add offset raw.headerSize
  match ← f.guardedDecode raw.tag raw.body base with
  | (f, .ok symbol) => some (f, .ok symbol)
  | (f, .error fault) => some (f, .error (.malformedTag raw.tag.name offset fault.message))

/-! ### No trap -/

variable {c : Cursor}

theorem guardedNames_eq (hc : c.Valid) (count : Nat) : guardedNames count c = some (readNames count c.source) := by
  induction count generalizing c with
  | zero => rfl
  | succ count ih =>
    -- What has been read before a fault is in the table, so the table is compared and not only the outcome.
    have hentry := follows_nameEntry c hc
    rw [guardedNames, readNames]
    dsimp only
    generalize (do
      let id ← Reader.number 2
      return (id, ← Reader.terminatedText) : Reader (Nat × String)) c.source = result at hentry ⊢
    generalize nameEntry c = out at hentry ⊢
    cases hentry with
    | error fault s => rfl
    | @ok entry position hposition =>
      dsimp only
      rw [ih (hc.seek hposition)]
      rfl

theorem guardedNameTable_eq (hc : c.Valid) : guardedNameTable c = some (readNameTable c.source) := by
  have hcount := follows_number 2 c hc
  rw [guardedNameTable, readNameTable]
  generalize Reader.number 2 c.source = result at hcount ⊢
  generalize number 2 c = out at hcount ⊢
  cases hcount with
  | error fault s => rfl
  | @ok count position hposition => exact guardedNames_eq (hc.seek hposition) count

theorem guardedRead_eq {α : Type} {reader : GuardedReader α} {model : Reader α} (h : Follows reader model)
    (hc : c.Valid) (f : File) (use : α → File × Option Symbol) :
    f.guardedRead c reader use = some (match model c.source with
      | .ok x _ => ((use x).1, .ok (use x).2)
      | .error fault _ => (f, .error fault)) := by
  have hread := h c hc
  rw [guardedRead]
  generalize model c.source = result at hread ⊢
  generalize reader c = out at hread ⊢
  cases hread <;> rfl

theorem guardedTable_eq (hc : c.Valid) (use : List (Nat × String) → File) :
    guardedTable c use = some (use (readNameTable c.source).1, match (readNameTable c.source).2 with
      | some fault => .error fault
      | none => .ok none) := by
  rw [guardedTable, guardedNameTable_eq hc]
  rfl

theorem ite_eq_some {α : Type} {p : Prop} [Decidable p] {x y : Option α} {a b : α} (h : x = some a)
    (h' : y = some b) : (if p then x else y) = some (if p then a else b) := by
  rw [h, h', apply_ite some]

variable {body : List UInt8} {base : Nat}

theorem guardedDecode_eq (f : File) (tag : Tag) (hroom : base + body.length < 2 ^ 63) :
    f.guardedDecode tag body base = some (f.decode tag ⟨base, body⟩) := by
  have hc : Cursor.Valid ⟨body, base, 0⟩ := ⟨Nat.zero_le _, hroom⟩
  have hread {α : Type} {reader : GuardedReader α} {model : Reader α} (h : Follows reader model)
      (use : α → File × Option Symbol) := guardedRead_eq h hc f use
  -- Both decoders ask for the kinds of tags in the same order.
  unfold guardedDecode decode
  refine ite_eq_some rfl (ite_eq_some rfl (ite_eq_some (hread follows_readAbc _) ?_))
  refine ite_eq_some (hread follows_rest _) (ite_eq_some (guardedTable_eq hc _) (ite_eq_some (guardedTable_eq hc _) ?_))
  refine ite_eq_some (hread follows_terminatedText _) (ite_eq_some (hread (follows_number 4) _) ?_)
  refine ite_eq_some (hread follows_readColor _) (ite_eq_some (hread (follows_readBinaryData tag) _) ?_)
  exact ite_eq_some (hread (follows_readImage tag _) _) (ite_eq_some (hread (follows_readFont tag _) _) rfl)

/-- A tag that ends where places still have room is added, and its place is the end of the tags before it. -/
theorem guardedAdd_eq (f : File) (raw : RawTag) (hroom : f.bytesLoaded + raw.size < 2 ^ 63) :
    ∃ g outcome, f.guardedAdd raw f.bytesLoaded = some (g, outcome) ∧
      f.add raw = (match outcome with
        | .ok _ => { g with bytesLoaded := f.bytesLoaded + raw.size }
        | .error _ => g, outcome) := by
  rw [RawTag.size] at hroom
  let recorded : File := { f with tags := f.tags.push ⟨raw.tag, f.bytesLoaded, raw.body.length⟩ }
  have hbase : Guard.add f.bytesLoaded raw.headerSize = some (f.bytesLoaded + raw.headerSize) := Guard.add_eq (by omega)
  have hdecode : recorded.guardedDecode raw.tag raw.body (f.bytesLoaded + raw.headerSize) =
      some (recorded.decode raw.tag ⟨f.bytesLoaded + raw.headerSize, raw.body⟩) := guardedDecode_eq _ _ (by omega)
  rw [guardedAdd, hbase, add]
  dsimp only [Option.bind_eq_bind, Option.bind_some]
  rw [hdecode, Option.bind_some]
  obtain ⟨g, fault | symbol⟩ := recorded.decode raw.tag ⟨f.bytesLoaded + raw.headerSize, raw.body⟩
  · exact ⟨_, _, rfl, rfl⟩
  · exact ⟨_, _, rfl, rfl⟩

end File

end MovieVm.Movie
