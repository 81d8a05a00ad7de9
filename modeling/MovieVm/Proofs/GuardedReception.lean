import MovieVm.Proofs.Chunks
import MovieVm.Proofs.GuardedBounds
import MovieVm.Proofs.TagRecords

/-!
# Files received under guard

The bytes of a file as they are kept and cut up: the preamble, the window of the header, and the tags one after the
other. No bytes of a plain file make any of this trap, however they arrive.
-/

namespace MovieVm.Movie

open Guarded

/-! ## Buffers -/

/-- What has arrived of a file: its preamble, what that declares, and the body behind it. -/
structure Buffer where
  preamble : List UInt8 := []
  declared : Preamble := ⟨false, 0, 0⟩
  intake : Intake := .plain
  body : List UInt8 := []

namespace Buffer

/-- What a preamble declares once its signature is known. -/
def guardedDeclaration (compressed : Bool) (bytes : List UInt8) : Option (Except Fault Preamble) := do
  let version ← Guard.index bytes 3
  let fileLength ← Guard.word 4 (← Guard.slice bytes 4 8)
  return .ok ⟨compressed, version, fileLength⟩

def guardedPreamble (bytes : List UInt8) : Option (Except Fault Preamble) := do
  let signature := Text.ofUtf8Lossy (← Guard.sliceTo bytes 3)
  if signature = "FWS" then guardedDeclaration false bytes
  else if signature = "CWS" then guardedDeclaration true bytes
  else if signature = "ZWS" then return .error (.unsupportedCompression "LZMA")
  else return .error (.invalidSignature signature)

/-- Adds bytes to the body. -/
def extend (b : Buffer) (data : List UInt8) : Except Fault Buffer :=
  (b.intake.push data).map fun (added, intake) => { b with intake, body := b.body ++ added }

/-- Takes bytes, those first that are missing from the preamble. -/
def push (b : Buffer) (data : List UInt8) : Option (Except Fault Buffer) := do
  if b.preamble.length < Preamble.size then
    let missing ← Guard.sub Preamble.size b.preamble.length
    let taken := min missing data.length
    let preamble := b.preamble ++ (← Guard.sliceTo data taken)
    let data ← Guard.sliceFrom data taken
    if preamble.length < Preamble.size then return .ok { b with preamble }
    match ← guardedPreamble preamble with
    | .error fault => return .error fault
    | .ok declared =>
      let intake := if declared.compressed then Intake.deflated {} else .plain
      return { b with preamble, declared, intake }.extend data
  else return b.extend data

/-- A buffer of a plain file of which `more` is still to arrive. -/
structure Valid (b : Buffer) (more : List UInt8) : Prop where
  short : b.preamble.length ≤ Preamble.size
  begun : b.preamble.length < Preamble.size → b.body = [] ∧ b.declared.fileLength = 0
  intake : b.intake = .plain
  plain : (b.preamble ++ b.body ++ more).take 3 ≠ Draft.signature true
  room : (b.preamble ++ b.body ++ more).length < 2 ^ 63

variable {b : Buffer} {data more : List UInt8}

theorem guardedPreamble_eq {bytes : List UInt8} (h : bytes.length = Preamble.size) :
    guardedPreamble bytes = some (Preamble.ofBytes bytes) := by
  have hlength : bytes.length = 8 := h
  have hsignature : Guard.sliceTo bytes 3 = some (bytes.take 3) := Guard.sliceTo_eq (by omega)
  have hdeclaration (compressed : Bool) : guardedDeclaration compressed bytes =
      some (.ok ⟨compressed, bytes[3]?.getD 0, ofLittleEndian ((bytes.drop 4).take 4)⟩) := by
    have hversion : Guard.index bytes 3 = some (bytes[3]?.getD 0) := by
      rw [Guard.index, List.getElem?_eq_getElem (by omega), Option.getD_some]
    have hslice : Guard.slice bytes 4 8 = some ((bytes.drop 4).take 4) := Guard.slice_eq (by decide) (by omega)
    have hword : Guard.word 4 ((bytes.drop 4).take 4) = some (ofLittleEndian ((bytes.drop 4).take 4)) := by
      rw [Guard.word_eq (by rw [List.length_take, List.length_drop]; omega), List.take_take, Nat.min_self]
    rw [guardedDeclaration, hversion, hslice]
    simp only [Option.bind_eq_bind, Option.bind_some, hword]
    rfl
  -- All eight bytes are there before the first of them is looked at, whatever the signature turns out to be.
  rw [guardedPreamble, hsignature, Preamble.ofBytes]
  simp only [Option.bind_eq_bind, Option.bind_some, hdeclaration]
  repeat' split
  all_goals rfl

theorem push_of_short (hshort : (b.preamble ++ data).length < Preamble.size) :
    b.push data = some (.ok { b with preamble := b.preamble ++ data }) := by
  have hlengths : b.preamble.length + data.length < 8 := by rwa [List.length_append] at hshort
  have htaken : min (Preamble.size - b.preamble.length) data.length = data.length :=
    Nat.min_eq_right (Nat.le_sub_of_add_le (by change _ ≤ 8; omega))
  have hbegun : b.preamble.length < Preamble.size := by change _ < 8; omega
  rw [push, if_pos hbegun, Guard.sub_eq (Nat.le_of_lt hbegun)]
  simp only [Option.bind_eq_bind, Option.bind_some, htaken, Guard.sliceTo_eq (Nat.le_refl _), List.take_length,
    Guard.sliceFrom_eq (Nat.le_refl _), if_pos hshort]
  rfl

/-- The buffer with which a preamble is complete. -/
def opened (bytes : List UInt8) (declared : Preamble) : Buffer where
  preamble := bytes.take Preamble.size
  declared
  body := bytes.drop Preamble.size

theorem push_of_begun (hb : b.Valid (data ++ more)) (hbegun : b.preamble.length < Preamble.size)
    (hlong : Preamble.size ≤ (b.preamble ++ data).length) :
    b.push data = some ((Preamble.ofBytes (b.preamble ++ data)).map (opened (b.preamble ++ data))) := by
  obtain ⟨hbody, -⟩ := hb.begun hbegun
  let taken := Preamble.size - b.preamble.length
  have hlengths : taken ≤ data.length := by
    rw [List.length_append] at hlong
    omega
  have htaken : min taken data.length = taken := Nat.min_eq_left hlengths
  have hwhole : b.preamble ++ data.take taken = (b.preamble ++ data).take Preamble.size := by
    rw [List.take_append, List.take_of_length_le (Nat.le_of_lt hbegun)]
  have hrest : data.drop taken = (b.preamble ++ data).drop Preamble.size := by
    rw [List.drop_append, List.drop_eq_nil_of_le (Nat.le_of_lt hbegun), List.nil_append]
  have hlength : ((b.preamble ++ data).take Preamble.size).length = Preamble.size := List.length_take_of_le hlong
  have hdeclared : Preamble.ofBytes ((b.preamble ++ data).take Preamble.size) =
      Preamble.ofBytes (b.preamble ++ data) := by
    have happend := Preamble.ofBytes_append (Nat.le_of_eq hlength.symm) ((b.preamble ++ data).drop Preamble.size)
    rwa [List.take_append_drop, eq_comm] at happend
  rw [push, if_pos hbegun, Guard.sub_eq (Nat.le_of_lt hbegun)]
  simp only [Option.bind_eq_bind, Option.bind_some]
  change (Guard.sliceTo data (min taken data.length)).bind _ = _
  rw [htaken, Guard.sliceTo_eq hlengths, Option.bind_some, Guard.sliceFrom_eq hlengths, Option.bind_some, hwhole, hrest,
    if_neg (Nat.not_lt.2 (Nat.le_of_eq hlength.symm)), guardedPreamble_eq hlength, hdeclared, Option.bind_some]
  cases hofBytes : Preamble.ofBytes (b.preamble ++ data) with
  | error fault => rfl
  | ok declared =>
    have hplain : (b.preamble ++ data ++ more).take 3 ≠ Draft.signature true := by
      have hplain := hb.plain
      rwa [hbody, List.append_nil, ← List.append_assoc] at hplain
    have hcompressed := Preamble.not_compressed_of_ofBytes hofBytes hlong hplain
    simp only [hcompressed, extend, hbody]
    rfl

theorem push_of_whole (hb : b.Valid (data ++ more)) (hwhole : b.preamble.length = Preamble.size) :
    b.push data = some (.ok { b with body := b.body ++ data }) := by
  have hlast : ¬b.preamble.length < Preamble.size := by
    rw [hwhole]
    exact Nat.lt_irrefl _
  rw [push, if_neg hlast]
  obtain ⟨preamble, declared, intake, body⟩ := b
  obtain rfl : intake = .plain := hb.intake
  rfl

theorem Valid.of_short (hb : b.Valid (data ++ more)) (hshort : (b.preamble ++ data).length < Preamble.size) :
    Valid { b with preamble := b.preamble ++ data } more := by
  have hbegun : b.preamble.length < Preamble.size := by
    rw [List.length_append] at hshort
    omega
  obtain ⟨hbody, hdeclared⟩ := hb.begun hbegun
  have hcontents : b.preamble ++ b.body ++ (data ++ more) = b.preamble ++ data ++ b.body ++ more := by
    simp only [hbody, List.append_nil, List.append_assoc]
  exact ⟨Nat.le_of_lt hshort, fun _ => ⟨hbody, hdeclared⟩, hb.intake, hcontents ▸ hb.plain,
    hcontents ▸ hb.room⟩

theorem Valid.of_begun (hb : b.Valid (data ++ more)) (hbegun : b.preamble.length < Preamble.size)
    (hlong : Preamble.size ≤ (b.preamble ++ data).length) (declared : Preamble) :
    (opened (b.preamble ++ data) declared).Valid more := by
  obtain ⟨hbody, -⟩ := hb.begun hbegun
  have hlength : ((b.preamble ++ data).take Preamble.size).length = Preamble.size := List.length_take_of_le hlong
  have hcontents : b.preamble ++ b.body ++ (data ++ more) =
      (b.preamble ++ data).take Preamble.size ++ (b.preamble ++ data).drop Preamble.size ++ more := by
    simp only [List.take_append_drop, hbody, List.append_nil, List.append_assoc]
  have hlast : ¬((b.preamble ++ data).take Preamble.size).length < Preamble.size :=
    Nat.not_lt.2 (Nat.le_of_eq hlength.symm)
  exact ⟨Nat.le_of_eq hlength, fun h => absurd h hlast, rfl, hcontents ▸ hb.plain, hcontents ▸ hb.room⟩

theorem Valid.of_whole (hb : b.Valid (data ++ more)) (hwhole : b.preamble.length = Preamble.size) :
    Valid { b with body := b.body ++ data } more := by
  have hcontents : b.preamble ++ b.body ++ (data ++ more) = b.preamble ++ (b.body ++ data) ++ more := by
    simp only [List.append_assoc]
  exact ⟨hb.short, fun h => absurd h (Nat.not_lt.2 (Nat.le_of_eq hwhole.symm)), hb.intake, hcontents ▸ hb.plain,
    hcontents ▸ hb.room⟩

/-- The body alone is shorter than all bytes. -/
theorem Valid.body_room (hb : b.Valid more) : b.preamble.length + b.body.length < 2 ^ 63 := by
  have hroom := hb.room
  simp only [List.length_append] at hroom
  omega

end Buffer

/-! ## Parsers -/

/-- A parser keeps what has arrived, the place in the body up to which it has read, and the file so far. -/
structure Parser where
  buffer : Buffer := {}
  position : Nat := 0
  file? : Option File := none

namespace Parser

/-- What a parser has received. -/
def reception (p : Parser) : Reception :=
  if p.buffer.preamble.length < Preamble.size then .preamble p.buffer.preamble
  else
    match p.file? with
    | none => .header p.buffer.declared p.buffer.intake p.buffer.body
    | some file => .tags p.buffer.intake file (p.buffer.body.drop p.position)

/-- The file has read what stands before the place in the body. -/
structure Reads (p : Parser) (file : File) : Prop where
  preamble : p.buffer.preamble.length = Preamble.size
  position : p.position ≤ p.buffer.body.length
  bytesLoaded : file.bytesLoaded = Preamble.size + p.position
  fileLength : file.header.fileLength = p.buffer.declared.fileLength

/-- A parser of a plain file of which `more` is still to arrive. -/
structure Valid (p : Parser) (more : List UInt8) : Prop where
  buffer : p.buffer.Valid more
  reads : ∀ file, p.file? = some file → p.Reads file

variable {p : Parser} {data more : List UInt8} {file : File}

theorem Valid.unread (hp : p.Valid more) (hbegun : p.buffer.preamble.length < Preamble.size) : p.file? = none := by
  cases hfile : p.file? with
  | none => rfl
  | some file => exact absurd hbegun (by rw [(hp.reads file hfile).preamble]; exact Nat.lt_irrefl _)

theorem Valid.whole (hp : p.Valid more) (hbegun : ¬p.buffer.preamble.length < Preamble.size) :
    p.buffer.preamble.length = Preamble.size :=
  Nat.le_antisymm hp.buffer.short (Nat.le_of_not_lt hbegun)

theorem reception_of_begun (h : p.buffer.preamble.length < Preamble.size) :
    p.reception = .preamble p.buffer.preamble :=
  if_pos h

theorem reception_of_unread (h : p.buffer.preamble.length = Preamble.size) (hfile : p.file? = none) :
    p.reception = .header p.buffer.declared p.buffer.intake p.buffer.body := by
  rw [reception, if_neg (by rw [h]; exact Nat.lt_irrefl _), hfile]

theorem reception_of_read (h : p.Reads file) (hfile : p.file? = some file) :
    p.reception = .tags p.buffer.intake file (p.buffer.body.drop p.position) := by
  rw [reception, if_neg (by rw [h.preamble]; exact Nat.lt_irrefl _), hfile]

/-- What a parser makes of bytes that arrive: a fault, or a parser to which `more` bytes are still to come. -/
inductive Pushes (p : Parser) (data more : List UInt8) : Option (Except Fault Buffer) → Prop where
  | fault {fault : Fault} (h : p.reception.push data = .error fault) : Pushes p data more (some (.error fault))
  | taken {buffer : Buffer} (h : p.reception.push data = .ok (Parser.reception { p with buffer }))
    (hvalid : Parser.Valid { p with buffer } more) : Pushes p data more (some (.ok buffer))

theorem pushes_of_short (hp : p.Valid (data ++ more)) (hshort : (p.buffer.preamble ++ data).length < Preamble.size) :
    p.Pushes data more (p.buffer.push data) := by
  have hbegun : p.buffer.preamble.length < Preamble.size := by
    rw [List.length_append] at hshort
    omega
  have hpush : p.reception.push data = .ok (.preamble (p.buffer.preamble ++ data)) := by
    rw [reception_of_begun hbegun, Reception.push, if_pos hshort]
    rfl
  rw [Buffer.push_of_short hshort]
  refine .taken ?_ ⟨hp.buffer.of_short hshort, fun file hread => absurd ((hp.unread hbegun).symm.trans hread) (by simp)⟩
  rw [hpush, reception_of_begun (p := { p with buffer := _ }) hshort]

/-- The bytes that complete a preamble may have the first ones of the body behind them. -/
theorem pushes_of_begun (hp : p.Valid (data ++ more)) (hbegun : p.buffer.preamble.length < Preamble.size)
    (hlong : Preamble.size ≤ (p.buffer.preamble ++ data).length) : p.Pushes data more (p.buffer.push data) := by
  have hfile := hp.unread hbegun
  have hwhole : ¬(p.buffer.preamble ++ data).length < Preamble.size := Nat.not_lt.2 hlong
  rw [Buffer.push_of_begun hp.buffer hbegun hlong]
  cases hofBytes : Preamble.ofBytes (p.buffer.preamble ++ data) with
  | error fault =>
    refine .fault ?_
    rw [reception_of_begun hbegun, Reception.push, if_neg hwhole, hofBytes, Except.error_bind]
  | ok declared =>
    have hopened := hp.buffer.of_begun hbegun hlong declared
    have hlength : (Buffer.opened (p.buffer.preamble ++ data) declared).preamble.length = Preamble.size :=
      List.length_take_of_le hlong
    have hplain : (p.buffer.preamble ++ data ++ more).take 3 ≠ Draft.signature true := by
      have hplain := hopened.plain
      rwa [Buffer.opened, List.take_append_drop] at hplain
    have hcompressed := Preamble.not_compressed_of_ofBytes hofBytes hlong hplain
    have hafter := reception_of_unread (p := { p with buffer := .opened (p.buffer.preamble ++ data) declared })
      hlength hfile
    refine .taken ?_ ⟨hopened, fun file hread => absurd (hfile.symm.trans hread) (by simp)⟩
    rw [hafter, reception_of_begun hbegun, Reception.push, if_neg hwhole, hofBytes, Except.ok_bind]
    simp only [hcompressed]
    rfl

/-- Behind the preamble all bytes go to the body, and what has been read of it stays. -/
theorem pushes_of_whole (hp : p.Valid (data ++ more)) (hwhole : p.buffer.preamble.length = Preamble.size) :
    p.Pushes data more (p.buffer.push data) := by
  let after : Parser := { p with buffer := { p.buffer with body := p.buffer.body ++ data } }
  have hbuffer : after.buffer.Valid more := hp.buffer.of_whole hwhole
  rw [Buffer.push_of_whole hp.buffer hwhole]
  cases hfile : p.file? with
  | none =>
    have hafter := reception_of_unread (p := after) hwhole hfile
    refine .taken ?_ ⟨hbuffer, fun file hread => absurd (hfile.symm.trans hread) (by simp)⟩
    rw [hafter, reception_of_unread hwhole hfile, hp.buffer.intake]
    rfl
  | some file =>
    have hreads := hp.reads file hfile
    have hposition : p.position ≤ (p.buffer.body ++ data).length := by
      rw [List.length_append]
      exact Nat.le_add_right_of_le hreads.position
    have hlater : after.Reads file := ⟨hwhole, hposition, hreads.bytesLoaded, hreads.fileLength⟩
    refine .taken ?_ ⟨hbuffer, fun file' hread => Option.some.inj (hfile.symm.trans hread) ▸ hlater⟩
    rw [reception_of_read hreads hfile, reception_of_read hlater hfile, hp.buffer.intake,
      List.drop_append_of_le_length hreads.position]
    rfl

theorem pushes (hp : p.Valid (data ++ more)) : p.Pushes data more (p.buffer.push data) := by
  by_cases hbegun : p.buffer.preamble.length < Preamble.size
  · by_cases hshort : (p.buffer.preamble ++ data).length < Preamble.size
    · exact pushes_of_short hp hshort
    · exact pushes_of_begun hp hbegun (Nat.le_of_not_lt hshort)
  · exact pushes_of_whole hp (hp.whole hbegun)

/-! ### The header -/

/-- The frame rate and the number of frames. -/
def frameFields : GuardedReader (Double × Nat) := do
  return (Reader.fixedPoint (← GuardedReader.number 2), ← GuardedReader.number 2)

/-- The parser once it has read the header; nothing while bytes are missing. -/
def readHeader (p : Parser) : Option (Except Fault (Option Parser)) :=
  if p.file?.isSome then some (.ok (some p))
  else if p.buffer.preamble.length < Preamble.size then some (.ok none)
  else
    match p.buffer.body with
    | [] => some (.ok none)
    | first :: _ => do
      let size := Rect.encodedSize first
      let stop ← Guard.add size 4
      if p.buffer.body.length < stop then return .ok none
      match ← GuardedReader.rect ⟨← Guard.sliceTo p.buffer.body size, Preamble.size, 0⟩ with
      | .error fault => return .error fault
      | .ok (bounds, _) =>
        let base ← Guard.add Preamble.size size
        match ← frameFields ⟨← Guard.slice p.buffer.body size stop, base, 0⟩ with
        | .error fault => return .error fault
        | .ok ((frameRate, frameCount), _) =>
          let header : Header := {
            compressed := p.buffer.declared.compressed
            version := p.buffer.declared.version
            fileLength := p.buffer.declared.fileLength
            bounds, frameRate, frameCount }
          let bytesLoaded ← Guard.add Preamble.size stop
          return .ok (some { p with position := stop, file? := some { header, bytesLoaded } })

theorem encodedSize_le (first : UInt8) : Rect.encodedSize first ≤ 17 := by
  have hfirst := first.toNat_lt
  rw [Rect.encodedSize]
  omega

theorem frameFields_eq {fields : List UInt8} {base : Nat} (hlength : fields.length = 4) (hbase : base + 4 < 2 ^ 63) :
    ∃ c, frameFields ⟨fields, base, 0⟩ = some (.ok ((Reader.fixedPoint (ofLittleEndian (fields.take 2)),
      ofLittleEndian ((fields.drop 2).take 2)), c)) := by
  let c : Cursor := ⟨fields, base, 0⟩
  have hc : c.Valid := ⟨Nat.zero_le _, hlength ▸ hbase⟩
  have hc' : (c.seek 2).Valid := hc.seek (by change 2 ≤ fields.length; omega)
  have hrate : GuardedReader.number 2 c = some (.ok (ofLittleEndian (fields.take 2), c.seek 2)) :=
    GuardedReader.number_apply hc (by change 2 ≤ fields.length - 0; omega)
  have hcount : GuardedReader.number 2 (c.seek 2) = some (.ok (ofLittleEndian ((fields.drop 2).take 2), c.seek 4)) :=
    GuardedReader.number_apply hc' (by change 2 ≤ fields.length - 2; omega)
  refine ⟨c.seek 4, ?_⟩
  change frameFields c = _
  rw [frameFields, bind_apply, hrate]
  dsimp only
  rw [bind_apply, hcount]
  rfl

/-- The parser behind a header that begins with these bounds. -/
def behindHeader (p : Parser) (size : Nat) (bounds : Rect) : Parser :=
  { p with position := size + 4, file? := some (p.buffer.declared.openedFile size p.buffer.body bounds) }

/-- A header that is all there is read from two windows of the body. -/
theorem readHeader_of_long (hwhole : p.buffer.preamble.length = Preamble.size) (hfile : p.file? = none) {first : UInt8}
    {rest : List UInt8} {bounds : Rect} (hbody : p.buffer.body = first :: rest)
    (hlong : Rect.encodedSize first + 4 ≤ p.buffer.body.length)
    (hread : Rect.decode (p.buffer.body.take (Rect.encodedSize first)) Preamble.size = .ok bounds) :
    p.readHeader = some (.ok (some (p.behindHeader (Rect.encodedSize first) bounds))) := by
  have hsize := encodedSize_le first
  have hlast : ¬p.buffer.preamble.length < Preamble.size := by
    rw [hwhole]
    exact Nat.lt_irrefl _
  have hpreamble : Preamble.size = 8 := rfl
  have hwindow : (p.buffer.body.take (Rect.encodedSize first)).length = Rect.encodedSize first :=
    List.length_take_of_le (Nat.le_of_add_right_le hlong)
  have hbits : Preamble.size + 8 * (p.buffer.body.take (Rect.encodedSize first)).length < 2 ^ 63 := by
    rw [hwindow]
    omega
  have hlength : ((p.buffer.body.drop (Rect.encodedSize first)).take 4).length = 4 :=
    List.length_take_of_le (by rw [List.length_drop]; omega)
  have hslice : Guard.slice p.buffer.body (Rect.encodedSize first) (Rect.encodedSize first + 4) =
      some ((p.buffer.body.drop (Rect.encodedSize first)).take 4) := by
    rw [Guard.slice_eq (Nat.le_add_right _ _) hlong, Nat.add_sub_cancel_left]
  have hrate : ((p.buffer.body.drop (Rect.encodedSize first)).take 4).take 2 =
      (p.buffer.body.drop (Rect.encodedSize first)).take 2 := List.take_take
  have hcount : (((p.buffer.body.drop (Rect.encodedSize first)).take 4).drop 2).take 2 =
      (p.buffer.body.drop (Rect.encodedSize first + 2)).take 2 := by
    rw [List.drop_take, List.take_take, List.drop_drop]
    rfl
  obtain ⟨c, hrect⟩ := GuardedReader.rect_of_decode hbits hread
  have hbase : Preamble.size + Rect.encodedSize first + 4 < 2 ^ 63 := by omega
  obtain ⟨c', hfields⟩ := frameFields_eq hlength hbase
  rw [readHeader, hfile, if_neg (by simp), if_neg hlast, hbody]
  dsimp only
  rw [← hbody, Guard.add_eq (by omega)]
  simp only [Option.bind_eq_bind, Option.bind_some]
  rw [if_neg (Nat.not_lt.2 hlong), Guard.sliceTo_eq (Nat.le_of_add_right_le hlong), Option.bind_some, hrect]
  simp only [Option.bind_some]
  rw [Guard.add_eq (by omega), Option.bind_some, hslice, Option.bind_some, hfields]
  simp only [Option.bind_some]
  rw [Guard.add_eq (by omega), Option.bind_some, hrate, hcount]
  rfl

theorem readHeader_of_short (hwhole : p.buffer.preamble.length = Preamble.size) (hfile : p.file? = none)
    (hshort : ∀ first rest, p.buffer.body = first :: rest → p.buffer.body.length < Rect.encodedSize first + 4) :
    p.readHeader = some (.ok none) := by
  have hlast : ¬p.buffer.preamble.length < Preamble.size := by
    rw [hwhole]
    exact Nat.lt_irrefl _
  rw [readHeader, hfile, if_neg (by simp), if_neg hlast]
  cases hbody : p.buffer.body with
  | nil => rfl
  | cons first rest =>
    have hsize := encodedSize_le first
    have hshort := hshort first rest hbody
    dsimp only
    rw [← hbody, Guard.add_eq (by omega)]
    simp only [Option.bind_eq_bind, Option.bind_some, if_pos hshort]
    rfl

/-- What the header is to a parser that has all of the preamble and no file: awaited or read. -/
inductive Opens (p : Parser) (more : List UInt8) : Option (Except Fault (Option Parser)) → Prop where
  | awaits (h : p.buffer.declared.readHeader p.buffer.body = .ok none) : Opens p more (some (.ok none))
  | reads {p' : Parser} {file : File} (hfile : p'.file? = some file) (hbuffer : p'.buffer = p.buffer)
    (h : p.buffer.declared.readHeader p.buffer.body = .ok (some (file, p'.buffer.body.drop p'.position)))
    (hvalid : p'.Valid more) : Opens p more (some (.ok (some p')))

theorem opens (hp : p.Valid more) (hwhole : p.buffer.preamble.length = Preamble.size) (hfile : p.file? = none) :
    p.Opens more p.readHeader := by
  cases hbody : p.buffer.body with
  | nil =>
    rw [readHeader_of_short hwhole hfile fun first rest h => by cases hbody.symm.trans h]
    refine .awaits ?_
    rw [hbody]
    rfl
  | cons first rest =>
    have hfirst : p.buffer.body.head? = some first := by rw [hbody]; rfl
    by_cases hshort : p.buffer.body.length < Rect.encodedSize first + 4
    · rw [readHeader_of_short hwhole hfile fun first' rest' h => (List.cons.inj (hbody.symm.trans h)).1 ▸ hshort]
      exact .awaits (Preamble.readHeader_of_short hshort hfirst)
    · have hlong := Nat.le_of_not_lt hshort
      -- The size of the bounds stands in their first byte, so a window of this size never ends too early.
      obtain ⟨bounds, hread, -⟩ := Rect.exists_decode_take hfirst (Nat.le_of_add_right_le hlong)
      have hopened : p.buffer.declared.readHeader p.buffer.body = .ok (some (p.buffer.declared.openedFile
          (Rect.encodedSize first) p.buffer.body bounds, p.buffer.body.drop (Rect.encodedSize first + 4))) := by
        rw [Preamble.readHeader_of_long hlong hfirst, hread]
        rfl
      rw [readHeader_of_long hwhole hfile hbody hlong (hread _)]
      exact .reads rfl rfl hopened ⟨hp.buffer, fun file h => Option.some.inj h ▸ ⟨hwhole, hlong, rfl, rfl⟩⟩

end Parser

/-! ### Tags -/

namespace File

/-- The tag that a header of this size and this length announces, if all of its body is there. -/
def guardedBody (tag : Tag) (headerSize length : Nat) (rest : List UInt8) : Option (Option RawTag) := do
  let left ← Guard.sub rest.length headerSize
  if left < length then return none
  let stop ← Guard.add headerSize length
  return some ⟨tag, headerSize, ← Guard.slice rest headerSize stop⟩

/-- The tag at a place of a body, if all of it is there. -/
def guardedTag (body : List UInt8) (position : Nat) : Option (Option RawTag) := do
  let rest ← Guard.sliceFrom body position
  if rest.length < 2 then return none
  let word ← Guard.word 2 rest
  let tag : Tag := ⟨UInt16.ofNat (word / 64)⟩
  if word % 64 = 63 then
    if rest.length < 6 then return none
    guardedBody tag 6 (← Guard.word 4 (← Guard.slice rest 2 6)) rest
  else guardedBody tag 2 (word % 64) rest

/-- Adds tags from a place on; `tags` and `eager` are what the scan has found before it. -/
def guardedScan (body : List UInt8) : (fuel position : Nat) → File → (tags : Nat) → (eager : List Symbol) →
    Option (Nat × File × Except Fault (Nat × List Symbol))
  | 0, _, _, _, _ => none
  | fuel + 1, position, f, tags, eager =>
    if f.isComplete then some (position, f, .ok (tags, eager))
    else do
      match ← guardedTag body position with
      | none => some (position, f, .ok (tags, eager))
      | some raw =>
        match ← f.guardedAdd raw (← Guard.add Preamble.size position) with
        | (f, .error fault) => some (position, f, .error fault)
        | (f, .ok symbol) =>
          let position ← Guard.add position (← Guard.add raw.headerSize raw.body.length)
          let bytesLoaded ← Guard.add Preamble.size position
          guardedScan body fuel position { f with bytesLoaded } (tags + 1) (eager ++ symbol.toList)

variable {body rest : List UInt8} {position : Nat}

theorem guardedBody_eq {tag : Tag} {headerSize length : Nat} (h : headerSize ≤ rest.length)
    (hroom : rest.length < 2 ^ 63) :
    guardedBody tag headerSize length rest =
      some ((RawTag.split?.body tag headerSize length (rest.drop headerSize)).map (·.1)) := by
  rw [guardedBody, Guard.sub_eq h, RawTag.split?.body]
  simp only [Option.bind_eq_bind, Option.bind_some, List.length_take, List.length_drop]
  by_cases hlong : length ≤ rest.length - headerSize
  · rw [if_neg (Nat.not_lt.2 hlong), if_neg (by omega), Guard.add_eq (by omega), Option.bind_some,
      Guard.slice_eq (Nat.le_add_right _ _) (by omega), Nat.add_sub_cancel_left]
    rfl
  · rw [if_pos (Nat.lt_of_not_le hlong), if_pos (by omega)]
    rfl

theorem guardedTag_eq (hposition : position ≤ body.length) (hroom : body.length < 2 ^ 63) :
    guardedTag body position = some ((RawTag.split? (body.drop position)).map (·.1)) := by
  have hrest : (body.drop position).length < 2 ^ 63 := by
    rw [List.length_drop]
    omega
  rw [guardedTag, Guard.sliceFrom_eq hposition]
  simp only [Option.bind_eq_bind, Option.bind_some]
  generalize body.drop position = rest at hrest
  obtain _ | ⟨a, _ | ⟨b, rest⟩⟩ := rest
  · rfl
  · rfl
  · have htwo : 2 ≤ (a :: b :: rest).length := by simp
    have hword : ofLittleEndian ((a :: b :: rest).take 2) = a.toNat + 256 * b.toNat := rfl
    rw [if_neg (Nat.not_lt.2 htwo), Guard.word_eq htwo, Option.bind_some, hword, RawTag.split?.eq_def]
    dsimp only
    by_cases hshort : (a.toNat + 256 * b.toNat) % 64 < 63
    · rw [if_neg (by omega), if_pos hshort, guardedBody_eq htwo hrest]
      rfl
    · rw [if_pos (by omega), if_neg hshort]
      -- A length of its own takes four bytes more.
      obtain _ | ⟨c, _ | ⟨d, _ | ⟨e, _ | ⟨g, rest⟩⟩⟩⟩ := rest
      case cons.cons.cons.cons =>
        have hsix : 6 ≤ (a :: b :: c :: d :: e :: g :: rest).length := by simp
        rw [if_neg (Nat.not_lt.2 hsix), Guard.slice_eq (by decide) hsix, Option.bind_some]
        have hlength : Guard.word 4 [c, d, e, g] = some (ofLittleEndian [c, d, e, g]) := rfl
        change (Guard.word 4 [c, d, e, g]).bind _ = _
        rw [hlength, Option.bind_some, guardedBody_eq hsix hrest]
        rfl
      all_goals rfl

/-- Where a scan of a body stops, and what it has done. -/
structure StopsAt (body : List UInt8) (position stop : Nat) (f : File) (rest : List UInt8)
    (outcome : Except Fault Scan) : Prop where
  advances : position ≤ stop
  within : stop ≤ body.length
  rest : rest = body.drop stop
  bytesLoaded : f.bytesLoaded = Preamble.size + stop
  bytes : ∀ s, outcome = .ok s → position + s.bytes = stop

section Steps

variable {f g : File} {raw : RawTag} {next : List UInt8}

/-- A tag within the body has a place in the file, and so has its end. -/
theorem room_of_split? (hroom : Preamble.size + body.length < 2 ^ 63) (hposition : position ≤ body.length)
    (hloaded : f.bytesLoaded = Preamble.size + position) (hsplit : RawTag.split? (body.drop position) = some (raw, next)) :
    guardedTag body position = some (some raw) ∧ Guard.add Preamble.size position = some f.bytesLoaded ∧
      position + raw.size ≤ body.length ∧ f.bytesLoaded + raw.size < 2 ^ 63 := by
  have hsize := RawTag.size_of_split? hsplit
  rw [List.length_drop] at hsize
  refine ⟨?_, ?_, by omega, by omega⟩
  · rw [guardedTag_eq hposition (by omega), hsplit]
    rfl
  · rw [hloaded]
    exact Guard.add_eq (by omega)

theorem guardedScan_of_stop (hroom : Preamble.size + body.length < 2 ^ 63) (hposition : position ≤ body.length)
    (h : f.isComplete = true ∨ RawTag.split? (body.drop position) = none) (fuel tags : Nat) (eager : List Symbol) :
    guardedScan body (fuel + 1) position f tags eager = some (position, f, .ok (tags, eager)) := by
  rw [guardedScan]
  split
  · rfl
  · rename_i hincomplete
    rw [guardedTag_eq hposition (by omega), h.resolve_left hincomplete]
    rfl

theorem guardedScan_of_fault (hroom : Preamble.size + body.length < 2 ^ 63) (hposition : position ≤ body.length)
    (hloaded : f.bytesLoaded = Preamble.size + position) (hincomplete : f.isComplete = false)
    (hsplit : RawTag.split? (body.drop position) = some (raw, next)) {fault : Fault}
    (hadd : f.add raw = (g, .error fault)) (fuel tags : Nat) (eager : List Symbol) :
    guardedScan body (fuel + 1) position f tags eager = some (position, g, .error fault) := by
  obtain ⟨htag, hstart, -, hsize⟩ := room_of_split? hroom hposition hloaded hsplit
  obtain ⟨g', out, hguarded, hmodel⟩ := guardedAdd_eq f raw hsize
  rw [hadd] at hmodel
  obtain ⟨hfile, rfl⟩ := Prod.mk.inj hmodel
  obtain rfl : g = g' := hfile
  rw [guardedScan, if_neg (Bool.eq_false_iff.1 hincomplete), htag]
  simp only [Option.bind_eq_bind, Option.bind_some, hstart, hguarded]

theorem guardedScan_of_tag (hroom : Preamble.size + body.length < 2 ^ 63) (hposition : position ≤ body.length)
    (hloaded : f.bytesLoaded = Preamble.size + position) (hincomplete : f.isComplete = false)
    (hsplit : RawTag.split? (body.drop position) = some (raw, next)) {symbol : Option Symbol}
    (hadd : f.add raw = (g, .ok symbol)) (fuel tags : Nat) (eager : List Symbol) :
    guardedScan body (fuel + 1) position f tags eager =
      guardedScan body fuel (position + raw.size) g (tags + 1) (eager ++ symbol.toList) := by
  obtain ⟨htag, hstart, hwithin, hsize⟩ := room_of_split? hroom hposition hloaded hsplit
  obtain ⟨g', out, hguarded, hmodel⟩ := guardedAdd_eq f raw hsize
  rw [hadd] at hmodel
  obtain ⟨hfile, rfl⟩ := Prod.mk.inj hmodel
  obtain rfl : g = { g' with bytesLoaded := f.bytesLoaded + raw.size } := hfile
  have hbody : Guard.add raw.headerSize raw.body.length = some raw.size := by
    rw [RawTag.size] at hsize
    exact Guard.add_eq (by omega)
  have hend : Guard.add position raw.size = some (position + raw.size) := Guard.add_eq (by omega)
  have hplace : Guard.add Preamble.size (position + raw.size) = some (f.bytesLoaded + raw.size) := by
    rw [hloaded, Nat.add_assoc]
    exact Guard.add_eq (by omega)
  rw [guardedScan, if_neg (Bool.eq_false_iff.1 hincomplete), htag]
  simp only [Option.bind_eq_bind, Option.bind_some, hstart, hguarded, hbody, hend, hplace]

end Steps

/-- A scan of a body stops where the scan of what is left of it stops, and finds the same. -/
theorem guardedScan_eq {f f' : File} {rest' : List UInt8} {outcome : Except Fault Scan} {fuel : Nat}
    (hscans : Scans f rest f' rest' outcome) (hroom : Preamble.size + body.length < 2 ^ 63)
    (hrest : rest = body.drop position) (hposition : position ≤ body.length)
    (hloaded : f.bytesLoaded = Preamble.size + position) (hfuel : rest.length < fuel)
    (tags : Nat) (eager : List Symbol) :
    ∃ stop, guardedScan body fuel position f tags eager =
        some (stop, f', outcome.map fun s => (tags + s.tags, eager ++ s.eager)) ∧
      StopsAt body position stop f' rest' outcome := by
  -- What is left gets shorter with each tag, so the fuel lasts; place and file move on together.
  induction hscans generalizing position fuel tags eager with
  | @stop f rest h =>
    obtain ⟨fuel, rfl⟩ := Nat.exists_eq_add_one_of_ne_zero (Nat.ne_of_gt (Nat.zero_lt_of_lt hfuel))
    subst hrest
    refine ⟨position, ?_, Nat.le_refl _, hposition, rfl, hloaded, fun s hs => Except.ok.inj hs ▸ rfl⟩
    rw [guardedScan_of_stop hroom hposition h, Except.map, Nat.add_zero, List.append_nil]
  | @fault f f' rest next raw fault h hsplit hadd =>
    obtain ⟨fuel, rfl⟩ := Nat.exists_eq_add_one_of_ne_zero (Nat.ne_of_gt (Nat.zero_lt_of_lt hfuel))
    subst hrest
    have hkept := (add_error hadd).bytesLoaded
    refine ⟨position, ?_, Nat.le_refl _, hposition, rfl, hkept.trans hloaded, fun s hs => by cases hs⟩
    rw [guardedScan_of_fault hroom hposition hloaded h hsplit hadd]
    rfl
  | @tag f g f' rest next rest' raw symbol outcome h hsplit hadd hscans ih =>
    obtain ⟨fuel, rfl⟩ := Nat.exists_eq_add_one_of_ne_zero (Nat.ne_of_gt (Nat.zero_lt_of_lt hfuel))
    subst hrest
    obtain ⟨-, -, hwithin, -⟩ := room_of_split? hroom hposition hloaded hsplit
    have hnext : next = body.drop (position + raw.size) := by rw [RawTag.rest_of_split? hsplit, List.drop_drop]
    have hloaded' : g.bytesLoaded = Preamble.size + (position + raw.size) := by
      rw [(add_ok hadd).1, hloaded, Nat.add_assoc]
    have hshorter := RawTag.length_of_split? hsplit
    have hfuel' : next.length < fuel := by omega
    obtain ⟨stop, hscan, hstops⟩ := ih hnext hwithin hloaded' hfuel' (tags + 1) (eager ++ symbol.toList)
    have hadvances : position ≤ stop := Nat.le_trans (Nat.le_add_right _ _) hstops.advances
    refine ⟨stop, ?_, hadvances, hstops.within, hstops.rest, hstops.bytesLoaded, fun s hs => ?_⟩
    · rw [guardedScan_of_tag hroom hposition hloaded h hsplit hadd, hscan]
      cases outcome with
      | error fault => rfl
      | ok s => simp only [Except.map, Nat.add_assoc, Nat.add_comm 1, List.append_assoc]
    · obtain ⟨later, hlater, rfl⟩ := Except.map_eq_ok.1 hs
      have hbytes := hstops.bytes later hlater
      dsimp only
      omega

end File

namespace Parser

variable {p : Parser} {more : List UInt8} {file : File}

/-- Adds all tags that are there. -/
def scan (p : Parser) : Option (Parser × Except Fault File.Scan) :=
  match p.file? with
  | none => some (p, .ok {})
  | some file => do
    let (position, file, outcome) ← file.guardedScan p.buffer.body (p.buffer.body.length + 1) p.position 0 []
    let after : Parser := { p with position, file? := some file }
    match outcome with
    | .error fault => return (after, .error fault)
    | .ok (tags, eager) => return (after, .ok ⟨tags, ← Guard.sub position p.position, eager⟩)

/-- The fault of a file that has ended too early. -/
def incomplete (p : Parser) : Option Fault := do
  let loaded ← Guard.add p.buffer.preamble.length p.buffer.body.length
  return .incomplete loaded p.buffer.declared.fileLength

/-- A parser scans what its file would scan of the rest of the body. -/
theorem scan_eq (hp : p.Valid more) (hfile : p.file? = some file) :
    ∃ stop, p.scan = some ({ p with position := stop, file? := some (file.scan (p.buffer.body.drop p.position)).1 },
        (file.scan (p.buffer.body.drop p.position)).2.2) ∧
      (file.scan (p.buffer.body.drop p.position)).2.1 = p.buffer.body.drop stop ∧
      Valid { p with position := stop, file? := some (file.scan (p.buffer.body.drop p.position)).1 } more := by
  have hreads := hp.reads file hfile
  have hroom := hp.buffer.body_room
  rw [hreads.preamble] at hroom
  have hscans := file.scans (p.buffer.body.drop p.position)
  have hfuel : (p.buffer.body.drop p.position).length < p.buffer.body.length + 1 := by
    rw [List.length_drop]
    omega
  obtain ⟨stop, hscan, hstops⟩ :=
    File.guardedScan_eq hscans hroom rfl hreads.position hreads.bytesLoaded hfuel 0 []
  have hafter : Reads { p with position := stop, file? := some (file.scan (p.buffer.body.drop p.position)).1 }
      (file.scan (p.buffer.body.drop p.position)).1 :=
    ⟨hreads.preamble, hstops.within, hstops.bytesLoaded, by rw [hscans.header]; exact hreads.fileLength⟩
  refine ⟨stop, ?_, hstops.rest, hp.buffer, fun file' h => Option.some.inj h ▸ hafter⟩
  rw [scan, hfile]
  simp only [Option.bind_eq_bind, hscan, Option.bind_some]
  cases houtcome : (file.scan (p.buffer.body.drop p.position)).2.2 with
  | error fault => rfl
  | ok s =>
    have hbytes := hstops.bytes s houtcome
    have hsub : Guard.sub stop p.position = some s.bytes := by
      rw [Guard.sub_eq hstops.advances, ← hbytes, Nat.add_sub_cancel_left]
    simp only [Except.map, hsub, Option.bind_some, Nat.zero_add, List.nil_append]
    rfl

theorem incomplete_eq (hp : p.Valid more) : p.incomplete = some p.reception.incomplete := by
  have hroom := hp.buffer.body_room
  rw [incomplete, Guard.add_eq (by omega)]
  by_cases hbegun : p.buffer.preamble.length < Preamble.size
  · obtain ⟨hbody, hdeclared⟩ := hp.buffer.begun hbegun
    rw [reception_of_begun hbegun, hbody, hdeclared]
    rfl
  · have hwhole := hp.whole hbegun
    cases hfile : p.file? with
    | none =>
      rw [reception_of_unread hwhole hfile, hwhole]
      rfl
    | some file =>
      have hreads := hp.reads file hfile
      have hreceived : Preamble.size + p.buffer.body.length =
          file.bytesLoaded + (p.buffer.body.drop p.position).length := by
        have hposition := hreads.position
        rw [hreads.bytesLoaded, List.length_drop]
        omega
      rw [reception_of_read hreads hfile, hwhole, ← hreads.fileLength, hreceived]
      rfl

end Parser

end MovieVm.Movie
