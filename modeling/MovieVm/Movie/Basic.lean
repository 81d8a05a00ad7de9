import MovieVm.Movie.Reader
import MovieVm.Movie.Rect
import MovieVm.Movie.Tag

/-!
# Movie files

A movie file is a header and a sequence of tags. The tags fill it bit by bit: modules and labels belong to
the frame that is being collected, and a tag that shows the frame closes it.
-/

namespace MovieVm.Movie

/-! ## The file -/

structure Header where
  compressed : Bool
  version : UInt8
  /-- The declared size of the file before compression. -/
  fileLength : Nat
  bounds : Rect
  frameRate : Double
  frameCount : Nat
deriving DecidableEq

/-- An embedded module, and the number of the frame it belongs to. -/
structure AbcBlock where
  name : String
  flags : Nat
  data : List UInt8
  frame : Nat
deriving DecidableEq

/-- Whether a block should wait until one of its symbols is needed. -/
def AbcBlock.isLazy (b : AbcBlock) : Bool :=
  b.flags % 2 = 1

/-- A frame lists its blocks by number, and counts the tags that have no other meaning here. -/
structure Frame where
  label : Option String := none
  blocks : Array Nat := #[]
  tagCount : Nat := 0
deriving DecidableEq

inductive SymbolKind where
  | image
  | font
  | binaryData
deriving DecidableEq

structure Symbol where
  id : Nat
  kind : SymbolKind
  tag : Tag
  name : Option String
  length : Nat
deriving DecidableEq

/-- Whether a symbol is announced as soon as it is read. -/
def Symbol.isEager (s : Symbol) : Bool :=
  s.kind = .image || s.kind = .font

/-- Where a tag stands in the file before compression, and the size of its body. -/
structure TagRecord where
  tag : Tag
  offset : Nat
  length : Nat
deriving DecidableEq

/-- Symbols in the order of their ids, one for each id. -/
abbrev Dictionary := List Symbol

/-- A later symbol takes the place of an earlier one with its id. -/
def Dictionary.insert (symbol : Symbol) : Dictionary → Dictionary
  | [] => [symbol]
  | s :: rest =>
    if s.id < symbol.id then s :: Dictionary.insert symbol rest
    else if s.id = symbol.id then symbol :: rest
    else symbol :: s :: rest

/-- A file as far as its tags have been read. -/
structure File where
  header : Header
  attributes : Option Nat := none
  backgroundColor : Option Nat := none
  blocks : Array AbcBlock := #[]
  frames : Array Frame := #[]
  dictionary : Dictionary := []
  symbolClasses : List (Nat × String) := []
  exports : List (Nat × String) := []
  tags : Array TagRecord := #[]
  /-- The end of the last tag that was read. -/
  bytesLoaded : Nat
  /-- The frame that is being collected. -/
  openFrame : Frame := {}
  isComplete : Bool := false
deriving DecidableEq

namespace File

/-- The class of the document, which has id 0. -/
def mainClass? (f : File) : Option String :=
  f.symbolClasses.lookup 0

def isAs3 (f : File) : Bool :=
  match f.attributes with
  | some flags => flags / 8 % 2 = 1
  | none => false

/-- The blocks of a frame, none for a frame that is not there. -/
def frameBlocks (f : File) (index : Nat) : List AbcBlock :=
  match f.frames[index]? with
  | some frame => frame.blocks.toList.filterMap (f.blocks[·]?)
  | none => []

/-! ## Tags -/

def closeFrame (f : File) : File :=
  { f with frames := f.frames.push f.openFrame, openFrame := {} }

/-- Ends the file. Tags after the last shown frame make a frame only with a label or a block. -/
def close (f : File) : File :=
  let f :=
    if f.openFrame.label.isSome || !f.openFrame.blocks.isEmpty then f.closeFrame
    else { f with openFrame := {} }
  { f with isComplete := true }

def addBlock (f : File) (name : String) (flags : Nat) (data : List UInt8) : File :=
  { f with
    blocks := f.blocks.push ⟨name, flags, data, f.frames.size⟩
    openFrame := { f.openFrame with blocks := f.openFrame.blocks.push f.blocks.size } }

def define (f : File) (symbol : Symbol) : File :=
  { f with dictionary := f.dictionary.insert symbol }

/-- Up to `count` ids with a name each. What stands before a failure is kept. -/
def readNames : (count : Nat) → Source → List (Nat × String) × Option Fault
  | 0, _ => ([], none)
  | count + 1, source =>
    let entry : Reader (Nat × String) := do
      let id ← Reader.number 2
      return (id, ← Reader.terminatedText)
    match entry source with
    | .error fault _ => ([], some fault)
    | .ok entry source =>
      let (names, fault) := readNames count source
      (entry :: names, fault)

def readNameTable : Source → List (Nat × String) × Option Fault := fun source =>
  match Reader.number 2 source with
  | .error fault _ => ([], some fault)
  | .ok count source => readNames count source

/-- The name that a font gives itself. -/
def fontName (tag : Tag) : Reader (Option String) := do
  if tag = Tag.defineFont2 || tag = Tag.defineFont3 then
    let _ ← Reader.number 1
    let _ ← Reader.number 1
    let name := Text.ofUtf8Lossy (← Reader.bytes (← Reader.number 1))
    return some (String.ofList (name.toList.reverse.dropWhile (· = '\x00')).reverse)
  else if tag = Tag.defineFont4 then
    let _ ← Reader.number 1
    return some (← Reader.terminatedText)
  else return none

def readAbc : Reader (Nat × String × List UInt8) := do
  let flags ← Reader.number 4
  let name ← Reader.terminatedText
  return (flags, name, ← Reader.rest)

/-- The color that three bytes give, red first. -/
def readColor : Reader Nat := do
  return (← Reader.bytes 3).foldl (fun color b => 256 * color + b.toNat) 0

def readBinaryData (tag : Tag) : Reader Symbol := do
  let id ← Reader.number 2
  let _ ← Reader.number 4
  return ⟨id, .binaryData, tag, none, (← get).remaining⟩

def readImage (tag : Tag) (length : Nat) : Reader Symbol := do
  return ⟨← Reader.number 2, .image, tag, none, length⟩

def readFont (tag : Tag) (length : Nat) : Reader Symbol := do
  let id ← Reader.number 2
  return ⟨id, .font, tag, ← fontName tag, length⟩

/-- The file after a tag whose body `source` is, and the symbol to announce. A tag that cannot be read
may have added something before. -/
def decode (f : File) (tag : Tag) (source : Source) : File × Except Fault (Option Symbol) :=
  let read {α : Type} (reader : Reader α) (use : α → File × Option Symbol) :
      File × Except Fault (Option Symbol) :=
    match reader source with
    | .ok x _ => ((use x).1, .ok (use x).2)
    | .error fault _ => (f, .error fault)
  let settle (fault : Option Fault) : Except Fault (Option Symbol) :=
    match fault with
    | some fault => .error fault
    | none => .ok none
  if tag = Tag.finish then (f.close, .ok none)
  else if tag = Tag.showFrame then (f.closeFrame, .ok none)
  else if tag = Tag.doAbc then read readAbc fun (flags, name, data) => (f.addBlock name flags data, none)
  else if tag = Tag.doAbcDefine then read Reader.rest fun data => (f.addBlock "" 0 data, none)
  else if tag = Tag.symbolClass then
    let (names, fault) := readNameTable source
    ({ f with symbolClasses := f.symbolClasses ++ names }, settle fault)
  else if tag = Tag.exportAssets then
    let (names, fault) := readNameTable source
    ({ f with exports := f.exports ++ names }, settle fault)
  else if tag = Tag.frameLabel then
    read Reader.terminatedText fun label =>
      ({ f with openFrame := { f.openFrame with label := some label } }, none)
  else if tag = Tag.fileAttributes then
    read (Reader.number 4) fun flags => ({ f with attributes := some flags }, none)
  else if tag = Tag.setBackgroundColor then
    read readColor fun color => ({ f with backgroundColor := some color }, none)
  else if tag = Tag.defineBinaryData then
    read (readBinaryData tag) fun symbol => (f.define symbol, none)
  else if tag.isImage then
    read (readImage tag source.remaining) fun symbol => (f.define symbol, some symbol)
  else if tag.isFont then
    read (readFont tag source.remaining) fun symbol => (f.define symbol, some symbol)
  else ({ f with openFrame := { f.openFrame with tagCount := f.openFrame.tagCount + 1 } }, .ok none)

/-- A tag as it stands in a file. -/
structure RawTag where
  tag : Tag
  headerSize : Nat
  body : List UInt8
deriving DecidableEq

def RawTag.size (raw : RawTag) : Nat :=
  raw.headerSize + raw.body.length

/-- Adds the next tag of the file. Its record stays even when it cannot be read. -/
def add (f : File) (raw : RawTag) : File × Except Fault (Option Symbol) :=
  let start := f.bytesLoaded
  let f := { f with tags := f.tags.push ⟨raw.tag, start, raw.body.length⟩ }
  match f.decode raw.tag ⟨start + raw.headerSize, raw.body⟩ with
  | (f, .ok symbol) => ({ f with bytesLoaded := start + raw.size }, .ok symbol)
  | (f, .error fault) => (f, .error (.malformedTag raw.tag.name start fault.message))

end File

end MovieVm.Movie
