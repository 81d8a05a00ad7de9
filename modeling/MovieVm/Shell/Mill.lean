import MovieVm.Bytecode.Assembly.Basic
import MovieVm.Console
import MovieVm.Movie.Draft
import MovieVm.Movie.Loader
import MovieVm.Shell.Error

/-!
# The mill

The mill makes a random movie file that is well formed, writes it, loads it back, and describes the tags
that it finds.
-/

namespace MovieVm.Shell

open Bytecode Movie

/-! ## Random numbers -/

/-- Draws from a sequence that its first number fixes. -/
abbrev Draw := StateM Nat

namespace Draw

/-- A number below a bound. -/
def below (bound : Nat) : Draw Nat := do
  let next := ((← get) * 6364136223846793005 + 1442695040888963407) % 0x10000000000000000
  set next
  return next / 0x100000000 % bound

/-- One of so many chances in ten. -/
def chance (inTen : Nat) : Draw Bool :=
  return (← below 10) < inTen

def repeated (item : Draw α) : (count : Nat) → Draw (List α)
  | 0 => return []
  | count + 1 => do
    let first ← item
    return first :: (← repeated item count)

/-- Up to `max` bytes. -/
def bytes (max : Nat) : Draw (List UInt8) := do
  repeated (return UInt8.ofNat (← below 256)) (← below (max + 1))

end Draw

/-! ## Random movies -/

namespace Mill

/-- A module that traces a message. -/
def script (message : String) : List UInt8 :=
  let source := ".method main\n  getglobal trace\n  pushstring \"" ++ message ++
    "\"\n  call 1\n  pop\n  returnvoid\n.end\n.init main"
  match Module.assemble source message with
  | .ok m => m.encode
  | .error _ => []

def content (id : Nat) : Draw Content := do
  match ← Draw.below 4 with
  | 0 => return .image id (← Draw.bytes 64)
  | 1 => return .font id s!"Font{id}"
  | 2 => return .binaryData id (← Draw.bytes 32)
  | _ => return .abc s!"script{id}" Content.lazyFlag (script s!"script{id}")

def contents (firstId : Nat) : (count : Nat) → Draw (List Content)
  | 0 => return []
  | count + 1 => do
    let first ← content firstId
    return first :: (← contents (firstId + 1) count)

/-- The tags of so many frames, numbered on from `number`. -/
def frames (number firstId : Nat) : (count : Nat) → Draw (List Content)
  | 0 => return []
  | count + 1 => do
    let label := if ← Draw.chance 3 then [Content.frameLabel s!"frame{number}"] else []
    let size ← Draw.below 4
    let tags ← contents firstId size
    let rest ← frames (number + 1) (firstId + size) count
    return label ++ tags ++ Content.showFrame :: rest

def draft : Draw Draft := do
  let version := 9 + (← Draw.below 7)
  let compressed ← Draw.chance 5
  let frameRate := [12, 24, 30, 60][← Draw.below 4]?.getD 60
  let color ← Draw.below (0x1000000)
  let frames ← frames 1 1 (1 + (← Draw.below 4))
  return {
    version := UInt8.ofNat version
    compressed
    frameRate := .ofNat frameRate
    contents := .fileAttributes Content.as3Flag :: .backgroundColor color :: frames }

/-! ## Describing a movie -/

/-- What the mill finds in its file. -/
structure Milled where
  header : Header
  size : Nat
  tags : List TagRecord

def Milled.openingLine (m : Milled) (path : String) : String :=
  let rate := Decimal.Layout.plain.text m.header.frameRate
  s!"<swf path=\"{path}\" version=\"{m.header.version.toNat}\" compressed=\"{m.header.compressed}\" " ++
    s!"frameRate=\"{rate}\" frameCount=\"{m.header.frameCount}\" size=\"{m.size}\">"

def tagLine (t : TagRecord) : String :=
  s!"<tag name=\"{t.tag.name}\" code=\"{t.tag.code.toNat}\" length=\"{t.length}\"/>"

def Milled.describe (m : Milled) (path : String) (c : Console) (w : Writer) : Console :=
  (m.tags.foldl (fun c t => c.writeLine (tagLine t) w) (c.enter (m.openingLine path) w)).leave "</swf>" w

/-- Makes a file from a seed, writes it and describes it. -/
def run (seed : Nat) (path : String) (fs : Files) (c : Console) (w : Writer) :
    Files × Console × Except ShellError Milled :=
  let bytes := (draft.run seed).1.encode
  match fs.write path bytes with
  | .error fault => (fs, c, .error (.unreadable path fault))
  | .ok fs =>
    let d := ({} : Loader).load bytes
    match d.result, d.loader.file? with
    | .error fault, _ => (fs, c, .error (.unparsable path (.movie fault)))
    | .ok (), none => (fs, c, .error (.unparsable path (.movie (.incomplete bytes.length bytes.length))))
    | .ok (), some file =>
      let m : Milled := ⟨file.header, bytes.length, file.tags.toList⟩
      (fs, m.describe path c w, .ok m)

end Mill

end MovieVm.Shell
