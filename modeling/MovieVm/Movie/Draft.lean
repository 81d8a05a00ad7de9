import MovieVm.Deflate.Stored
import MovieVm.Movie.Reception

/-!
# Drafts of movie files

A draft lists what a file is to hold, and is encoded as a file. The tag that ends the file is added.
-/

namespace MovieVm.Movie

/-! ## Contents -/

/-- One item of a file; every item becomes one tag. -/
inductive Content where
  | fileAttributes (flags : Nat)
  | backgroundColor (color : Nat)
  | abc (name : String) (flags : Nat) (data : List UInt8)
  | abcDefine (data : List UInt8)
  | symbolClass (id : Nat) (name : String)
  | exported (id : Nat) (name : String)
  | frameLabel (label : String)
  | image (id : Nat) (payload : List UInt8)
  | font (id : Nat) (name : String)
  | binaryData (id : Nat) (data : List UInt8)
  | showFrame
  | tag (tag : Tag) (body : List UInt8)
deriving DecidableEq

namespace Content

/-- The flag of a file with modules. -/
def as3Flag : Nat := 8

/-- The flag of a block that waits until it is needed. -/
def lazyFlag : Nat := 1

/-- A text and a zero byte behind it; zeros within it are left out. -/
def terminated (s : String) : List UInt8 :=
  (Text.toUtf8 s).filter (· ≠ 0) ++ [0]

/-- A table of one name. -/
def nameTable (id : Nat) (name : String) : List UInt8 :=
  littleEndian 2 1 ++ littleEndian 2 id ++ terminated name

/-- A font without glyphs. The name has a length of one byte. -/
def fontBody (id : Nat) (name : String) : List UInt8 :=
  let name := (Text.toUtf8 name).take 255
  littleEndian 2 id ++ [0, 0, UInt8.ofNat name.length] ++ name ++ littleEndian 2 0

def toTag : Content → Tag × List UInt8
  | fileAttributes flags => (.fileAttributes, littleEndian 4 flags)
  | backgroundColor color => (.setBackgroundColor, (littleEndian 3 color).reverse)
  | abc name flags data => (.doAbc, littleEndian 4 flags ++ terminated name ++ data)
  | abcDefine data => (.doAbcDefine, data)
  | symbolClass id name => (.symbolClass, nameTable id name)
  | exported id name => (.exportAssets, nameTable id name)
  | frameLabel label => (.frameLabel, terminated label)
  | image id payload => (.defineBitsLossless2, littleEndian 2 id ++ payload)
  | font id name => (.defineFont3, fontBody id name)
  | binaryData id data => (.defineBinaryData, littleEndian 2 id ++ littleEndian 4 0 ++ data)
  | showFrame => (.showFrame, [])
  | tag t body => (t, body)

end Content

/-- A tag with its header. Long bodies, and images of any size, get the long form. -/
def Tag.encode (t : Tag) (body : List UInt8) : List UInt8 :=
  let word := t.code.toNat * 64
  if 63 ≤ body.length || t.isImage then
    littleEndian 2 (word + 63) ++ littleEndian 4 body.length ++ body
  else littleEndian 2 (word + body.length) ++ body

/-! ## Drafts -/

structure Draft where
  version : UInt8 := 10
  compressed : Bool := false
  bounds : Rect := ⟨0, 11000, 0, 8000⟩
  frameRate : Double := .ofNat 24
  contents : List Content := []

namespace Draft

/-- The nearest number of 256ths, halves up, that two bytes can hold. -/
def rate (x : Double) : Nat :=
  if x.isNaN || x.isNegative then 0
  else if x.isInfinite then 65535
  else min 65535 ((512 * x.absUnits + Double.unitsPerOne) / (2 * Double.unitsPerOne))

/-- The number of frames, as far as two bytes can hold it. -/
def frameCount (d : Draft) : Nat :=
  min 65535 (d.contents.countP fun c => c.toTag.1 = Tag.showFrame)

def body (d : Draft) : List UInt8 :=
  d.bounds.encode ++ littleEndian 2 (rate d.frameRate) ++ littleEndian 2 d.frameCount ++
    d.contents.flatMap (fun c => c.toTag.1.encode c.toTag.2) ++ Tag.finish.encode []

def signature (compressed : Bool) : List UInt8 :=
  if compressed then [0x43, 0x57, 0x53] else [0x46, 0x57, 0x53]

def encode (d : Draft) : List UInt8 :=
  let body := d.body
  signature d.compressed ++ [d.version] ++ littleEndian 4 (body.length + Preamble.size) ++
    (if d.compressed then Deflate.store body else body)

end Draft

end MovieVm.Movie
