/-!
# Tags

A tag has a code of ten bits in a file; the known codes have names.
-/

namespace MovieVm.Movie

/-- A tag by its code. -/
structure Tag where
  code : UInt16
deriving DecidableEq

namespace Tag

/-! ## Names -/

def names : List (UInt16 × String) :=
  [(0, "END"), (1, "SHOW_FRAME"), (2, "DEFINE_SHAPE"), (4, "PLACE_OBJECT"), (5, "REMOVE_OBJECT"),
    (6, "DEFINE_BITS"), (7, "DEFINE_BUTTON"), (8, "JPEG_TABLES"), (9, "SET_BACKGROUND_COLOR"),
    (10, "DEFINE_FONT"), (11, "DEFINE_TEXT"), (12, "DO_ACTION"), (13, "DEFINE_FONT_INFO"),
    (14, "DEFINE_SOUND"), (15, "START_SOUND"), (20, "DEFINE_BITS_LOSSLESS"), (21, "DEFINE_BITS_JPEG2"),
    (22, "DEFINE_SHAPE2"), (24, "PROTECT"), (26, "PLACE_OBJECT2"), (28, "REMOVE_OBJECT2"),
    (32, "DEFINE_SHAPE3"), (35, "DEFINE_BITS_JPEG3"), (36, "DEFINE_BITS_LOSSLESS2"),
    (37, "DEFINE_EDIT_TEXT"), (39, "DEFINE_SPRITE"), (43, "FRAME_LABEL"), (45, "SOUND_STREAM_HEAD2"),
    (48, "DEFINE_FONT2"), (56, "EXPORT_ASSETS"), (69, "FILE_ATTRIBUTES"), (72, "DO_ABC_DEFINE"),
    (75, "DEFINE_FONT3"), (76, "SYMBOL_CLASS"), (77, "METADATA"), (82, "DO_ABC"), (83, "DEFINE_SHAPE4"),
    (86, "DEFINE_SCENE_AND_FRAME_LABEL_DATA"), (87, "DEFINE_BINARY_DATA"), (90, "DEFINE_BITS_JPEG4"),
    (91, "DEFINE_FONT4")]

def name (t : Tag) : String :=
  (names.lookup t.code).getD s!"TAG{t.code.toNat}"

/-- The known tag of a name, which may be written with `CODE_` in front. -/
def ofName? (name : String) : Option Tag :=
  let bare :=
    match name.toList with
    | 'C' :: 'O' :: 'D' :: 'E' :: '_' :: rest => String.ofList rest
    | _ => name
  (names.find? (·.2 = bare)).map fun entry => ⟨entry.1⟩

/-! ## The tags that a file is read by -/

/-- Ends the file. -/
def finish : Tag := ⟨0⟩
def showFrame : Tag := ⟨1⟩
def setBackgroundColor : Tag := ⟨9⟩
def frameLabel : Tag := ⟨43⟩
def exportAssets : Tag := ⟨56⟩
def fileAttributes : Tag := ⟨69⟩
def doAbcDefine : Tag := ⟨72⟩
def symbolClass : Tag := ⟨76⟩
def doAbc : Tag := ⟨82⟩
def defineBinaryData : Tag := ⟨87⟩
def defineBitsLossless2 : Tag := ⟨36⟩
def defineFont2 : Tag := ⟨48⟩
def defineFont3 : Tag := ⟨75⟩
def defineFont4 : Tag := ⟨91⟩

def isImage (t : Tag) : Bool :=
  [6, 20, 21, 35, 36, 90].contains t.code

def isFont (t : Tag) : Bool :=
  [10, 48, 75, 91].contains t.code

/-- Whether a tag holds a module. -/
def isAbc (t : Tag) : Bool :=
  t = doAbc || t = doAbcDefine

/-- Whether a list of tag names keeps a tag; an empty list keeps every tag. -/
def isKept (t : Tag) (filters : List String) : Bool :=
  filters.isEmpty || filters.any fun name => ofName? name = some t

end Tag

end MovieVm.Movie
