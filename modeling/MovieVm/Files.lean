import MovieVm.Text.Utf8

/-!
# Files

A tree of files, and how paths are looked up in it from a working directory. What lies outside of the tree
is not known: it holds nothing but directories that are not named. A tree with the root of all files has no
outside.
-/

namespace MovieVm

inductive FileFault where
  | notFound
  | notDirectory
  | isDirectory
  | nameTooLong
  | invalidName
  | invalidText
deriving DecidableEq

def FileFault.message : FileFault → String
  | notFound => "No such file or directory (os error 2)"
  | notDirectory => "Not a directory (os error 20)"
  | isDirectory => "Is a directory (os error 21)"
  | nameTooLong => "File name too long (os error 36)"
  | invalidName => "file name contained an unexpected NUL byte"
  | invalidText => "stream did not contain valid UTF-8"

/-- Names from the top of the tree on. -/
abbrev Location := List String

inductive FileNode where
  | file (bytes : List UInt8)
  | directory
deriving DecidableEq

/-- Every file, and the directories that were made for their own sake. A later entry for a location takes
the place of an earlier one. -/
structure Files where
  entries : List (Location × FileNode) := []
  /-- Where paths without a slash in front start. -/
  workingDirectory : Location := []
  /-- Whether the top of the tree is the root of all files. -/
  rooted : Bool := false

namespace Files

/-- The parts of a path between slashes. -/
def components (path : String) : List String :=
  (parts path.toList).map String.ofList
where
  parts : List Char → List (List Char)
    | [] => [[]]
    | c :: rest =>
      if c = '/' then [] :: parts rest
      else
        match parts rest with
        | first :: more => (c :: first) :: more
        | [] => [[c]]

/-- What is above the top of the tree, and where paths with a slash in front start. -/
def above (fs : Files) : Option Location :=
  if fs.rooted then some [] else none

/-- What stands at a location. A directory is there when something was put into it. -/
def node? (fs : Files) (l : Location) : Option FileNode :=
  match (fs.entries.filter (·.1 = l)).getLast? with
  | some entry => some entry.2
  | none => if l.isEmpty || fs.entries.any fun e => l.isPrefixOf e.1 then some .directory else none

def maxName : Nat := 255

def maxPath : Nat := 4096

/-- Follows the parts of a path from a location; none stands for a directory outside. -/
def follow (fs : Files) : Option Location → List String → Except FileFault (Option Location)
  | l, [] => .ok l
  | none, name :: rest =>
    if name = "" || name = "." || name = ".." then follow fs none rest
    else if maxName < name.utf8ByteSize then .error .nameTooLong
    else .error .notFound
  | some l, name :: rest =>
    match fs.node? l with
    | none => .error .notFound
    | some (.file _) => .error .notDirectory
    | some .directory =>
      if name = "" || name = "." then follow fs (some l) rest
      else if name = ".." then follow fs (if l.isEmpty then fs.above else some l.dropLast) rest
      else if maxName < name.utf8ByteSize then .error .nameTooLong
      else follow fs (some (l ++ [name])) rest

/-- The locations that the parts of a path pass, whether or not something is there. -/
def route (fs : Files) (path : String) : List Location :=
  passed (if path.startsWith "/" then [] else fs.workingDirectory) (components path)
where
  passed (l : Location) : List String → List Location
    | [] => [l]
    | name :: rest =>
      let next :=
        if name = "" || name = "." then l
        else if name = ".." then l.dropLast
        else l ++ [name]
      l :: passed next rest

/-- The location that a path leads to, whether or not something is there. -/
def locate (fs : Files) (path : String) : Except FileFault (Option Location) :=
  if path.toList.contains '\x00' then .error .invalidName
  else if path.isEmpty then .error .notFound
  else if maxPath ≤ path.utf8ByteSize then .error .nameTooLong
  else if path.startsWith "/" then fs.follow fs.above (components path)
  else fs.follow (some fs.workingDirectory) (components path)

/-- What a path leads to; there must be something. -/
def find (fs : Files) (path : String) : Except FileFault FileNode := do
  match ← fs.locate path with
  | none => return .directory
  | some l =>
    match fs.node? l with
    | some node => return node
    | none => throw .notFound

def read (fs : Files) (path : String) : Except FileFault (List UInt8) := do
  match ← fs.find path with
  | .file bytes => return bytes
  | .directory => throw .isDirectory

def readText (fs : Files) (path : String) : Except FileFault String := do
  match Text.ofUtf8? (← fs.read path) with
  | some text => return text
  | none => throw .invalidText

def put (fs : Files) (l : Location) (node : FileNode) : Files :=
  { fs with entries := fs.entries ++ [(l, node)] }

/-- Writes a file, new or in the place of an old one. A slash at the end asks for a directory. -/
def write (fs : Files) (path : String) (bytes : List UInt8) : Except FileFault Files := do
  let bare := String.ofList (path.toList.reverse.dropWhile (· = '/')).reverse
  if bare.isEmpty && !path.isEmpty then throw .isDirectory
  match ← fs.locate bare with
  | none => throw .isDirectory
  | some l =>
    match fs.node? l with
    | some .directory => throw .isDirectory
    | some (.file _) => if bare ≠ path then throw .notDirectory else return fs.put l (.file bytes)
    | none => if bare ≠ path then throw .isDirectory else return fs.put l (.file bytes)

end Files

end MovieVm
