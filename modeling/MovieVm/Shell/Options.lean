import MovieVm.Console
import MovieVm.Domain.Bootstrap
import MovieVm.Text.Escaped

/-!
# Options

What a shell is told to do: the flags that are set, the settings that have a value, and the input files.
Places of files that are not given lie under the home directory.
-/

namespace MovieVm.Shell

/-! ## Input files -/

inductive InputKind where
  | abc
  | swf
  | script
deriving DecidableEq

/-- The end of a path tells what is in the file. -/
def InputKind.ofPath? (path : String) : Option InputKind :=
  if path.endsWith ".abc" then some .abc
  else if path.endsWith ".swf" then some .swf
  else if path.endsWith ".js" then some .script
  else none

/-! ## Flags and settings -/

inductive Flag where
  | parse
  | parseForDatabase
  | disassemble
  | compile
  | verbose
  | profile
  | release
  | execute
  | interpreterOnly
  | playerGlobal
  | shell
  | porcelain
  | bundle
  | closureBundle
deriving DecidableEq

namespace Flag

/-- All flags, in the order in which they are listed. -/
def all : List Flag :=
  [parse, parseForDatabase, disassemble, compile, verbose, profile, release, execute, interpreterOnly,
    playerGlobal, shell, porcelain, bundle, closureBundle]

def name : Flag → String
  | parse => "parse"
  | parseForDatabase => "parseForDatabase"
  | disassemble => "disassemble"
  | compile => "compile"
  | verbose => "verbose"
  | profile => "profile"
  | release => "release"
  | execute => "execute"
  | interpreterOnly => "interpreterOnly"
  | playerGlobal => "playerGlobal"
  | shell => "shell"
  | porcelain => "porcelain"
  | bundle => "bundle"
  | closureBundle => "closure-bundle"

end Flag

/-- The settings that name a place. -/
inductive Place where
  | fuzz
  | home
  | builtin
  | shellLibrary
  | catalogModules
  | catalogIndex
deriving DecidableEq

structure Options where
  flags : List Flag := []
  files : List String := []
  filter : String := ""
  duration : Nat := 0
  count : Nat := 0
  repetitions : Nat := 1
  writers : String := ""
  places : List (Place × String) := []

namespace Options

def has (o : Options) (flag : Flag) : Bool :=
  o.flags.contains flag

def place? (o : Options) (p : Place) : Option String :=
  o.places.lookup p

/-! ## What the options mean -/

/-- The input files, or the first argument that is none. -/
def inputs (o : Options) : Except String (List String) :=
  match o.files.find? fun file => (InputKind.ofPath? file).isNone with
  | some file => .error file
  | none => .ok o.files

def splitCommas : List Char → List (List Char)
  | [] => [[]]
  | c :: rest =>
    if c = ',' then [] :: splitCommas rest
    else
      match splitCommas rest with
      | first :: more => (c :: first) :: more
      | [] => [[c]]

/-- The tag names of the filter. -/
def filters (o : Options) : List String :=
  (((splitCommas o.filter.toList).map Text.trim).filter (!·.isEmpty)).map String.ofList

def tracesRuntime (o : Options) : Bool :=
  o.writers.toList.contains 'r'

def tracesInterpreter (o : Options) : Bool :=
  o.writers.toList.contains 'i'

def home (o : Options) : String :=
  (o.place? .home).getD "."

def joinPath (directory path : String) : String :=
  if directory.endsWith "/" then directory ++ path else directory ++ "/" ++ path

/-- A place that is given, or its default under the home directory. -/
def artifact (o : Options) (p : Place) (default : String) : String :=
  (o.place? p).getD (joinPath o.home default)

def builtinPath (o : Options) : String :=
  o.artifact .builtin "src/avm2/generated/builtin/builtin.abc"

def libraryPath? (o : Options) : Option String :=
  if o.has .shell then some (o.artifact .shellLibrary "src/avm2/generated/shell/shell.abc") else none

def catalogPaths (o : Options) : CatalogPaths :=
  { modules := o.artifact .catalogModules "build/playerglobal/playerglobal.abcs"
    index := o.artifact .catalogIndex "build/playerglobal/playerglobal.json" }

def domainOptions (o : Options) : DomainOptions :=
  { release := o.has .release
    traceRuntime := o.tracesRuntime
    traceInterpreter := o.tracesInterpreter }

/-- Lists the options. -/
def trace (o : Options) (c : Console) : Console :=
  let lines := Flag.all.map (fun f => s!"{f.name}: {o.has f}") ++
    [s!"filter: {Text.escaped o.filter}", s!"duration: {o.duration}", s!"count: {o.count}",
      s!"repeat: {o.repetitions}", s!"writers: {Text.escaped o.writers}",
      s!"builtin: {o.builtinPath}"]
  (lines.foldl (fun c line => c.writeLine line) (c.enter "Shell Options:")).leave ""

end Options

end MovieVm.Shell
