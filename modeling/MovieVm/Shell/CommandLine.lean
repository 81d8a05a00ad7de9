import MovieVm.Decimal.Reading
import MovieVm.Shell.Options

/-!
# The command line

Arguments with one or two dashes are options, and the others are files. An option has a long name and
may have short ones; flags can share a dash, and a value may be attached or follow. After two dashes
alone everything is a file.
-/

namespace MovieVm.Shell

/-- Why a command line is not accepted. -/
inductive ArgumentFault where
  | unknownArgument
  /-- A value is missing, or a place is empty. -/
  | missingValue
  /-- A number is malformed or too large. -/
  | invalidNumber
  | givenTwice
  /-- A flag has a value attached. -/
  | unexpectedValue
  /-- Help is asked for. -/
  | help
deriving DecidableEq

inductive Setting where
  | filter
  | writers
  | duration
  | count
  | repetitions
  | place (p : Place)
deriving DecidableEq

inductive Argument where
  | flag (f : Flag)
  | setting (s : Setting)
  | help
deriving DecidableEq

namespace Argument

/-- The long names of the options. -/
def longNames : List (String × Argument) :=
  [("parse", flag .parse), ("parseForDatabase", flag .parseForDatabase), ("po", flag .parseForDatabase),
    ("disassemble", flag .disassemble), ("compile", flag .compile), ("verbose", flag .verbose),
    ("profile", flag .profile), ("release", flag .release), ("execute", flag .execute),
    ("interpreterOnly", flag .interpreterOnly), ("playerGlobal", flag .playerGlobal),
    ("shell", flag .shell), ("porcelain", flag .porcelain), ("bundle", flag .bundle),
    ("closure-bundle", flag .closureBundle), ("filter", setting .filter), ("writers", setting .writers),
    ("duration", setting .duration), ("md", setting .duration), ("count", setting .count),
    ("mc", setting .count), ("repeat", setting .repetitions), ("rp", setting .repetitions),
    ("fuzz", setting (.place .fuzz)), ("home", setting (.place .home)),
    ("builtin-abc", setting (.place .builtin)), ("shell-abc", setting (.place .shellLibrary)),
    ("player-global-abcs", setting (.place .catalogModules)),
    ("player-global-catalog", setting (.place .catalogIndex)), ("help", help)]

def shortNames : List (Char × Argument) :=
  [('p', flag .parse), ('d', flag .disassemble), ('c', flag .compile), ('v', flag .verbose),
    ('o', flag .profile), ('r', flag .release), ('x', flag .execute), ('i', flag .interpreterOnly),
    ('g', flag .playerGlobal), ('s', flag .shell), ('b', flag .closureBundle),
    ('f', setting .filter), ('w', setting .writers), ('h', help)]

def ofLong? (name : String) : Option Argument :=
  longNames.lookup name

def ofShort? (c : Char) : Option Argument :=
  shortNames.lookup c

end Argument

/-- How the options are spelled. -/
def usage : String :=
  "Usage: movievm [OPTIONS] [FILES]...\n\nOptions:\n" ++ String.join (Argument.longNames.map fun (name, a) =>
    match a with
    | .setting _ => s!"  --{name} <VALUE>\n"
    | _ => s!"  --{name}\n")

def ArgumentFault.message : ArgumentFault → String
  | unknownArgument => "error: unexpected argument found\n\nFor more information, try --help."
  | missingValue => "error: a value is required for an option but none was supplied"
  | invalidNumber => "error: invalid number for an option"
  | givenTwice => "error: an option cannot be used multiple times"
  | unexpectedValue => "error: unexpected value for a flag"
  | help => usage

/-! ## Values -/

/-- A number below a bound; a plus sign is allowed. -/
def readNumber (bound : Nat) (value : String) : Except ArgumentFault Nat :=
  match Decimal.readNat? bound value.toList with
  | some n => .ok n
  | none => .error .invalidNumber

/-- A number of repetitions; it is read with its sign, so that a negative zero counts as zero. -/
def readRepetitions (value : String) : Except ArgumentFault Nat :=
  match value.toList with
  | '-' :: digits => if Decimal.readDigits? digits = some 0 then .ok 0 else .error .invalidNumber
  | _ => readNumber (0x100000000) value

def readPlace (value : String) : Except ArgumentFault String :=
  if value.isEmpty then .error .missingValue else .ok value

def Options.assign (o : Options) (s : Setting) (value : String) : Except ArgumentFault Options := do
  match s with
  | .filter => return { o with filter := value }
  | .writers => return { o with writers := value }
  | .duration => return { o with duration := ← readNumber (0x10000000000000000) value }
  | .count => return { o with count := ← readNumber (0x10000000000000000) value }
  | .repetitions => return { o with repetitions := ← readRepetitions value }
  | .place p => return { o with places := (p, ← readPlace value) :: o.places }

/-! ## Reading the arguments -/

/-- A setting whose value has not been looked at: it may be still to come. -/
structure Pending where
  setting : Setting
  value : Option String

/-- How far the arguments have been read. `given` holds the settings that have a value. -/
structure Reading where
  options : Options := {}
  given : List Setting := []
  pending : Option Pending := none
  onlyFiles : Bool := false

namespace Reading

/-- Gives a pending setting its value. This is the moment when its faults show. -/
def settle (r : Reading) : Except ArgumentFault Reading := do
  match r.pending with
  | none => return r
  | some p =>
    match p.value with
    | none => throw .missingValue
    | some value =>
      if r.given.contains p.setting then throw .givenTwice
      let options ← r.options.assign p.setting value
      return { r with options, given := p.setting :: r.given, pending := none }

def setFlag (r : Reading) (f : Flag) : Except ArgumentFault Reading := do
  let r ← r.settle
  if r.options.has f then throw .givenTwice
  return { r with options := { r.options with flags := f :: r.options.flags } }

/-- Begins a setting; an attached value is given at once. -/
def begin (r : Reading) (s : Setting) (value : Option String) : Except ArgumentFault Reading := do
  let r ← r.settle
  let r := { r with pending := some ⟨s, value⟩ }
  if value.isSome then r.settle else return r

def askHelp (r : Reading) : Except ArgumentFault Reading := do
  let _ ← r.settle
  throw .help

def addFile (r : Reading) (file : String) : Except ArgumentFault Reading := do
  let r ← r.settle
  return { r with options := { r.options with files := r.options.files ++ [file] } }

/-- A long option without its dashes. -/
def long (r : Reading) (body : List Char) : Except ArgumentFault Reading :=
  let name := String.ofList (body.takeWhile (· ≠ '='))
  let value := match body.dropWhile (· ≠ '=') with
    | [] => none
    | _ :: value => some (String.ofList value)
  match Argument.ofLong? name with
  | none => .error .unknownArgument
  | some (.setting s) => r.begin s value
  | some (.flag f) => if value.isSome then .error .unexpectedValue else r.setFlag f
  | some .help => if value.isSome then .error .unexpectedValue else r.askHelp

/-- Short options behind one dash. What follows a setting is its value. -/
def short (r : Reading) : List Char → Except ArgumentFault Reading
  | [] => .ok r
  | c :: rest => do
    match Argument.ofShort? c with
    | none => throw .unknownArgument
    | some .help => r.askHelp
    | some (.flag f) => short (← r.setFlag f) rest
    | some (.setting s) =>
      match rest with
      | [] => r.begin s none
      | '=' :: value => r.begin s (some (String.ofList value))
      | value => r.begin s (some (String.ofList value))

/-- An argument that is no option: the value of a pending setting, or a file. -/
def plain (r : Reading) (argument : String) : Except ArgumentFault Reading :=
  match r.pending with
  | some ⟨s, none⟩ => .ok { r with pending := some ⟨s, some argument⟩ }
  | _ => r.addFile argument

def next (r : Reading) (argument : String) : Except ArgumentFault Reading :=
  if r.onlyFiles then r.addFile argument
  else
    match argument.toList with
    | ['-', '-'] => .ok { r with onlyFiles := true }
    | '-' :: '-' :: body => r.long body
    | ['-'] => r.plain argument
    | '-' :: body => r.short body
    | _ => r.plain argument

end Reading

/-- The options that arguments give. -/
def Options.ofArguments (arguments : List String) : Except ArgumentFault Options := do
  let r ← arguments.foldlM Reading.next {}
  return (← r.settle).options

end MovieVm.Shell
