import MovieVm.Bytecode.Codec
import MovieVm.Movie.Loader
import MovieVm.Shell.Error
import MovieVm.Shell.Options
import MovieVm.Shell.Timing

/-!
# Analysis of files

A module is decoded and dropped. Of a movie the tags that the filter keeps are counted by name, and the
modules in them are decoded. `time` is what every stopwatch shows.
-/

namespace MovieVm.Shell

open Bytecode Movie

structure AnalysisOptions where
  /-- Print a record for each movie and leave its modules alone. -/
  forDatabase : Bool := false
  filters : List String := []
  verbose : Bool := false

namespace Analysis

def moduleLabel : String := "ABC"

def readFile (fs : Files) (path : String) : Except ShellError (List UInt8) :=
  match fs.read path with
  | .ok bytes => .ok bytes
  | .error fault => .error (.unreadable path fault)

def checkModule (path : String) (bytes : List UInt8) : Except ShellError Unit :=
  match Module.decode bytes moduleLabel with
  | .ok _ => .ok ()
  | .error cause => .error (.unparsable path (.module cause))

/-- The file that the bytes hold, with all its tags. -/
def loadFile (path : String) (bytes : List UInt8) : Except ShellError (Option File) :=
  let d := ({} : Loader).load bytes
  match d.result with
  | .ok () => .ok d.loader.file?
  | .error cause => .error (.unparsable path (.movie cause))

/-- The tags in order, each module's tag with its module. -/
def withBlocks : List TagRecord → List AbcBlock → List (Tag × Option AbcBlock)
  | [], _ => []
  | record :: records, blocks =>
    if record.tag.isAbc then (record.tag, blocks.head?) :: withBlocks records blocks.tail
    else (record.tag, none) :: withBlocks records blocks

/-- What is found in a file: timings, and the counts of its tags. -/
structure Findings where
  timeline : Timeline := {}
  counter : Counter := []

/-- Counts a tag that the filter keeps; a module in it must decode. -/
def visit (o : AnalysisOptions) (path : String) (time : Double) (f : Findings)
    (entry : Tag × Option AbcBlock) : Findings × Except ShellError Unit :=
  let (tag, block) := entry
  if !tag.isKept o.filters then (f, .ok ())
  else
    let counted (f : Findings) := { f with counter := f.counter.count tag.name 1 time }
    match block with
    | none => (counted f, .ok ())
    | some block =>
      if o.forDatabase then (counted f, .ok ())
      else
        let f := { f with timeline := f.timeline.time "Parse ABC" time }
        match checkModule path block.data with
        | .ok () => (counted f, .ok ())
        | .error e => (f, .error e)

def visitAll (o : AnalysisOptions) (path : String) (time : Double) :
    Findings → List (Tag × Option AbcBlock) → Findings × Except ShellError Unit
  | f, [] => (f, .ok ())
  | f, entry :: rest =>
    match visit o path time f entry with
    | (f, .ok ()) => visitAll o path time f rest
    | (f, .error e) => (f, .error e)

/-- The last name of a path, without the ending of a movie. -/
def baseName (path : String) : String :=
  let name := (((Files.components path).filter (fun part => part ≠ "" && part ≠ ".")).getLast?).getD ""
  if name = ".." then ""
  else if name.endsWith ".swf" then String.ofList (name.toList.take (name.length - 4)) else name

def databaseRecord (path : String) (size : Nat) (time : Double) (counter : Counter) : String :=
  Json.objectText [("size", toString size), ("time", Json.double time),
    ("name", Json.quoted (baseName path)), ("tags", counter.json)]

/-- Writes what was found, as far as it is asked for. -/
def conclude (o : AnalysisOptions) (path : String) (size : Nat) (time : Double) (f : Findings)
    (c : Console) : Console :=
  if o.forDatabase then c.writeLine (databaseRecord path size time f.counter)
  else if o.verbose then (f.counter.trace (c.enter "Tag Frequency:")).outdent
  else c

/-- The timeline is taken on from what was analysed before. -/
def analyseMovie (o : AnalysisOptions) (fs : Files) (path : String) (time : Double) (c : Console)
    (timeline : Timeline := {}) : Console × Timeline × Except ShellError Unit :=
  match readFile fs path with
  | .error e => (c, timeline, .error e)
  | .ok bytes =>
    let timeline := timeline.time "Load" time
    match loadFile path bytes with
    | .error e => (c, timeline, .error e)
    | .ok none => (c, timeline, .ok ())
    | .ok (some file) =>
      match visitAll o path time { timeline } (withBlocks file.tags.toList file.blocks.toList) with
      | (f, .error e) => (c, f.timeline, .error e)
      | (f, .ok ()) => (conclude o path bytes.length time f c, f.timeline, .ok ())

def analyseModule (fs : Files) (path : String) (time : Double) (timeline : Timeline) :
    Timeline × Except ShellError Unit :=
  match readFile fs path with
  | .error e => (timeline, .error e)
  | .ok bytes => (timeline.time "Parse ABC" time, checkModule path bytes)

/-- Analyses a file. A line says why one cannot be parsed. -/
def analyse (o : AnalysisOptions) (fs : Files) (path : String) (time : Double) (c : Console)
    (timeline : Timeline) : Console × Timeline :=
  let (c, timeline, result) :=
    match InputKind.ofPath? path with
    | some .swf => analyseMovie o fs path time c timeline
    | some .abc =>
      let (timeline, result) := analyseModule fs path time timeline
      (c, timeline, result)
    | _ => (c, timeline, .ok ())
  match result with
  | .ok () => (c, timeline)
  | .error e => (c.redLine s!"Cannot parse: {path}, reason: {e.reason}", timeline)

end Analysis

end MovieVm.Shell
