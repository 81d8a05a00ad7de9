import MovieVm.Bytecode.Disassembly
import MovieVm.Movie.Extraction
import MovieVm.Player.Basic
import MovieVm.Shell.Analysis
import MovieVm.Shell.CommandLine
import MovieVm.Shell.Mill
import MovieVm.Shell.Session

/-!
# The shell

A shell runs what its options select over its input files: the mill, compiling, parsing, and then
executing or disassembling. Executed files have a new domain each. Files that cannot be read or parsed are
reported and left; only compiling, bootstrapping and errors of modules outside of tests end a run.
-/

namespace MovieVm

open Bytecode Shell

/-- `stopwatch` is what every stopwatch shows, and `elapsed` how long a run of tasks takes. -/
structure Shell where
  options : Options
  files : List String
  fileSystem : Files := {}
  console : Console := {}
  schedule : Schedule Player.Action := {}
  session : Session := {}
  timeline : Timeline := {}
  domainsCreated : Nat := 0
  seed : Nat := 1
  stopwatch : Double := .zero
  elapsed : Nat → Nat := fun _ => 0

namespace Shell

/-- How a run ended. -/
inductive Verdict where
  | passed
  | testsFailed
deriving DecidableEq

def Verdict.exitCode : Verdict → Nat
  | passed => 0
  | testsFailed => 1

/-- A shell keeps what it did before an error. Without an error, the fuel did not suffice. -/
abbrev ShellRun := EStateM (Option ShellError) Shell

/-! ## Starting -/

/-- A shell for the options; every file must be an input file. -/
def start (options : Options) (console : Console) (fileSystem : Files) : Except ShellError Shell :=
  match options.inputs with
  | .error argument => .error (.unrecognized argument)
  | .ok files =>
    let level := if options.has .verbose then LogLevel.debug else .warn
    let console := { console with level, porcelain := options.has .porcelain }
    .ok { options, files, console, fileSystem }

/-- Movies need the globals of the player. -/
def loadsCatalog (s : Shell) : Bool :=
  s.options.has .playerGlobal || s.files.any fun file => InputKind.ofPath? file = some .swf

def bootstrap (s : Shell) : Bootstrap :=
  { builtin := s.options.builtinPath
    library := s.options.libraryPath?
    catalog := if s.loadsCatalog then some s.options.catalogPaths else none
    options := s.options.domainOptions }

/-- Every path that a run may read from or write to. -/
def paths (s : Shell) : List String :=
  s.files ++ [s.options.builtinPath] ++ s.options.libraryPath?.toList ++
    (if s.loadsCatalog then [s.options.catalogPaths.modules, s.options.catalogPaths.index] else []) ++
    (s.options.place? .fuzz).toList

/-! ## Helpers of a run -/

namespace Run

def write (f : Console → Console) : ShellRun Unit :=
  modify fun s => { s with console := f s.console }

/-- An error that does not end the run. -/
def report (e : ShellError) : ShellRun Unit :=
  write (·.errorLine e.message)

def settle : Except ShellError α → ShellRun α
  | .ok x => return x
  | .error e => throw (some e)

def fueled : Option α → ShellRun α
  | some x => return x
  | none => throw none

/-- Writes what code shows when nothing but its lines counts. -/
def present (effects : Effects) : ShellRun Unit :=
  write fun c => effects.foldl (fun c effect =>
    match effect with
    | .line text => c.writeLine text
    | .trace message => c.writeLine message
    | _ => c) c

/-- A new domain. -/
def newDomain (fuel : Nat) (use : Effects → ShellRun Unit) : ShellRun Domain := do
  let s ← get
  let (effects, result) ← fueled (s.bootstrap.run s.fileSystem fuel)
  use effects
  let d ← settle (result.mapError .bootstrap)
  modify fun s => { s with domainsCreated := s.domainsCreated + 1 }
  return d

/-! ## Compiling and parsing -/

/-- The modules of a file, each with its label. -/
def buffers (file : String) : ShellRun (List (String × List UInt8)) := do
  match InputKind.ofPath? file with
  | some .abc => return [(file, ← settle (Analysis.readFile (← get).fileSystem file))]
  | some .swf =>
    let bytes ← settle (Analysis.readFile (← get).fileSystem file)
    let (blocks, console) := Movie.extract (← get).console bytes
    write fun _ => console
    return (blocks.getD []).zipIdx.map fun (block, i) => (s!"{file}#{i}", block)
  | _ => return []

/-- Reads every module, and decodes them once all are read. -/
def compile : ShellRun Unit := do
  let found ← (← get).files.mapM buffers
  let modules := found.flatten
  let check : List (String × List UInt8) → Except ShellError Unit := fun modules =>
    modules.forM fun (label, bytes) =>
      match Module.decode bytes label with
      | .ok _ => .ok ()
      | .error cause => .error (.unparsable label (.module cause))
  modify fun s => { s with timeline := s.timeline.time "Parse" s.stopwatch }
  settle (check modules)
  if (← get).options.has .verbose then write (·.writeLine s!"Loading {modules.length} ABCs")
  let timeline := (← get).timeline
  write timeline.trace

def analysisOptions (o : Options) : AnalysisOptions :=
  { forDatabase := o.has .parseForDatabase, filters := o.filters, verbose := o.has .verbose }

/-- Analyses one file, with the lines around it. The files of a run have one timeline, which each of them resets. -/
def parseFile (s : Shell) : Console × Timeline → String → Console × Timeline
  | (c, timeline), file =>
    let c := c.debugLine s!"Parsing: {file}"
    let (c, timeline) :=
      Analysis.analyse (analysisOptions s.options) s.fileSystem file s.stopwatch c timeline.reset
    let c :=
      if s.options.has .verbose then c.writeLine s!"Total Parse Time: {milliseconds s.stopwatch}." else c
    (if s.options.has .profile then timeline.trace c else c, timeline)

def parse : ShellRun Unit := do
  let s ← get
  write fun c => (s.files.foldl (parseFile s) (c, {})).1

/-! ## Executing -/

def executeScript (fuel : Nat) (file : String) : ShellRun Unit := do
  let absorb (effects : Effects) : ShellRun Unit := modify fun s =>
    let b := effects.foldl Bench.absorb ⟨s.session, {}, s.console⟩
    { s with session := b.session, console := b.console }
  let d ← newDomain fuel absorb
  let s ← get
  let b : Bench := ⟨s.session, d, s.console⟩
  let (b, result) ← fueled
    (b.executeFile fuel s.fileSystem file (s.options.has .verbose) s.stopwatch)
  set { s with session := b.session, console := b.console }
  match result with
  | .ok _ => return
  | .error e =>
    report e
    modify fun s => { s with session := s.session.markFailed }

def readModule (file : String) : ShellRun (Except ShellError Module) := do
  match Analysis.readFile (← get).fileSystem file with
  | .error e => return .error e
  | .ok bytes =>
    match Module.decode bytes file with
    | .ok m => return .ok m
    | .error cause => return .error (.unparsable file (.module cause))

def executeModule (fuel : Nat) (file : String) : ShellRun Unit := do
  match ← readModule file with
  | .error e => report e
  | .ok m =>
    let d ← newDomain fuel present
    let o ← fueled (d.execute fuel .application m)
    present o.effects
    let _ ← settle (o.result.mapError (.failed file))

/-- Shows what the player reports. -/
def showReport (c : Console) : Player.Report → Console
  | .effect (.line text) => c.writeLine text
  | .effect (.trace message) => c.writeLine message
  | .effect _ => c
  | .detail line => c.debugLine line
  | .failure line => c.redLine line
  | .frame _ => c

/-- Plays a movie until nothing is left to do or a limit of the options is reached. -/
def executeMovie (fuel : Nat) (file : String) : ShellRun Unit := do
  let d ← newDomain fuel present
  let s ← get
  match Player.loadFile s.schedule { domain := d } s.fileSystem file with
  | .error fault => report (.unreadable file fault)
  | .ok (_, schedule, stage) =>
    write (·.infoLine s!"-Running: {file}")
    let limits : RunLimits := { duration := s.options.duration, count := s.options.count, elapsed := s.elapsed }
    let ran ← fueled (schedule.run (Player.behaviour fuel) limits true fuel { stage })
    modify fun s => { s with schedule := ran.schedule }
    write fun c => ran.world.reports.foldl showReport c
    let summary ← settle (ran.result.mapError (.failed file))
    let frames := ran.world.stage.framesProcessed
    write (·.debugLine s!"Ran {summary.executed} micro task(s), {frames} frame(s) processed")

def executeFile (fuel : Nat) (file : String) : ShellRun Unit :=
  match InputKind.ofPath? file with
  | some .script => executeScript fuel file
  | some .abc => executeModule fuel file
  | some .swf => executeMovie fuel file
  | none => return

def repeatedly (action : ShellRun Unit) : (times : Nat) → ShellRun Unit
  | 0 => return
  | times + 1 => do
    action
    repeatedly action times

def disassembleFile (file : String) : ShellRun Unit := do
  match ← readModule file with
  | .error e => report e
  | .ok m => write m.write

def disassemble (files : List String) : ShellRun Unit :=
  (files.filter fun file => InputKind.ofPath? file = some .abc).forM disassembleFile

/-! ## A whole run -/

/-- The mill has a writer of its own. -/
def mill (path : String) : ShellRun Unit := do
  let s ← get
  let (writer, console) := s.console.fork
  let (fileSystem, console, result) := Mill.run s.seed path s.fileSystem console writer
  set { s with fileSystem, console }
  let _ ← settle result

def whole (fuel : Nat) : ShellRun Verdict := do
  let s ← get
  let o := s.options
  if o.has .verbose then write o.trace
  match o.place? .fuzz with
  | some path => mill path
  | none => pure ()
  if o.has .compile then compile
  if o.has .parse then parse
  if o.has .execute then
    s.files.forM fun file => repeatedly (executeFile fuel file) o.repetitions
  else if o.has .disassemble then
    disassemble s.files
  if (← get).session.everFailed then
    write (·.errorLine "Some unit tests failed")
    return .testsFailed
  return .passed

end Run

/-- Runs everything that is selected. The shell that is left tells what was done, also after an error. -/
def run (s : Shell) (fuel : Nat) : Option (Shell × Except ShellError Verdict) :=
  match Run.whole fuel s with
  | .ok verdict s => some (s, .ok verdict)
  | .error (some e) s => some (s, .error e)
  | .error none _ => none

end Shell

end MovieVm
