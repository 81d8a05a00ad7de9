import MovieVm.Shell.Basic

/-!
# The program

Reads the files that a run may need, runs a shell over them, and shows what its console holds. Everything
that is decided here is where the files lie on the disk.
-/

namespace MovieVm.Program

open Shell

/-- What stands on the disk at a location. Opening a directory to read it is an error of its own. -/
def node? (l : Location) : IO (Option FileNode) := do
  match ← (IO.FS.readBinFile ("/" ++ "/".intercalate l)).toBaseIO with
  | .ok bytes => return some (.file bytes.toList)
  | .error (.inappropriateType ..) => return some .directory
  | .error _ => return none

/-- Adds what stands on the disk along a path. -/
def addPath (fs : Files) (path : String) : IO Files :=
  (fs.route path).foldlM (fun fs l => return ((← node? l).map (fs.put l)).getD fs) fs

/-- The files of the disk that some paths lead to. -/
def filesAt (paths : List String) : IO Files := do
  let here := (Files.components (← IO.currentDir).toString).filter (· ≠ "")
  let fs : Files := { entries := [(here, .directory)], workingDirectory := here, rooted := true }
  paths.foldlM addPath fs

/-- Writes the file that the mill has made. -/
def saveMilled (s : Shell) : IO Unit := do
  let some path := s.options.place? .fuzz | return
  let .ok bytes := s.fileSystem.read path | return
  IO.FS.writeBinFile path ⟨bytes.toArray⟩

def present (c : Console) : IO Unit :=
  c.emitted.forM fun e =>
    match e.channel with
    | .out => IO.println e.line
    | .err => IO.eprintln e.line

/-- Shows everything and gives the exit code. -/
def finish (c : Console) : Except ShellError Verdict → IO UInt32
  | .ok verdict => do
    present c
    return UInt32.ofNat verdict.exitCode
  | .error e => do
    present (c.redLine s!"Error: {e.message}")
    return 1

/-- Longer than any run that ends. -/
def fuel : Nat := 0x4000000000000000

def runShell (s : Shell) : IO UInt32 := do
  let fileSystem ← filesAt s.paths
  let seed ← IO.rand 0 (0x10000000000000000 - 1)
  -- A thousand tasks are taken to last a millisecond.
  match ({ s with fileSystem, seed, elapsed := (· / 1000) } : Shell).run fuel with
  | none => return 1
  | some (s, result) =>
    saveMilled s
    finish s.console result

def run (arguments : List String) : IO UInt32 := do
  let console : Console := { colors := ← (← IO.getStdout).isTty }
  match Options.ofArguments arguments with
  | .error .help =>
    IO.print usage
    return 0
  | .error fault =>
    IO.eprintln fault.message
    return 2
  | .ok options =>
    match Shell.start options console {} with
    | .error e => finish console (.error e)
    | .ok s => runShell s

end MovieVm.Program

def main (arguments : List String) : IO UInt32 :=
  MovieVm.Program.run arguments
