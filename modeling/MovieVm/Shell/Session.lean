import MovieVm.Bytecode.Assembly.Basic
import MovieVm.Console
import MovieVm.Shell.Error
import MovieVm.Shell.Timing

/-!
# Unit-test sessions

A script registers its tests while it runs. A session keeps them in a queue, which is then drained from
the front; tests that are registered meanwhile are run too. A count in the queue says how often the next
test is run.
-/

namespace MovieVm.Shell

open Bytecode

structure Session where
  queue : List TestEntry := []
  everFailed : Bool := false

/-- How many invocations a drain made, and how many of them failed. -/
structure TestReport where
  tests : Nat := 0
  failures : Nat := 0
deriving DecidableEq

/-- A session with the domain that its tests run in and the console it writes to. -/
structure Bench where
  session : Session
  domain : Domain
  console : Console

namespace Session

def push (s : Session) (entry : TestEntry) : Session :=
  { s with queue := s.queue ++ [entry] }

def markFailed (s : Session) : Session :=
  { s with everFailed := true }

end Session

namespace Bench

/-- An effect of code that runs for a session: lines are written, tests are queued. -/
def absorb (b : Bench) (effect : Effect) : Bench :=
  match effect with
  | .line text => { b with console := b.console.writeLine text }
  | .trace message => { b with console := b.console.writeLine message }
  | .register entry => { b with session := b.session.push entry }
  | .command _ _ => b

/-- Takes over the domain and the effects of a run. -/
def takeOver (b : Bench) (o : Outcome Value) : Bench :=
  o.effects.foldl absorb { b with domain := o.domain }

def markFailed (b : Bench) : Bench :=
  { b with session := b.session.markFailed }

def reportError (b : Bench) (line : String) (e : VmError) : Bench :=
  { b with console := (b.console.redLine line).redLines e.stackLines }

/-! ## Draining the queue -/

/-- Invokes a test a number of times and counts the failures. -/
def invoke (fuel : Nat) (file name : String) (function : Value) :
    (times : Nat) → Bench → Option (Bench × Nat)
  | 0, b => some (b, 0)
  | times + 1, b => do
    let o ← b.domain.invoke fuel function []
    let b := b.takeOver o
    match o.result with
    | .ok _ => invoke fuel file name function times b
    | .error e =>
      let line := s!"Exception encountered while running {file}:({name}) {e.text}"
      let (b, failures) ← invoke fuel file name function times (b.markFailed.reportError line e)
      return (b, failures + 1)

/-- Reads the queue to its end. A count holds for the next test only, and the last one given counts. -/
def drain (fuel : Nat) (file : String) (verbose : Bool) :
    (steps : Nat) → (times : Nat) → Bench → TestReport → Option (Bench × TestReport)
  | 0, _, b, report => if b.session.queue.isEmpty then some (b, report) else none
  | steps + 1, times, b, report =>
    match b.session.queue with
    | [] => some (b, report)
    | .repeatNext count :: queue =>
      drain fuel file verbose steps count { b with session := { b.session with queue } } report
    | .test name function :: queue => do
      let b := { b with session := { b.session with queue } }
      let b :=
        if verbose && !name.isEmpty then { b with console := b.console.writeLine s!"Test: {name}" } else b
      let (b, failures) ← invoke fuel file name function times b
      drain fuel file verbose steps 1 b ⟨report.tests + times, report.failures + failures⟩

def reportLine (report : TestReport) (time : Double) : String :=
  let plural := if 1 < report.tests then "s" else ""
  s!"Completed {report.tests} test{plural} in {milliseconds time}."

/-- Runs all tests of the queue. `time` is what it took. -/
def runTests (b : Bench) (fuel : Nat) (file : String) (verbose : Bool) (time : Double) :
    Option (Bench × TestReport) := do
  let (b, report) ← drain fuel file verbose fuel 1 b {}
  return ({ b with console := b.console.writeLine (reportLine report time) }, report)

/-! ## Scripts -/

def readScript (fs : Files) (path : String) : Except ShellError Module := do
  match fs.readText path with
  | .error fault => throw (.unreadable path fault)
  | .ok source =>
    match Module.assemble source path with
    | .ok m => return m
    | .error cause => throw (.unparsable path (.script cause))

/-- Runs a script and then the tests that it has registered, also when it has failed. -/
def executeFile (b : Bench) (fuel : Nat) (fs : Files) (path : String) (verbose : Bool) (time : Double) :
    Option (Bench × Except ShellError TestReport) := do
  let b := { b with console := b.console.writeLine s!"Running test file: {path} ..." }
  match readScript fs path with
  | .error e => return (b, .error e)
  | .ok m =>
    let o ← b.domain.execute fuel .application m
    let b := b.takeOver o
    let b := match o.result with
      | .ok _ => b
      | .error e => b.markFailed.reportError s!"Exception encountered while running {path}: {e.text}" e
    let (b, report) ← b.runTests fuel path verbose time
    return (b, .ok report)

end Bench

end MovieVm.Shell
