import MovieVm.Movie.Reception

/-!
# Loading a file

A loader takes the bytes of a file in pieces and tells a listener what it finds: the file is opened once
its header is read, then come its progress and the symbols to announce, and at the end it is complete or
has failed. The listener may hold back all further events when it gets symbols, until it lets the loader
resume.
-/

namespace MovieVm.Movie

/-- A listener's answer to symbols. -/
inductive Ack where
  | done
  | pending
deriving DecidableEq

/-- Symbols read in one go, and the number of bytes read with them. -/
structure Batch where
  symbols : List Symbol
  bytes : Nat
deriving DecidableEq

structure Progress where
  bytesLoaded : Nat
  bytesTotal : Nat
  framesLoaded : Nat
deriving DecidableEq

inductive LoadEvent where
  | opened (file : File)
  | progressed (file : File) (progress : Progress)
  | symbols (batch : Batch)
  | image (symbol : Symbol)
  | completed (file : File)
  | failed (fault : Fault)
deriving DecidableEq

inductive Loader.State where
  | header
  | opened
  | complete
  | failed
deriving DecidableEq

/-- `acks` are the answers that the listener is going to give; when they run out it answers `done`. -/
structure Loader where
  reception : Reception := .start
  state : Loader.State := .header
  batches : List Batch := []
  progressDue : Bool := false
  isWaiting : Bool := false
  inputFinished : Bool := false
  acks : List Ack := []

namespace Loader

def file? (l : Loader) : Option File :=
  l.reception.file?

def isFinished (l : Loader) : Bool :=
  l.state = .complete || l.state = .failed

/-- What a call of the loader leads to. -/
structure Delivery where
  loader : Loader
  events : List LoadEvent
  result : Except Fault Unit

/-! ## Steps -/

/-- One step of the delivery: there is more to do, or the call ends. -/
inductive Step where
  | next (loader : Loader) (events : List LoadEvent)
  | stop (delivery : Delivery)

def rest (l : Loader) : Step :=
  .stop ⟨l, [], .ok ()⟩

def fail (l : Loader) (fault : Fault) : Delivery :=
  ⟨{ l with state := .failed, batches := [] }, [.failed fault], .error fault⟩

/-- Waits for more input, or fails when there will be none. -/
def await (l : Loader) : Step :=
  if l.inputFinished then .stop (l.fail l.reception.incomplete) else l.rest

def batchEvents (b : Batch) : List LoadEvent :=
  .symbols b :: (b.symbols.filter (·.kind = .image)).map .image

/-- Announces the symbols of a batch. -/
def deliver (l : Loader) (b : Batch) (batches : List Batch) : Step :=
  let waits := l.acks.head? = some .pending
  let l := { l with batches, acks := l.acks.tail, isWaiting := waits }
  if waits then .stop ⟨l, batchEvents b, .ok ()⟩ else .next l (batchEvents b)

/-- The loader after a scan that has read something. -/
def scanned (l : Loader) (s : File.Scan) : Loader :=
  if s.tags = 0 then l
  else
    { l with
      progressDue := true
      batches := if s.eager.isEmpty then l.batches else l.batches ++ [⟨s.eager, s.bytes⟩] }

/-- Reads the header and the tags that are there with it. -/
def openFile (l : Loader) (p : Preamble) (intake : Intake) (body : List UInt8) : Step :=
  match p.readHeader body with
  | .error fault => .stop (l.fail fault)
  | .ok none => l.await
  | .ok (some (file, body)) =>
    let (file, body, outcome) := file.scan body
    let l := { l with reception := .tags intake file body }
    match outcome with
    | .error fault => .stop (l.fail fault)
    | .ok s => .next { l.scanned s with state := .opened } [.opened file]

def progressOf (file : File) : Progress :=
  ⟨file.bytesLoaded, file.header.fileLength, file.frames.size⟩

/-- Reads the tags that have arrived since; when there are none, the file is complete or waited for. -/
def readOn (l : Loader) (intake : Intake) (file : File) (body : List UInt8) : Step :=
  let (file, body, outcome) := file.scan body
  let l := { l with reception := .tags intake file body }
  match outcome with
  | .error fault => .stop (l.fail fault)
  | .ok s =>
    if s.tags ≠ 0 then .next (l.scanned s) []
    else if file.isComplete then .stop ⟨{ l with state := .complete }, [.completed file], .ok ()⟩
    else l.await

def step (l : Loader) : Step :=
  if l.isWaiting || l.isFinished then l.rest
  else
    match l.batches with
    | b :: batches => l.deliver b batches
    | [] =>
      match l.reception with
      | .preamble _ => l.await
      | .header p intake body => l.openFile p intake body
      | .tags intake file body =>
        if l.progressDue then
          .next { l with progressDue := false } [.progressed file (progressOf file)]
        else l.readOn intake file body

/-! ## Delivery -/

/-- What is left to do: bytes to read, batches to announce, progress to tell. -/
def work (l : Loader) : Nat :=
  2 * l.reception.pending + l.batches.length + l.progressDue.toNat

/-- Takes steps until the call ends. -/
def run (l : Loader) (fuel : Nat) : Delivery :=
  match fuel with
  | 0 => ⟨l, [], .ok ()⟩
  | fuel + 1 =>
    match l.step with
    | .stop d => d
    | .next l events =>
      let d := run l fuel
      { d with events := events ++ d.events }

/-- Each step that does not end the call lessens the work. -/
def process (l : Loader) : Delivery :=
  l.run (l.work + 1)

/-! ## Calls -/

/-- Takes the next piece of the file. What comes after the end of the file does not count, until the
input is declared finished. -/
def append (l : Loader) (bytes : List UInt8) : Delivery :=
  if l.state = .complete && !l.inputFinished then ⟨l, [], .ok ()⟩
  else if l.isFinished || l.inputFinished then ⟨l, [], .error .closed⟩
  else
    match l.reception.push bytes with
    | .error fault => l.fail fault
    | .ok reception => { l with reception }.process

/-- Declares the input finished. -/
def finish (l : Loader) : Delivery :=
  let closed := l.state = .failed
  let l := { l with inputFinished := true }
  if closed then ⟨l, [], .error .closed⟩ else l.process

/-- Lets a loader that waits go on. -/
def resume (l : Loader) : Delivery :=
  if l.isWaiting then { l with isWaiting := false }.process else ⟨l, [], .ok ()⟩

/-- Takes a whole file. -/
def load (l : Loader) (bytes : List UInt8) : Delivery :=
  let d := l.append bytes
  match d.result with
  | .error _ => d
  | .ok () =>
    let e := d.loader.finish
    { e with events := d.events ++ e.events }

end Loader

end MovieVm.Movie
