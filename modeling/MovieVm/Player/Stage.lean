import MovieVm.Domain.Execution
import MovieVm.Movie.Loader

/-!
# The stage

A stage has a domain and the frames of a movie as far as they have been loaded. Each tick plays one
frame: its modules run the first time it is played, and the handler for entering a frame runs every time.
-/

namespace MovieVm.Player

open Bytecode Movie

inductive LoadStatus where
  | idle
  | loading
  | complete
  | failed
deriving DecidableEq

structure StageFrame where
  label : Option String
  blocks : List AbcBlock
  scriptsRun : Bool := false
deriving DecidableEq

def defaultFrameRate : Double :=
  .ofNat 24

/-- The global that is called for each frame. -/
def enterFrame : String := "onEnterFrame"

structure Stage where
  domain : Domain
  url : String := ""
  status : LoadStatus := .idle
  frameRate : Double := defaultFrameRate
  opened : Bool := false
  frameTaskScheduled : Bool := false
  framesProcessed : Nat := 0
  frames : Array StageFrame := #[]
  nextFrame : Nat := 0

/-- What playing shows to the program around it, in order. -/
inductive Report where
  | effect (effect : Effect)
  | detail (line : String)
  | failure (line : String)
  | frame (number : Nat)
deriving DecidableEq

/-- What became of a tick. -/
inductive Tick where
  | played
  | waiting
  | finished
deriving DecidableEq

namespace Stage

def frameLabel? (s : Stage) (index : Nat) : Option String :=
  s.frames[index]?.bind (·.label)

/-- Milliseconds from frame to frame. A rate that is not positive counts as the default. -/
def frameInterval (s : Stage) : Double :=
  let rate := if s.frameRate.compare? .zero = some .gt then s.frameRate else defaultFrameRate
  (Double.ofNat 1000).div rate

def ofFrame (file : File) (frame : Movie.Frame) : StageFrame :=
  ⟨frame.label, frame.blocks.toList.filterMap (file.blocks[·]?), false⟩

/-- Takes over the frames that have come since. -/
def sync (s : Stage) (file : File) : Stage :=
  { s with frames := s.frames ++ ((file.frames.toList.drop s.frames.size).map (ofFrame file)).toArray }

/-- The handler, if the global is a function. -/
def enterFrameHandler? (s : Stage) : Option Value :=
  match s.domain.getGlobal? .application enterFrame with
  | some (.function f) => some (.function f)
  | some (.native name) => some (.native name)
  | _ => none

end Stage

/-! ## Playback -/

/-- A stage, and what has been reported so far. -/
structure Playback where
  stage : Stage
  reports : Array Report := #[]

namespace Playback

def report (p : Playback) (r : Report) : Playback :=
  { p with reports := p.reports.push r }

/-- A failure, and the stack of the error behind it. -/
def reportError (p : Playback) (line : String) (e : VmError) : Playback :=
  e.stackLines.foldl (fun p line => p.report (.failure line)) (p.report (.failure line))

/-- Takes over the domain and the effects of a run. -/
def takeOver (p : Playback) (o : Outcome Value) : Playback :=
  { stage := { p.stage with domain := o.domain }, reports := p.reports ++ o.effects.map .effect }

def blockLabel (url : String) (number index : Nat) (name : String) : String :=
  if name.isEmpty then s!"{url}#frame{number}.abc{index}" else s!"{url}#{name}"

/-- Runs a module of a frame. A module that cannot be read or that fails is reported and left. -/
def runBlock (p : Playback) (fuel number : Nat) (block : AbcBlock) (index : Nat) : Option Playback :=
  let label := blockLabel p.stage.url number index block.name
  match Module.decode block.data label with
  | .error e => some (p.report (.failure s!"Cannot parse ABC block {label}: {e.message}"))
  | .ok m => do
    let p := p.report (.detail s!"Executing {label}")
    let o ← p.stage.domain.execute fuel .application m
    let p := p.takeOver o
    match o.result with
    | .ok _ => return p
    | .error e => return p.reportError s!"Error while executing {label}: {e.text}" e

def runBlocks (fuel number : Nat) (p : Playback) : List (AbcBlock × Nat) → Option Playback
  | [] => some p
  | (block, index) :: rest => do
    let p ← p.runBlock fuel number block index
    runBlocks fuel number p rest

/-- Calls the handler, if there is one. -/
def callHandler (p : Playback) (fuel number : Nat) : Option Playback :=
  match p.stage.enterFrameHandler? with
  | none => some p
  | some handler => do
    let argument := Value.int (Int32.ofInt (min number 2147483647))
    let o ← p.stage.domain.invoke fuel handler [argument]
    let p := p.takeOver o
    match o.result with
    | .ok _ => return p
    | .error e => return p.reportError s!"Error in {enterFrame} at frame {number}: {e.text}" e

/-- Plays a frame by its index; frames are numbered from 1. -/
def play (p : Playback) (fuel index : Nat) (frame : StageFrame) : Option Playback := do
  let number := index + 1
  let stage := { p.stage with
    nextFrame := index + 1
    frames := p.stage.frames.setIfInBounds index { frame with blocks := [], scriptsRun := true } }
  let p ← runBlocks fuel number { p with stage } (if frame.scriptsRun then [] else frame.blocks.zipIdx)
  let p ← p.callHandler fuel number
  let stage := { p.stage with framesProcessed := p.stage.framesProcessed + 1 }
  return ({ p with stage } : Playback).report (.frame number)

/-- Advances by one frame. After the last frame playing waits for a load that goes on, begins anew while
there is a handler, and else is finished. -/
def tick (p : Playback) (fuel : Nat) : Option (Playback × Tick) :=
  let s := p.stage
  let next := if s.nextFrame < s.frames.size then s.nextFrame else 0
  match s.frames[next]? with
  | none => some (p, if s.status = .loading then .waiting else .finished)
  | some frame =>
    if s.frames.size ≤ s.nextFrame && s.status = .loading then some (p, .waiting)
    else if s.frames.size ≤ s.nextFrame && s.enterFrameHandler?.isNone then some (p, .finished)
    else (p.play fuel next frame).map fun p => (p, .played)

/-! ## Loading -/

/-- Takes note of an event of the loader. -/
def observe (p : Playback) (event : LoadEvent) : Playback :=
  let s := p.stage
  match event with
  | .opened file =>
    let h := file.header
    let rate := Decimal.Layout.plain.text h.frameRate
    let stage := { s with opened := true, frameRate := h.frameRate }
    { p with stage := stage.sync file }.report (.detail
      s!"Opened {s.url}: version {h.version.toNat}, {h.frameCount} frame(s) at {rate} fps")
  | .progressed file _ => { p with stage := s.sync file }
  | .symbols batch => p.report (.detail s!"{batch.symbols.length} eagerly parsed symbol(s)")
  | .image _ => p
  | .completed file =>
    { p with stage := { s.sync file with status := .complete } }.report (.detail
      s!"Loaded {s.url}: {file.frames.size} frame(s), {file.blocks.size} ABC block(s)")
  | .failed fault =>
    { p with stage := { s with status := .failed } }.report (.failure
      s!"Cannot load {s.url}: {fault.message}")

end Playback

end MovieVm.Player
