import MovieVm.Domain.Bootstrap
import MovieVm.Player.Stage
import MovieVm.Schedule.Run

/-!
# The player

Loading and playing are tasks of a schedule. One task feeds a file to the loader piece by piece; once the
file is open a second one plays frame after frame at the rate of the file.
-/

namespace MovieVm.Player

open Movie

/-- A file on its way to the loader: the bytes that are left, or why they cannot be read. -/
structure Feed where
  source : Except FileFault (List UInt8)
  chunkSize : Nat
  loader : Loader := {}

inductive Action where
  | feed (feed : Feed)
  | playFrame

def defaultChunkSize : Nat := 65536

def loadInterval : Double :=
  .one

/-! ## Starting a load -/

/-- Schedules a load; a piece has at least one byte. -/
def load (s : Schedule Action) (stage : Stage) (source : Except FileFault (List UInt8)) (url : String)
    (chunkSize : Nat := defaultChunkSize) : Nat × Schedule Action × Stage :=
  let (id, s) := s.add (.repeating loadInterval (.feed { source, chunkSize := max 1 chunkSize }))
  (id, s, { stage with url, status := .loading })

/-- Schedules the load of a file that can be opened. A directory can, but not be read. -/
def loadFile (s : Schedule Action) (stage : Stage) (fs : Files) (path : String)
    (chunkSize : Nat := defaultChunkSize) : Except FileFault (Nat × Schedule Action × Stage) := do
  match ← fs.find path with
  | .file bytes => return load s stage (.ok bytes) path chunkSize
  | .directory => return load s stage (.error .isDirectory) path chunkSize

/-! ## Actions -/

/-- Hands the next piece to the loader, or tells it that there are no more. -/
def Feed.advance (f : Feed) (p : Playback) : Feed × Playback :=
  match f.source with
  | .ok bytes =>
    let piece := bytes.take f.chunkSize
    let d := if piece.isEmpty then f.loader.finish else f.loader.append piece
    ({ f with source := .ok (bytes.drop f.chunkSize), loader := d.loader },
      d.events.foldl Playback.observe p)
  | .error fault =>
    let line := s!"Cannot read {p.stage.url}: {fault.message}"
    (f, { p with stage := { p.stage with status := .failed } }.report (.failure line))

def Feed.resume (f : Feed) (p : Playback) : Feed × Playback :=
  let d := f.loader.resume
  ({ f with loader := d.loader }, d.events.foldl Playback.observe p)

/-- Feeds one piece, and schedules the frames when the file has been opened. -/
def performFeed (f : Feed) (running : Running Action) (p : Playback) : Performed Playback Action :=
  let (f, p) := f.advance p
  let (f, p) := f.resume p
  let isDone := f.loader.isFinished || p.stage.status = .failed
  let (running, p) :=
    if p.stage.opened && !p.stage.frameTaskScheduled then
      let (_, running) := running.add (.repeating p.stage.frameInterval .playFrame)
      (running, { p with stage := { p.stage with frameTaskScheduled := true } })
    else (running, p)
  ⟨if isDone then running.cancelCurrent else running, p, .ok (.feed f)⟩

/-- The command by which a movie stops the schedule. -/
def isQuit : Report → Bool
  | .effect (.command name _) => name = "quit"
  | _ => false

def performFrame (fuel : Nat) (running : Running Action) (p : Playback) :
    Option (Performed Playback Action) := do
  let (q, tick) ← p.tick fuel
  let running := if tick = .finished then running.cancelCurrent else running
  let running := if (q.reports.extract p.reports.size q.reports.size).any isQuit then running.stop else running
  return ⟨running, q, .ok .playFrame⟩

/-- What the tasks of a player do. -/
def behaviour (fuel : Nat) : Behaviour Playback Action
  | .feed f, running, p => some (performFeed f running p)
  | .playFrame, running, p => performFrame fuel running p

end MovieVm.Player
