import MovieVm.Schedule.Basic
import MovieVm.VmError

/-!
# Running a schedule

A run performs the tasks in order and moves the virtual clock forward to each of them. It is bounded by
a number of tasks, by a duration, or by the stop signal, and none of these interrupts a task.
-/

namespace MovieVm

/-- What a task works on while it runs: the schedule without itself. -/
structure Running (α : Type) where
  schedule : Schedule α
  id : Nat
  isCancelled : Bool := false

namespace Running

def add (r : Running α) (task : MicroTask α) : Nat × Running α :=
  let (id, schedule) := r.schedule.add task
  (id, { r with schedule })

/-- Keeps the task from being repeated. -/
def cancelCurrent (r : Running α) : Running α :=
  { r with isCancelled := true }

/-- Cancels a scheduled task, or the running one by its own id. -/
def cancel (r : Running α) (id : Nat) : Bool × Running α :=
  if id = r.id then (true, r.cancelCurrent)
  else
    let (found, schedule) := r.schedule.cancel id
    (found, { r with schedule })

def stop (r : Running α) : Running α :=
  { r with schedule := r.schedule.stop }

end Running

/-- What a task leaves behind: the world it changed, and its action for the next time or an error. -/
structure Performed (σ α : Type) where
  running : Running α
  world : σ
  result : Except VmError α

/-- What actions do. There is no answer when the fuel of an action does not suffice. -/
abbrev Behaviour (σ α : Type) :=
  α → Running α → σ → Option (Performed σ α)

inductive RunEnd where
  | empty
  | countReached
  | durationElapsed
  | stopped
deriving DecidableEq

structure RunSummary where
  executed : Nat
  reason : RunEnd
  remaining : Nat
deriving DecidableEq

/-- Limits of a run; zero means no limit. `elapsed` tells how many milliseconds have passed when a number
of tasks has been performed. -/
structure RunLimits where
  duration : Nat := 0
  count : Nat := 0
  elapsed : Nat → Nat := fun _ => 0

structure Ran (σ α ε : Type) where
  schedule : Schedule α
  world : σ
  result : ε

namespace Schedule

/-- Why a run ends before its next task, none if it goes on. -/
def ending? (s : Schedule α) (limits : RunLimits) (executed : Nat) : Option RunEnd :=
  if s.isStopped then some .stopped
  else if s.isEmpty then some .empty
  else if 0 < limits.count && limits.count ≤ executed then some .countReached
  else if 0 < limits.duration && limits.duration ≤ limits.elapsed executed then some .durationElapsed
  else none

/-- Queues a repeating task again, one interval after the time it was due. -/
def reschedule (s : Schedule α) (due : DueTask α) (action : α) (isCancelled : Bool) : Schedule α :=
  match due.task.interval with
  | some interval =>
    if isCancelled then s else s.push due.id (due.time.add interval) { due.task with action }
  | none => s

section

variable {s : Schedule α} {due : DueTask α} {action : α} {isCancelled : Bool}

theorem reschedule_of_none (h : due.task.interval = none) : s.reschedule due action isCancelled = s := by
  unfold reschedule
  split
  · rename_i hinterval
    cases h.symm.trans hinterval
  · rfl

theorem reschedule_cancelled : s.reschedule due action true = s := by
  unfold reschedule
  split <;> rfl

theorem reschedule_of_some {interval : Double} (h : due.task.interval = some interval) :
    s.reschedule due action false = s.push due.id (due.time.add interval) { due.task with action } := by
  unfold reschedule
  split
  · rename_i hinterval
    obtain rfl := Option.some.inj (h.symm.trans hinterval)
    rfl
  · rename_i hinterval
    cases h.symm.trans hinterval

end

/-- What a task that has been taken off the schedule works on; the clock has moved forward to its time. -/
def start (s : Schedule α) (due : DueTask α) : Running α where
  schedule := { s with now := s.now.max due.time }
  id := due.id

/-- Takes over what a task has left behind. A task that has failed is not queued again. -/
def conclude (due : DueTask α) (p : Performed σ α) : Ran σ α (Except VmError Unit) :=
  match p.result with
  | .error e => ⟨p.running.schedule, p.world, .error e⟩
  | .ok action => ⟨p.running.schedule.reschedule due action p.running.isCancelled, p.world, .ok ()⟩

/-- Performs one task that has been taken off the schedule. -/
def perform (s : Schedule α) (behaviour : Behaviour σ α) (due : DueTask α) (world : σ) :
    Option (Ran σ α (Except VmError Unit)) :=
  (behaviour due.task.action (s.start due) world).map (conclude due)

/-- Performs tasks until the run ends. -/
def runFrom (behaviour : Behaviour σ α) (limits : RunLimits) (fuel : Nat) (executed : Nat)
    (s : Schedule α) (world : σ) : Option (Ran σ α (Except VmError (Nat × RunEnd))) :=
  match s.ending? limits executed, s.tasks with
  | some reason, _ => some ⟨s, world, .ok (executed, reason)⟩
  | none, [] => some ⟨s, world, .ok (executed, .empty)⟩
  | none, due :: tasks =>
    match fuel with
    | 0 => none
    | fuel + 1 => do
      let ran ← perform { s with tasks } behaviour due world
      match ran.result with
      | .error e => return ⟨ran.schedule, ran.world, .error e⟩
      | .ok () => runFrom behaviour limits fuel (executed + 1) ran.schedule ran.world

/-- Runs the schedule. The stop signal is lowered at the start; with `clears` the tasks that are left are
dropped at the end, and an error of a task ends the run. -/
def run (s : Schedule α) (behaviour : Behaviour σ α) (limits : RunLimits) (clears : Bool) (fuel : Nat)
    (world : σ) : Option (Ran σ α (Except VmError RunSummary)) := do
  let ran ← runFrom behaviour limits fuel 0 { s with isStopped := false } world
  let schedule := if clears then ran.schedule.clear else ran.schedule
  return ⟨schedule, ran.world, ran.result.map fun (executed, reason) =>
    ⟨executed, reason, schedule.size⟩⟩

end Schedule

end MovieVm
