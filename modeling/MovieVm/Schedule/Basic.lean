import MovieVm.Decimal.Layout
import MovieVm.Double.Arithmetic

/-!
# Schedules

A schedule holds tasks in the order of the virtual times at which they are due, tasks of one time in the
order in which they were queued. A task is known by its action; what an action does is left to whoever
runs the schedule.
-/

namespace MovieVm

/-! ## Spans of time -/

/-- A span of time is a number, and not below zero. -/
def Double.IsSpan (x : Double) : Prop :=
  x.isNaN = false ∧ 0 ≤ x.key

instance (x : Double) : Decidable x.IsSpan :=
  inferInstanceAs (Decidable (_ ∧ _))

theorem Double.isSpan_max_zero (x : Double) : (x.max .zero).IsSpan := by
  have hzero : Double.zero.IsSpan := by decide
  unfold Double.max
  split
  · exact hzero
  · split
    · exact absurd ‹_› (by decide)
    · split
      · exact hzero
      · rename_i hnumber _ hkey
        exact ⟨Bool.eq_false_iff.2 hnumber, Int.not_lt.1 hkey⟩

/-! ## Tasks -/

/-- A repeating task has an interval. -/
structure MicroTask (α : Type) where
  action : α
  delay : Double := .zero
  interval : Option Double := none
  delay_isSpan : delay.IsSpan := by decide
  interval_isSpan : ∀ i ∈ interval, i.IsSpan := by simp

namespace MicroTask

/-- An interval that is negative or no number counts as zero. -/
def repeating (interval : Double) (action : α) : MicroTask α where
  action
  interval := some (interval.max .zero)
  interval_isSpan := by
    intro i hi
    obtain rfl := Option.some.inj hi
    exact interval.isSpan_max_zero

/-- A delay that is negative or no number counts as zero. -/
def withDelay (t : MicroTask α) (delay : Double) : MicroTask α :=
  { t with delay := delay.max .zero, delay_isSpan := delay.isSpan_max_zero }

def description (t : MicroTask α) : String :=
  let interval :=
    match t.interval with
    | some interval => "Some(" ++ Decimal.Layout.literal.text interval ++ ")"
    | none => "None"
  "MicroTask \x7b delay: " ++ Decimal.Layout.plain.text t.delay ++ ", interval: " ++ interval ++ " \x7d"

end MicroTask

/-- A task that is due at a time. `order` counts the entries that were queued before it. -/
structure DueTask (α : Type) where
  id : Nat
  time : Double
  order : Nat
  task : MicroTask α

/-- Whether a task comes before another: the earlier one, and of two at one time the one queued first. -/
def DueTask.precedes (t u : DueTask α) : Bool :=
  t.time.totalKey < u.time.totalKey || (t.time.totalKey = u.time.totalKey && t.order < u.order)

/-- The virtual time at which schedules begin, in milliseconds. -/
def epoch : Double :=
  .ofNat 1388556000000

structure Schedule (α : Type) where
  tasks : List (DueTask α) := []
  nextId : Nat := 1
  nextOrder : Nat := 0
  now : Double := epoch
  isStopped : Bool := false

namespace Schedule

/-- Puts a task in front of the first one that it precedes. -/
def insert (t : DueTask α) : List (DueTask α) → List (DueTask α)
  | [] => [t]
  | u :: rest => if t.precedes u then t :: u :: rest else u :: insert t rest

theorem perm_insert (t : DueTask α) (tasks : List (DueTask α)) : (insert t tasks).Perm (t :: tasks) := by
  induction tasks with
  | nil => exact .refl _
  | cons u rest ih =>
    rw [insert]
    split
    · exact .refl _
    · exact (ih.cons u).trans (.swap t u rest)

theorem mem_insert {t u : DueTask α} {tasks : List (DueTask α)} : u ∈ insert t tasks ↔ u = t ∨ u ∈ tasks := by
  rw [(perm_insert t tasks).mem_iff, List.mem_cons]

/-- Queues an entry. -/
def push (s : Schedule α) (id : Nat) (time : Double) (task : MicroTask α) : Schedule α :=
  { s with tasks := insert ⟨id, time, s.nextOrder, task⟩ s.tasks, nextOrder := s.nextOrder + 1 }

/-- Schedules a task relative to the current time, under a new id. -/
def add (s : Schedule α) (task : MicroTask α) : Nat × Schedule α :=
  (s.nextId, { s with nextId := s.nextId + 1 }.push s.nextId (s.now.add task.delay) task)

def contains (s : Schedule α) (id : Nat) : Bool :=
  s.tasks.any (·.id = id)

/-- Drops a task; the answer says whether it was there. -/
def cancel (s : Schedule α) (id : Nat) : Bool × Schedule α :=
  (s.contains id, { s with tasks := s.tasks.filter (·.id ≠ id) })

def clear (s : Schedule α) : Schedule α :=
  { s with tasks := [] }

def size (s : Schedule α) : Nat :=
  s.tasks.length

def isEmpty (s : Schedule α) : Bool :=
  s.tasks.isEmpty

/-- Raises the signal that ends a run before its next task. -/
def stop (s : Schedule α) : Schedule α :=
  { s with isStopped := true }

end Schedule

end MovieVm
