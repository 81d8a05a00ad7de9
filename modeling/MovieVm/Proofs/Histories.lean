import MovieVm.Proofs.Success
import MovieVm.Schedule.Run

/-!
# Histories of a schedule

Tasks are added, cancelled or dropped, the stop signal is raised or lowered, and the first task is taken off
and performed. A history is any sequence of such moves, with a record of what became of the tasks. What holds
of a new schedule and is kept by every move holds of every history, and a run is a sequence of moves.
-/

namespace MovieVm

/-! ## What a task asks for -/

namespace Schedule

/-- What a running task can ask for. -/
inductive Request (α : Type) where
  | add (task : MicroTask α)
  | cancel (id : Nat)
  | cancelCurrent
  | stop

/-- Whether the task with the id cancels itself by the request. -/
def Request.cancels (id : Nat) : Request α → Bool
  | .cancel target => target = id
  | .cancelCurrent => true
  | _ => false

/-- A line of the record. A cancellation names its caller when that is a running task. -/
inductive Note (α : Type) where
  | scheduled (id : Nat) (task : MicroTask α)
  | cancelled (caller : Option Nat) (id : Nat) (answer : Bool)
  | cancelledCurrent (id : Nat)
  | started (due : DueTask α) (now : Double)
  | repeated (id : Nat)
  | failed (id : Nat) (error : VmError)
  | dropped (ids : List Nat)

end Schedule

namespace Running

open Schedule

def grant (r : Running α) : Request α → Running α
  | .add task => (r.add task).2
  | .cancel id => (r.cancel id).2
  | .cancelCurrent => r.cancelCurrent
  | .stop => r.stop

/-- What the record says of a request that is granted. -/
def note (r : Running α) : Request α → List (Note α)
  | .add task => [.scheduled (r.add task).1 task]
  | .cancel id => [.cancelled (some r.id) id (r.cancel id).1]
  | .cancelCurrent => [.cancelledCurrent r.id]
  | .stop => []

/-- Grants one request after the other. -/
def session (r : Running α) : List (Request α) → Running α × List (Note α)
  | [] => (r, [])
  | q :: requests =>
    let after := (r.grant q).session requests
    (after.1, r.note q ++ after.2)

theorem grant_id (r : Running α) (q : Request α) : (r.grant q).id = r.id := by
  cases q with
  | cancel id =>
    rw [grant, cancel]
    split <;> rfl
  | _ => rfl

theorem grant_isCancelled (r : Running α) (q : Request α) :
    (r.grant q).isCancelled = (r.isCancelled || q.cancels r.id) := by
  cases q with
  | cancel id =>
    rw [grant, cancel, Request.cancels]
    split
    · rename_i hid
      rw [decide_eq_true hid, Bool.or_true]
      rfl
    · rename_i hid
      rw [decide_eq_false hid, Bool.or_false]
  | cancelCurrent => exact (Bool.or_true _).symm
  | _ => exact (Bool.or_false _).symm

/-- A task is cancelled when it asks for that. -/
theorem session_isCancelled (r : Running α) (requests : List (Request α)) :
    (r.session requests).1.isCancelled = (r.isCancelled || requests.any (·.cancels r.id)) := by
  induction requests generalizing r with
  | nil => exact (Bool.or_false _).symm
  | cons q requests ih =>
    rw [session, ih, grant_id, grant_isCancelled, List.any_cons, Bool.or_assoc]

end Running

namespace Schedule

/-- A behaviour whose actions reach the schedule through requests only. -/
structure Conduct (σ α : Type) where
  behaviour : Behaviour σ α
  requests : α → Running α → σ → List (Request α)
  granted : ∀ {action r world p}, behaviour action r world = some p →
    p.running = (r.session (requests action r world)).1

/-! ## Moves -/

/-- What can happen to a schedule. A run begins with the stop signal lowered, performs tasks, each in whatever
world it finds, and may clear the schedule in the end. -/
inductive Move (σ α : Type) where
  | add (task : MicroTask α)
  | cancel (id : Nat)
  | clear
  | stop
  | begin
  | perform (world : σ)

/-- A schedule with the record of what has happened to it. -/
structure History (α : Type) where
  schedule : Schedule α := {}
  notes : List (Note α) := []

/-- The last line of the record of a task that was performed. -/
def closing (due : DueTask α) (p : Performed σ α) : List (Note α) :=
  match p.result with
  | .error e => [.failed due.id e]
  | .ok _ => if due.task.interval.isSome && !p.running.isCancelled then [.repeated due.id] else []

namespace Conduct

variable (c : Conduct σ α)

/-- The record of a task that is performed. -/
def performance (due : DueTask α) (r : Running α) (world : σ) (p : Performed σ α) : List (Note α) :=
  .started due r.schedule.now :: ((r.session (c.requests due.task.action r world)).2 ++ closing due p)

/-- A schedule has no first task when it is empty; an action that does not end leads nowhere. -/
def move (h : History α) : Move σ α → History α
  | .add task =>
    let (id, schedule) := h.schedule.add task
    ⟨schedule, h.notes ++ [.scheduled id task]⟩
  | .cancel id =>
    let (found, schedule) := h.schedule.cancel id
    ⟨schedule, h.notes ++ [.cancelled none id found]⟩
  | .clear => ⟨h.schedule.clear, h.notes ++ [.dropped (h.schedule.tasks.map (·.id))]⟩
  | .stop => { h with schedule := h.schedule.stop }
  | .begin => { h with schedule := { h.schedule with isStopped := false } }
  | .perform world =>
    match h.schedule.tasks with
    | [] => h
    | due :: tasks =>
      let r := start { h.schedule with tasks } due
      match c.behaviour due.task.action r world with
      | none => h
      | some p => ⟨(conclude due p).schedule, h.notes ++ c.performance due r world p⟩

/-- Makes one move after the other. -/
def after (h : History α) (moves : List (Move σ α)) : History α :=
  moves.foldl c.move h

/-- What moves make of a new schedule. -/
def history (moves : List (Move σ α)) : History α :=
  c.after {} moves

@[simp]
theorem after_append (h : History α) (moves more : List (Move σ α)) :
    c.after h (moves ++ more) = c.after (c.after h moves) more :=
  List.foldl_append

theorem history_append (moves more : List (Move σ α)) :
    c.history (moves ++ more) = c.after (c.history moves) more :=
  c.after_append {} moves more

end Conduct

/-- Whether a task is queued again has nothing to do with the stop signal. -/
theorem isStopped_conclude {due : DueTask α} {p : Performed σ α} :
    (conclude due p).schedule.isStopped = p.running.schedule.isStopped := by
  unfold conclude
  split
  · rfl
  · unfold reschedule
    split
    · split <;> rfl
    · rfl

/-! ## Starts -/

def Note.started? : Note α → Option (DueTask α)
  | .started due _ => some due
  | _ => none

/-- The tasks that were started, in their order. -/
def starts (notes : List (Note α)) : List (DueTask α) :=
  notes.filterMap Note.started?

@[simp]
theorem starts_append (front back : List (Note α)) : starts (front ++ back) = starts front ++ starts back :=
  List.filterMap_append

theorem starts_session (r : Running α) (requests : List (Request α)) : starts (r.session requests).2 = [] := by
  induction requests generalizing r with
  | nil => rfl
  | cons q requests ih =>
    have hnote : starts (r.note q) = [] := by
      cases q <;> rfl
    rw [Running.session, starts_append, hnote, ih, List.append_nil]

theorem starts_closing (due : DueTask α) (p : Performed σ α) : starts (closing due p) = [] := by
  unfold closing
  split
  · rfl
  · split <;> rfl

/-- A performance starts its task and no other. -/
theorem starts_performance (c : Conduct σ α) (due : DueTask α) (r : Running α) (world : σ)
    (p : Performed σ α) : starts (c.performance due r world p) = [due] := by
  change due :: starts (_ ++ closing due p) = [due]
  rw [starts_append, starts_session, starts_closing, List.append_nil]

/-! ## Invariants -/

/-- Facts that every move keeps: `between` the tasks, and `during` one that was due. -/
structure Invariant (between : Schedule α → List (Note α) → Prop)
    (during : DueTask α → Running α → List (Note α) → Prop) : Prop where
  add {s notes} : between s notes → ∀ task,
    between (s.add task).2 (notes ++ [.scheduled (s.add task).1 task])
  cancel {s notes} : between s notes → ∀ id,
    between (s.cancel id).2 (notes ++ [.cancelled none id (s.cancel id).1])
  clear {s notes} : between s notes → between s.clear (notes ++ [.dropped (s.tasks.map (·.id))])
  signal {s notes} : between s notes → ∀ isStopped, between { s with isStopped } notes
  start {s notes due tasks} : between s notes → s.tasks = due :: tasks →
    during due (start { s with tasks } due) (notes ++ [.started due (s.now.max due.time)])
  grant {due r notes} : during due r notes → ∀ q, during due (r.grant q) (notes ++ r.note q)
  fail {due r notes} : during due r notes → ∀ e, between r.schedule (notes ++ [.failed due.id e])
  rest {due r notes} : during due r notes → between r.schedule notes
  again {due r notes} : during due r notes → r.isCancelled = false → ∀ interval ∈ due.task.interval, ∀ action,
    between (r.schedule.push due.id (due.time.add interval) { due.task with action })
      (notes ++ [.repeated due.id])

variable {between : Schedule α → List (Note α) → Prop} {during : DueTask α → Running α → List (Note α) → Prop}
variable {due : DueTask α} {r : Running α} {notes : List (Note α)}

theorem Invariant.session (inv : Invariant between during) (h : during due r notes)
    (requests : List (Request α)) :
    during due (r.session requests).1 (notes ++ (r.session requests).2) := by
  induction requests generalizing r notes with
  | nil => rwa [Running.session, List.append_nil]
  | cons q requests ih =>
    rw [Running.session, ← List.append_assoc]
    exact ih (inv.grant h q)

/-- What is left of a task is taken over. -/
theorem Invariant.conclude (inv : Invariant between during) {p : Performed σ α} (h : during due p.running notes) :
    between (conclude due p).schedule (notes ++ closing due p) := by
  unfold Schedule.conclude closing
  cases p.result with
  | error e => exact inv.fail h e
  | ok action =>
    simp only
    cases hinterval : due.task.interval with
    | none =>
      rw [reschedule_of_none hinterval, Option.isSome_none, Bool.false_and, if_neg Bool.false_ne_true,
        List.append_nil]
      exact inv.rest h
    | some interval =>
      cases hcancelled : p.running.isCancelled with
      | true =>
        rw [reschedule_cancelled, Bool.not_true, Bool.and_false, if_neg Bool.false_ne_true, List.append_nil]
        exact inv.rest h
      | false =>
        rw [reschedule_of_some hinterval]
        exact inv.again h hcancelled interval hinterval action

theorem Invariant.move (inv : Invariant between during) (c : Conduct σ α) {h : History α}
    (hbetween : between h.schedule h.notes) (m : Move σ α) :
    between (c.move h m).schedule (c.move h m).notes := by
  cases m with
  | add task => exact inv.add hbetween task
  | cancel id => exact inv.cancel hbetween id
  | clear => exact inv.clear hbetween
  | stop => exact inv.signal hbetween true
  | begin => exact inv.signal hbetween false
  | perform world =>
    rw [Conduct.move]
    split
    · exact hbetween
    · rename_i due tasks htasks
      simp only
      split
      · exact hbetween
      · rename_i p hp
        -- The task starts, has its requests granted, and is concluded.
        have hduring := inv.session (inv.start hbetween htasks)
          (c.requests due.task.action (Schedule.start { h.schedule with tasks } due) world)
        rw [← c.granted hp] at hduring
        have hconcluded := inv.conclude hduring
        simpa [Conduct.performance, Schedule.start] using hconcluded

theorem Invariant.after (inv : Invariant between during) (c : Conduct σ α) {h : History α}
    (hbetween : between h.schedule h.notes) (moves : List (Move σ α)) :
    between (c.after h moves).schedule (c.after h moves).notes := by
  induction moves generalizing h with
  | nil => exact hbetween
  | cons m moves ih => exact ih (inv.move c hbetween m)

/-- An invariant that holds of a new schedule holds of every history. -/
theorem Invariant.history (inv : Invariant between during) (hnew : between {} []) (c : Conduct σ α)
    (moves : List (Move σ α)) : between (c.history moves).schedule (c.history moves).notes :=
  inv.after c hnew moves

/-! ## Runs -/

variable {s : Schedule α} {tasks : List (DueTask α)} {world : σ} {limits : RunLimits} {fuel executed : Nat}

/-- What the loop of a run does: it ends, or it performs the first task and goes on unless that has failed. -/
theorem runFrom_eq_some {behaviour : Behaviour σ α} {ran : Ran σ α (Except VmError (Nat × RunEnd))}
    (h : runFrom behaviour limits fuel executed s world = some ran) :
    (∃ reason, s.ending? limits executed = some reason ∧ ran = ⟨s, world, .ok (executed, reason)⟩) ∨
      ∃ due tasks more p, s.ending? limits executed = none ∧ s.tasks = due :: tasks ∧ fuel = more + 1 ∧
        behaviour due.task.action (start { s with tasks } due) world = some p ∧
        ((∃ e, p.result = .error e ∧ ran = ⟨(conclude due p).schedule, p.world, .error e⟩) ∨
          ∃ action, p.result = .ok action ∧
            runFrom behaviour limits more (executed + 1) (conclude due p).schedule p.world = some ran) := by
  cases hending : s.ending? limits executed with
  | some reason =>
    rw [runFrom, hending] at h
    exact .inl ⟨reason, rfl, (Option.some.inj h).symm⟩
  | none =>
    right
    cases htasks : s.tasks with
    | nil =>
      -- A schedule without tasks does not go on.
      simp only [ending?, isEmpty, htasks, List.isEmpty_nil, if_true] at hending
      split at hending <;> cases hending
    | cons due tasks =>
      cases fuel with
      | zero =>
        rw [runFrom, hending, htasks] at h
        cases h
      | succ more =>
        rw [runFrom, hending, htasks] at h
        obtain ⟨ran', hperform, hran⟩ := Option.bind_eq_some_iff.1 h
        obtain ⟨p, hp, rfl⟩ := Option.map_eq_some_iff.1 hperform
        refine ⟨due, tasks, more, p, rfl, rfl, rfl, hp, ?_⟩
        cases hresult : p.result with
        | error e =>
          simp only [conclude, hresult] at hran ⊢
          exact .inl ⟨e, rfl, (Option.some.inj hran).symm⟩
        | ok action =>
          simp only [conclude, hresult] at hran ⊢
          exact .inr ⟨action, rfl, hran⟩

theorem Conduct.move_perform (c : Conduct σ α) (htasks : s.tasks = due :: tasks) {p : Performed σ α}
    (hp : c.behaviour due.task.action (start { s with tasks } due) world = some p) :
    c.move ⟨s, notes⟩ (.perform world) =
      ⟨(conclude due p).schedule, notes ++ c.performance due (start { s with tasks } due) world p⟩ := by
  simp only [Conduct.move, htasks, hp]

/-- The loop of a run performs tasks, as many as it counts. -/
theorem exists_worlds_of_runFrom (c : Conduct σ α) {ran : Ran σ α (Except VmError (Nat × RunEnd))}
    (hrun : runFrom c.behaviour limits fuel executed s world = some ran) (notes : List (Note α)) :
    ∃ worlds : List σ, (c.after ⟨s, notes⟩ (worlds.map .perform)).schedule = ran.schedule ∧
      ∀ n reason, ran.result = .ok (n, reason) →
        (starts (c.after ⟨s, notes⟩ (worlds.map .perform)).notes).length + executed = (starts notes).length + n := by
  induction fuel using Nat.strongRecOn generalizing executed s world notes with
  | ind fuel ih =>
    obtain ⟨reason, _, rfl⟩ | ⟨due, tasks, more, p, _, htasks, rfl, hp, hnext⟩ := runFrom_eq_some hrun
    · refine ⟨[], rfl, fun n _ hresult => ?_⟩
      obtain ⟨rfl, rfl⟩ := Prod.mk.inj (Except.ok.inj hresult)
      rfl
    · have hmove : c.move ⟨s, notes⟩ (.perform world) = _ := c.move_perform htasks hp
      obtain ⟨e, _, rfl⟩ | ⟨action, _, hgoes⟩ := hnext
      · exact ⟨[world], congrArg History.schedule hmove, fun _ _ hresult => by cases hresult⟩
      · obtain ⟨worlds, hschedule, hcount⟩ :=
          ih more (Nat.lt_succ_self more) hgoes (notes ++ c.performance due _ world p)
        refine ⟨world :: worlds, ?_, fun n reason hresult => ?_⟩
        · rw [List.map_cons, Conduct.after, List.foldl_cons, hmove]
          exact hschedule
        · have hcounted := hcount n reason hresult
          rw [List.map_cons, Conduct.after, List.foldl_cons, hmove, ← Conduct.after]
          rw [starts_append, starts_performance, List.length_append, List.length_singleton] at hcounted
          omega

/-- The moves of a run: the signal is lowered, tasks are performed, and what is left may be dropped. -/
def Move.ofRun (worlds : List σ) (clears : Bool) : List (Move σ α) :=
  .begin :: worlds.map .perform ++ if clears then [.clear] else []

/-- A run is a sequence of moves, with as many starts as it counts. -/
theorem exists_worlds_of_run (c : Conduct σ α) (h : History α) {clears : Bool}
    {ran : Ran σ α (Except VmError RunSummary)}
    (hrun : h.schedule.run c.behaviour limits clears fuel world = some ran) :
    ∃ worlds : List σ, (c.after h (Move.ofRun worlds clears)).schedule = ran.schedule ∧
      ∀ summary, ran.result = .ok summary →
        (starts (c.after h (Move.ofRun worlds clears)).notes).length = (starts h.notes).length + summary.executed := by
  obtain ⟨loop, hloop, hran⟩ := Option.bind_eq_some_iff.1 hrun
  obtain rfl := Option.some.inj hran
  obtain ⟨worlds, hschedule, hcount⟩ := exists_worlds_of_runFrom c hloop h.notes
  have hbegin : c.after h (.begin :: worlds.map .perform) =
      c.after ⟨{ h.schedule with isStopped := false }, h.notes⟩ (worlds.map .perform) := rfl
  have hstarts : ∀ summary, (loop.result.map fun ended =>
      (⟨ended.1, ended.2, (if clears then loop.schedule.clear else loop.schedule).size⟩ : RunSummary)) =
        .ok summary →
      (starts (c.after h (.begin :: worlds.map .perform)).notes).length =
        (starts h.notes).length + summary.executed := by
    intro summary hresult
    obtain ⟨⟨n, reason⟩, hloop, rfl⟩ := Except.map_eq_ok.1 hresult
    have hcounted := hcount n reason hloop
    rw [hbegin]
    exact hcounted
  refine ⟨worlds, ?_, fun summary hresult => ?_⟩
  · rw [Move.ofRun, Conduct.after_append, hbegin]
    cases clears with
    | false => exact hschedule
    | true => exact congrArg clear hschedule
  · have hcounted := hstarts summary hresult
    rw [Move.ofRun, Conduct.after_append]
    cases clears with
    | false => exact hcounted
    | true =>
      -- The last move drops tasks and starts none.
      change (starts ((c.after h (.begin :: worlds.map .perform)).notes ++ [.dropped _])).length = _
      rw [starts_append, List.length_append]
      exact hcounted

end Schedule

end MovieVm
