import MovieVm.Proofs.DoubleSum
import MovieVm.Proofs.Histories

/-!
# The order of virtual time

The clock of a schedule never passes a queued task, so a task runs at the very time it was due, and tasks run
in the order of their times and, at one time, in the order in which they were queued.
-/

namespace MovieVm

/-! ## Precedence -/

namespace DueTask

variable {t u v : DueTask α}

theorem precedes_iff : t.precedes u = true ↔
    t.time.totalKey < u.time.totalKey ∨ t.time.totalKey = u.time.totalKey ∧ t.order < u.order := by
  simp [precedes]

theorem precedes_trans (h : t.precedes u = true) (h' : u.precedes v = true) : t.precedes v = true := by
  rw [precedes_iff] at h h' ⊢
  omega

/-- Of two entries that were not queued together, one precedes the other. -/
theorem precedes_of_not (h : ¬ t.precedes u = true) (hne : u.order ≠ t.order) : u.precedes t = true := by
  rw [precedes_iff] at h ⊢
  omega

end DueTask

namespace Schedule

variable {t u : DueTask α} {tasks : List (DueTask α)}

theorem pairwise_insert (h : tasks.Pairwise fun t u => t.precedes u = true)
    (hnew : ∀ u ∈ tasks, u.order ≠ t.order) : (insert t tasks).Pairwise fun t u => t.precedes u = true := by
  induction tasks with
  | nil => exact List.pairwise_singleton _ _
  | cons u rest ih =>
    obtain ⟨hu, hrest⟩ := List.pairwise_cons.1 h
    rw [insert]
    split
    · -- What the first entry precedes, the new one precedes too.
      rename_i hprecedes
      refine List.pairwise_cons.2 ⟨fun v hv => ?_, h⟩
      rcases List.mem_cons.1 hv with rfl | hv
      · exact hprecedes
      · exact DueTask.precedes_trans hprecedes (hu v hv)
    · rename_i hprecedes
      refine List.pairwise_cons.2 ⟨fun v hv => ?_, ih hrest fun v hv => hnew v (List.mem_cons_of_mem u hv)⟩
      rcases mem_insert.1 hv with rfl | hv
      · exact DueTask.precedes_of_not hprecedes (hnew u List.mem_cons_self)
      · exact hu v hv

/-! ## The invariant -/

/-- The clock stands between what was started and what is queued, and has not gone back behind `since`. -/
structure Timely (since : Double) (s : Schedule α) (notes : List (Note α)) : Prop where
  clock : s.now.IsTime
  since : since.key ≤ s.now.key
  queued : ∀ t ∈ s.tasks, t.time.IsTime ∧ s.now.key ≤ t.time.key
  started : ∀ t ∈ starts notes, t.time.IsTime ∧ t.time.key ≤ s.now.key
  numbered : ∀ t ∈ starts notes ++ s.tasks, t.order < s.nextOrder
  ordered : (starts notes ++ s.tasks).Pairwise fun t u => t.precedes u = true
  shown : ∀ t now, .started t now ∈ notes → now = t.time

namespace Timely

variable {since : Double} {s : Schedule α} {notes : List (Note α)} {r : Running α} {due : DueTask α}

theorem isTime_epoch : epoch.IsTime :=
  ⟨by decide +kernel, by decide +kernel⟩

theorem new : Timely epoch ({} : Schedule α) [] where
  clock := isTime_epoch
  since := Int.le_refl _
  queued := nofun
  started := nofun
  numbered := nofun
  ordered := .nil
  shown := nofun

/-- From now on the clock has not gone back. -/
theorem anew (h : Timely since s notes) : Timely s.now s notes :=
  ⟨h.clock, Int.le_refl _, h.queued, h.started, h.numbered, h.ordered, h.shown⟩

/-- A line that starts nothing leaves the order as it is. -/
theorem note (h : Timely since s notes) {n : Note α} (hn : n.started? = none) : Timely since s (notes ++ [n]) := by
  have hstarts : starts (notes ++ [n]) = starts notes := by
    rw [starts_append, starts, starts, List.filterMap_cons, hn, List.filterMap_nil, List.append_nil]
  refine ⟨h.clock, h.since, h.queued, ?_, ?_, ?_, ?_⟩
  · rw [hstarts]
    exact h.started
  · rw [hstarts]
    exact h.numbered
  · rw [hstarts]
    exact h.ordered
  · intro t now hmem
    rcases List.mem_append.1 hmem with hmem | hmem
    · exact h.shown t now hmem
    · obtain rfl := List.mem_singleton.1 hmem
      cases hn

/-- An entry that is queued for a time still to come stands behind all that was started. -/
theorem push (h : Timely since s notes) {time : Double} (htime : time.IsTime) (hle : s.now.key ≤ time.key)
    (id : Nat) (task : MicroTask α) : Timely since (s.push id time task) notes where
  clock := h.clock
  since := h.since
  queued := by
    intro t ht
    rcases mem_insert.1 ht with rfl | ht
    · exact ⟨htime, hle⟩
    · exact h.queued t ht
  started := h.started
  numbered := by
    intro t ht
    have hnumbered : ∀ u ∈ starts notes ++ s.tasks, u.order < s.nextOrder + 1 :=
      fun u hu => Nat.lt_succ_of_lt (h.numbered u hu)
    rcases List.mem_append.1 ht with ht | ht
    · exact hnumbered t (List.mem_append_left _ ht)
    · rcases mem_insert.1 ht with rfl | ht
      · exact Nat.lt_succ_self _
      · exact hnumbered t (List.mem_append_right _ ht)
  ordered := by
    obtain ⟨hpast, hline, hacross⟩ := List.pairwise_append.1 h.ordered
    refine List.pairwise_append.2 ⟨hpast, pairwise_insert hline fun u hu => ?_, fun t ht u hu => ?_⟩
    · exact Nat.ne_of_lt (h.numbered u (List.mem_append_right _ hu))
    · rcases mem_insert.1 hu with rfl | hu
      · -- What was started is no later, and was queued before.
        obtain ⟨hstarted, hkey⟩ := h.started t ht
        have horder := h.numbered t (List.mem_append_left _ ht)
        rw [DueTask.precedes_iff, hstarted.totalKey_eq, htime.totalKey_eq]
        dsimp only
        omega
      · exact hacross t ht u hu
  shown := h.shown

/-- Entries that are taken out leave the others in order. -/
theorem prune {s' : Schedule α} (h : Timely since s notes) (hnow : s'.now = s.now)
    (horder : s'.nextOrder = s.nextOrder) (htasks : s'.tasks.Sublist s.tasks) : Timely since s' notes where
  clock := hnow ▸ h.clock
  since := hnow ▸ h.since
  queued := fun t ht => hnow ▸ h.queued t (htasks.subset ht)
  started := hnow ▸ h.started
  numbered := fun t ht => horder ▸ h.numbered t ((htasks.append_left _).subset ht)
  ordered := h.ordered.sublist (htasks.append_left _)
  shown := h.shown

theorem cancel (h : Timely since s notes) (id : Nat) : Timely since (s.cancel id).2 notes :=
  h.prune rfl rfl List.filter_sublist

theorem add (h : Timely since s notes) (task : MicroTask α) : Timely since (s.add task).2 notes := by
  obtain ⟨htime, hle⟩ := h.clock.add_span task.delay_isSpan
  have hnumbered : Timely since { s with nextId := s.nextId + 1 } notes := h.prune rfl rfl (.refl _)
  exact hnumbered.push htime hle s.nextId task

/-- The clock moves to the very time of the first task. -/
theorem start {tasks : List (DueTask α)} (h : Timely since s notes) (htasks : s.tasks = due :: tasks) :
    Timely since (start { s with tasks } due).schedule (notes ++ [.started due (s.now.max due.time)]) ∧
      (start { s with tasks } due).schedule.now = due.time := by
  obtain ⟨htime, hle⟩ := h.queued due (htasks ▸ List.mem_cons_self)
  have hnow : s.now.max due.time = due.time := h.clock.max_eq htime hle
  have hstarts : starts (notes ++ [.started due (s.now.max due.time)]) = starts notes ++ [due] :=
    starts_append ..
  -- The first task goes over to those that were started, and the line stays the same.
  have hline : starts notes ++ [due] ++ tasks = starts notes ++ s.tasks := by
    rw [htasks, List.append_assoc, List.singleton_append]
  refine ⟨?_, hnow⟩
  simp only [Schedule.start, hnow] at hstarts ⊢
  refine ⟨htime, Int.le_trans h.since hle, ?_, ?_, ?_, ?_, ?_⟩
  · intro t ht
    obtain ⟨htime', _⟩ := h.queued t (htasks ▸ List.mem_cons_of_mem due ht)
    obtain ⟨_, hsorted, _⟩ := List.pairwise_append.1 h.ordered
    rw [htasks] at hsorted
    have hprecedes := (List.pairwise_cons.1 hsorted).1 t ht
    rw [DueTask.precedes_iff, htime.totalKey_eq, htime'.totalKey_eq] at hprecedes
    refine ⟨htime', ?_⟩
    dsimp only
    omega
  · intro t ht
    rw [hstarts] at ht
    rcases List.mem_append.1 ht with ht | ht
    · obtain ⟨hstarted, hkey⟩ := h.started t ht
      exact ⟨hstarted, Int.le_trans hkey hle⟩
    · obtain rfl := List.mem_singleton.1 ht
      exact ⟨htime, Int.le_refl _⟩
  · rw [hstarts, hline]
    exact h.numbered
  · rw [hstarts, hline]
    exact h.ordered
  · intro t now hmem
    rcases List.mem_append.1 hmem with hmem | hmem
    · exact h.shown t now hmem
    · obtain ⟨rfl, rfl⟩ := Note.started.inj (List.mem_singleton.1 hmem)
      rfl

/-- Requests do not move the clock. -/
theorem grant (h : Timely since r.schedule notes) (q : Request α) :
    Timely since (r.grant q).schedule (notes ++ r.note q) ∧ (r.grant q).schedule.now = r.schedule.now := by
  cases q with
  | add task => exact ⟨(h.add task).note rfl, rfl⟩
  | cancel id =>
    simp only [Running.grant, Running.note, Running.cancel]
    split
    · exact ⟨h.note rfl, rfl⟩
    · exact ⟨(h.cancel id).note rfl, rfl⟩
  | cancelCurrent => exact ⟨h.note rfl, rfl⟩
  | stop =>
    refine ⟨?_, rfl⟩
    rw [Running.note, List.append_nil]
    exact h.prune rfl rfl (.refl _)

/-- While a task runs, the clock shows the time at which it was due. -/
theorem invariant (since : Double) :
    Invariant (α := α) (Timely since) fun due r notes => Timely since r.schedule notes ∧ r.schedule.now = due.time where
  add h task := (h.add task).note rfl
  cancel h id := (h.cancel id).note rfl
  clear h := by
    apply Timely.note _ rfl
    exact h.prune rfl rfl (List.nil_sublist _)
  signal h _ := h.prune rfl rfl (.refl _)
  start h htasks := h.start htasks
  grant h q := ⟨(h.1.grant q).1, (h.1.grant q).2.trans h.2⟩
  fail h _ := h.1.note rfl
  rest h := h.1
  again {due r notes} h _ interval hinterval action := by
    obtain ⟨h, hnow⟩ := h
    obtain ⟨htime, hle⟩ := h.clock.add_span (due.task.interval_isSpan interval hinterval)
    rw [hnow] at htime hle
    exact (h.push htime (hnow ▸ hle) due.id { due.task with action }).note rfl

end Timely

/-! ## Order -/

variable {σ : Type} (c : Conduct σ α) (moves : List (Move σ α))

theorem timely_history : Timely epoch (c.history moves).schedule (c.history moves).notes :=
  (Timely.invariant epoch).history .new c moves

/-- From any moment of a history on, the clock does not go back. -/
theorem now_le_after (more : List (Move σ α)) :
    (c.history moves).schedule.now.key ≤ (c.history (moves ++ more)).schedule.now.key := by
  have h := timely_history c moves
  rw [c.history_append]
  exact ((Timely.invariant _).after c h.anew more).since

/-- Whatever a task asks for, the clock shows the time at which it was due. -/
theorem now_session {due : DueTask α} {tasks : List (DueTask α)}
    (htasks : (c.history moves).schedule.tasks = due :: tasks) (requests : List (Request α)) :
    ((start { (c.history moves).schedule with tasks } due).session requests).1.schedule.now = due.time :=
  ((Timely.invariant epoch).session ((timely_history c moves).start htasks) requests).2

/-- A repeating task that ends well is queued again one interval after the present time, unless it has cancelled
itself. -/
theorem perform_repeating {due : DueTask α} {tasks : List (DueTask α)} {interval : Double} {world : σ}
    {p : Performed σ α} {action : α} (htasks : (c.history moves).schedule.tasks = due :: tasks)
    (hinterval : due.task.interval = some interval)
    (hp : c.behaviour due.task.action (start { (c.history moves).schedule with tasks } due) world = some p)
    (hresult : p.result = .ok action)
    (hcancels : (c.requests due.task.action (start { (c.history moves).schedule with tasks } due) world).any
      (·.cancels due.id) = false) :
    (c.history (moves ++ [.perform world])).schedule =
      p.running.schedule.push due.id (p.running.schedule.now.add interval) { due.task with action } := by
  have hgranted := c.granted hp
  have hnow : p.running.schedule.now = due.time := by
    rw [hgranted]
    exact now_session c moves htasks _
  have hcancelled : p.running.isCancelled = false := by
    rw [hgranted, Running.session_isCancelled]
    exact hcancels
  rw [c.history_append, hnow, ← reschedule_of_some hinterval]
  calc (c.after (c.history moves) [.perform world]).schedule
      = (conclude due p).schedule := congrArg History.schedule (c.move_perform htasks hp)
    _ = p.running.schedule.reschedule due action false := by
      rw [conclude, hresult]
      simp only [hcancelled]

/-- In every history the clock has not passed a queued task, a task runs at the time at which it was due, the
clock does not go back, repeating tasks are queued again one interval later, and tasks start in the order of
their times and, at one time, in the order in which they were queued. Runs are a part of these histories. -/
theorem virtual_time_order (c : Conduct σ α) (moves : List (Move σ α)) :
    let h := c.history moves
    (∀ t ∈ h.schedule.tasks, t.time.isNaN = false ∧ h.schedule.now.key ≤ t.time.key) ∧
    (∀ t now, .started t now ∈ h.notes → now = t.time) ∧
    (∀ due tasks requests, h.schedule.tasks = due :: tasks →
      ((start { h.schedule with tasks } due).session requests).1.schedule.now = due.time) ∧
    (∀ more, h.schedule.now.key ≤ (c.history (moves ++ more)).schedule.now.key) ∧
    (∀ due tasks interval world p action, h.schedule.tasks = due :: tasks → due.task.interval = some interval →
      c.behaviour due.task.action (start { h.schedule with tasks } due) world = some p →
      p.result = .ok action →
      (c.requests due.task.action (start { h.schedule with tasks } due) world).any (·.cancels due.id) = false →
      (c.history (moves ++ [.perform world])).schedule =
        p.running.schedule.push due.id (p.running.schedule.now.add interval) { due.task with action }) ∧
    (starts h.notes).Pairwise (fun t u => t.precedes u = true) ∧
    ∀ limits clears fuel world ran, h.schedule.run c.behaviour limits clears fuel world = some ran →
      ∃ worlds : List σ, (c.history (moves ++ Move.ofRun worlds clears)).schedule = ran.schedule ∧
        ∀ summary, ran.result = .ok summary →
          (starts (c.history (moves ++ Move.ofRun worlds clears)).notes).length =
            (starts h.notes).length + summary.executed := by
  have h := timely_history c moves
  refine ⟨?_, h.shown, ?_, now_le_after c moves, ?_, (List.pairwise_append.1 h.ordered).1, ?_⟩
  · intro t ht
    obtain ⟨htime, hle⟩ := h.queued t ht
    exact ⟨htime.number, hle⟩
  · intro due tasks requests htasks
    exact now_session c moves htasks requests
  · intro due tasks interval world p action htasks hinterval hp hresult hcancels
    exact perform_repeating c moves htasks hinterval hp hresult hcancels
  · intro limits clears fuel world ran hrun
    simp only [c.history_append]
    exact exists_worlds_of_run c (c.history moves) hrun

/-! ## Failures -/

/-- Every action fails. -/
def Conduct.failing (e : VmError) : Conduct σ α where
  behaviour _ r world := some ⟨r, world, .error e⟩
  requests _ _ _ := []
  granted := by
    intro action r world p hp
    obtain rfl := Option.some.inj hp
    rfl

/-- A repeating task that fails is not queued again, though it has not cancelled itself. -/
theorem failing_not_queued_again :
    let c : Conduct Unit Unit := .failing ⟨.error, "boom", []⟩
    let before := c.history [.add (.repeating (.ofNat 10) ())]
    let after := c.history [.add (.repeating (.ofNat 10) ()), .perform ()]
    let due : DueTask Unit := ⟨1, epoch, 0, .repeating (.ofNat 10) ()⟩
    before.schedule.tasks = [due] ∧ due.task.interval = some (.ofNat 10) ∧ starts after.notes = [due] ∧
      (c.requests due.task.action (start { before.schedule with tasks := [] } due) ()).any (·.cancels due.id) = false ∧
      after.schedule.tasks = [] := by
  have htime : epoch.add .zero = epoch := by decide +kernel
  have hinterval : (Double.ofNat 10).max .zero = .ofNat 10 := by decide +kernel
  have hdue : (⟨1, epoch.add .zero, 0, .repeating (.ofNat 10) ()⟩ : DueTask Unit) =
      ⟨1, epoch, 0, .repeating (.ofNat 10) ()⟩ := by
    rw [htime]
  exact ⟨congrArg ([·]) hdue, congrArg some hinterval, congrArg ([·]) hdue, rfl, rfl⟩

end Schedule

end MovieVm
