import MovieVm.Proofs.Histories
import MovieVm.Proofs.Performance
import MovieVm.Proofs.PlainLoad

/-!
# Playing whatever the chunks are

A file is loaded by one task and played by another one. They take turns in a way that depends on the size of the
chunks, and frames may be played before, while or after the rest of the file arrives. What is played is the story of
the file all the same, and a run ends where the story does.
-/

namespace MovieVm

/-! ## The actions of a schedule -/

namespace Schedule

variable {σ α : Type} {s : Schedule α} {task : MicroTask α} {due : DueTask α} {p : Performed σ α} {action : α}

/-- The actions of the tasks, in the order in which they are due. -/
def actions (s : Schedule α) : List α :=
  s.tasks.map (·.task.action)

theorem perm_actions_push (s : Schedule α) (id : Nat) (time : Double) (task : MicroTask α) :
    (s.push id time task).actions.Perm (task.action :: s.actions) :=
  List.Perm.map (fun due : DueTask α => due.task.action) (perm_insert _ s.tasks)

/-- All tasks are repeated. -/
def Repeats (s : Schedule α) : Prop :=
  ∀ due ∈ s.tasks, due.task.interval.isSome = true

theorem Repeats.push (h : s.Repeats) (htask : task.interval.isSome = true) (id : Nat) (time : Double) :
    (s.push id time task).Repeats := by
  intro due hdue
  obtain rfl | hold := mem_insert.1 hdue
  · exact htask
  · exact h due hold

/-- A repeated task is queued again unless it has cancelled itself. -/
theorem perm_actions_conclude (hdue : due.task.interval.isSome = true) (hresult : p.result = .ok action) :
    (conclude due p).schedule.actions.Perm
      (if p.running.isCancelled then p.running.schedule.actions else action :: p.running.schedule.actions) := by
  obtain ⟨interval, hinterval⟩ := Option.isSome_iff_exists.1 hdue
  simp only [conclude, hresult]
  cases p.running.isCancelled with
  | true => rw [reschedule_cancelled, if_pos rfl]
  | false =>
    rw [reschedule_of_some hinterval, if_neg Bool.false_ne_true]
    exact perm_actions_push ..

theorem Repeats.conclude (h : p.running.schedule.Repeats) (hdue : due.task.interval.isSome = true)
    (hresult : p.result = .ok action) : (conclude due p).schedule.Repeats := by
  obtain ⟨interval, hinterval⟩ := Option.isSome_iff_exists.1 hdue
  simp only [Schedule.conclude, hresult]
  cases p.running.isCancelled with
  | true => rwa [reschedule_cancelled]
  | false =>
    rw [reschedule_of_some hinterval]
    refine h.push ?_ _ _
    exact hdue

/-- Without limits, a run ends when the stop signal is raised or the schedule is empty. -/
theorem ending?_unlimited (s : Schedule α) (executed : Nat) :
    s.ending? {} executed = if s.isStopped then some .stopped else if s.isEmpty then some .empty else none := by
  simp [ending?]

end Schedule

namespace Player

open Movie Schedule

/-! ## Feeds -/

variable {fuel : Nat} {file : File} {url : String} {d : Domain} {events new : List LoadEvent} {p q : Playback}
  {f : Feed} {bytes : List UInt8}

/-- Feeding a plain file leads on, or to its end. -/
theorem Feed.advance_took (hsource : f.source = .ok bytes) (hsize : 0 < f.chunkSize)
    (htakes : f.loader.Takes file bytes events) (p : Playback) :
    ∃ (rest : List UInt8) (delivery : Loader.Delivery), delivery.Took file rest events ∧
      f.advance p = ({ f with source := .ok rest, loader := delivery.loader },
        delivery.events.foldl Playback.observe p) := by
  refine ⟨bytes.drop f.chunkSize, _, ?_, by simp only [Feed.advance, hsource]; rfl⟩
  split
  · rename_i hnone
    -- A piece is empty at the end only.
    have hend : bytes = [] := by
      rw [List.isEmpty_iff, List.take_eq_nil_iff] at hnone
      exact hnone.resolve_left (Nat.ne_of_gt hsize)
    subst hend
    rw [List.drop_nil]
    exact htakes.finish
  · rw [← List.take_append_drop f.chunkSize bytes] at htakes
    exact htakes.append

theorem Feed.resume_eq (h : f.loader.isWaiting = false) (p : Playback) : f.resume p = (f, p) := by
  simp [Feed.resume, Loader.resume, h]

/-! ## Errands -/

/-- What the tasks of a player do while it loads and plays one file. -/
def errands (feed? : Option Feed) (ticks : Bool) : List Action :=
  (feed?.map Action.feed).toList ++ if ticks then [.playFrame] else []

variable {feed? : Option Feed} {ticks : Bool} {rest : List Action}

theorem perm_errands_feed (h : (Action.feed f :: rest).Perm (errands feed? ticks)) :
    feed? = some f ∧ rest.Perm (errands none ticks) := by
  have hmem : Action.feed f ∈ errands feed? ticks := h.subset List.mem_cons_self
  have hfeed : feed? = some f := by
    cases ticks <;> simpa [errands] using hmem
  subst hfeed
  exact ⟨rfl, h.cons_inv⟩

theorem perm_errands_true (feed? : Option Feed) :
    (errands feed? true).Perm (.playFrame :: errands feed? false) := by
  simp [errands]

theorem perm_errands_tick (h : (Action.playFrame :: rest).Perm (errands feed? ticks)) :
    ticks = true ∧ rest.Perm (errands feed? false) := by
  have hmem : Action.playFrame ∈ errands feed? ticks := h.subset List.mem_cons_self
  have hticks : ticks = true := by
    simpa [errands] using hmem
  subst hticks
  exact ⟨rfl, (h.trans (perm_errands_true feed?)).cons_inv⟩

/-- Nothing is left to do. -/
theorem perm_errands_nil (h : ([] : List Action).Perm (errands feed? ticks)) : feed? = none ∧ ticks = false := by
  have hnil := h.symm.eq_nil
  simpa [errands] using hnil

/-! ## Feeding -/

/-- Schedules the ticks when a file has been opened. -/
def scheduleTicks (r : Running Action) (p : Playback) : Running Action × Playback :=
  if p.stage.opened && !p.stage.frameTaskScheduled then
    ((r.add (.repeating p.stage.frameInterval .playFrame)).2,
      { p with stage := { p.stage with frameTaskScheduled := true } })
  else (r, p)

theorem performFeed_eq {f' : Feed} (hadvance : f.advance p = (f', q)) (hwaiting : f'.loader.isWaiting = false)
    (hdone : f'.loader.isFinished = false → q.stage.status = .loading) (r : Running Action) :
    performFeed f r p = ⟨if f'.loader.isFinished then (scheduleTicks r q).1.cancelCurrent else (scheduleTicks r q).1,
      (scheduleTicks r q).2, .ok (.feed f')⟩ := by
  have hfinished : (f'.loader.isFinished || q.stage.status = .failed) = f'.loader.isFinished := by
    cases h : f'.loader.isFinished with
    | true => rfl
    | false => simp [hdone h]
  simp only [performFeed, hadvance, Feed.resume_eq hwaiting, hfinished, scheduleTicks]

/-! ## Ticking -/

/-- What a tick asks of the schedule. -/
def signalTick (r : Running Action) (ends quits : Bool) : Running Action :=
  let r := if ends then r.cancelCurrent else r
  if quits then r.stop else r

theorem tasks_signalTick (r : Running Action) (ends quits : Bool) :
    (signalTick r ends quits).schedule.tasks = r.schedule.tasks := by
  cases ends <;> cases quits <;> rfl

theorem isCancelled_signalTick (r : Running Action) (ends quits : Bool) :
    (signalTick r ends quits).isCancelled = (ends || r.isCancelled) := by
  cases ends <;> cases quits <;> rfl

theorem isStopped_signalTick (r : Running Action) (ends quits : Bool) :
    (signalTick r ends quits).schedule.isStopped = (quits || r.schedule.isStopped) := by
  cases ends <;> cases quits <;> rfl

theorem performFrame_eq (fuel : Nat) (r : Running Action) (p : Playback) :
    performFrame fuel r p = (p.tick fuel).map fun (q, t) =>
      ⟨signalTick r (t = .finished) ((q.reports.extract p.reports.size q.reports.size).any isQuit), q,
        .ok .playFrame⟩ := by
  unfold performFrame
  cases p.tick fuel with
  | none => rfl
  | some result => simp [signalTick]

/-! ## Playing while loading -/

/-- A file is played: once ticks have been scheduled, there are some until the story comes to its end. The stop signal
is raised when somebody has asked to quit. -/
structure Playing (fuel : Nat) (file : File) (url : String) (d : Domain) (events : List LoadEvent)
    (feed? : Option Feed) (ticks : Bool) (s : Schedule Action) (p : Playback) : Prop where
  follows : Follows fuel file url d events p
  actions : s.actions.Perm (errands feed? ticks)
  repeats : s.Repeats
  signal : s.isStopped = p.performance.any isQuit
  unscheduled : p.stage.frameTaskScheduled = false → ticks = false
  idle : p.stage.frameTaskScheduled = true → ticks = false → ¬ p.scene.GoesOn file

/-- A plain file is loaded and played: what there is left to feed makes it complete, and there have been ticks since it
was opened. -/
structure Underway (fuel : Nat) (file : File) (url : String) (d : Domain) (events : List LoadEvent)
    (feed? : Option Feed) (ticks : Bool) (s : Schedule Action) (p : Playback) : Prop extends
    Playing fuel file url d events feed? ticks s p where
  feeding : ∀ f, feed? = some f →
    0 < f.chunkSize ∧ ∃ bytes, f.source = .ok bytes ∧ f.loader.Takes file bytes events
  fed : feed? = none → (∃ first, LoadEvent.opened first ∈ events) ∧ .completed file ∈ events
  scheduled : p.stage.opened = true → p.stage.frameTaskScheduled = true

namespace Playing

variable {s : Schedule Action} {due : DueTask Action} {tasks : List (DueTask Action)} {r : Running Action}

/-- A task that is taken off the schedule is a repeated one. -/
theorem isSome_interval (h : Playing fuel file url d events feed? ticks s p) (htasks : s.tasks = due :: tasks) :
    due.task.interval.isSome = true :=
  h.repeats due (htasks ▸ List.mem_cons_self)

/-- What is left of the schedule when its first task is taken off. -/
theorem start (h : Playing fuel file url d events feed? ticks s p) (htasks : s.tasks = due :: tasks) :
    (due.task.action :: (start { s with tasks } due).schedule.actions).Perm (errands feed? ticks) ∧
      (Schedule.start { s with tasks } due).schedule.Repeats := by
  have hactions := h.actions
  rw [Schedule.actions, htasks] at hactions
  exact ⟨hactions, fun other hother => h.repeats other (htasks ▸ List.mem_cons_of_mem _ hother)⟩

theorem start_feed (h : Playing fuel file url d events feed? ticks s p) (htasks : s.tasks = due :: tasks)
    (haction : due.task.action = .feed f) :
    feed? = some f ∧ Playing fuel file url d events none ticks (Schedule.start { s with tasks } due).schedule p := by
  obtain ⟨hactions, hrepeats⟩ := h.start htasks
  rw [haction] at hactions
  obtain ⟨hfeed, hrest⟩ := perm_errands_feed hactions
  exact ⟨hfeed, h.follows, hrest, hrepeats, h.signal, h.unscheduled, h.idle⟩

theorem observes (h : Playing fuel file url d events feed? ticks s p)
    (hshown : ∀ f ∈ shownFiles new, f.Numbered ∧ f.Extends file) (hflawless : ∀ fault, LoadEvent.failed fault ∉ new) :
    Playing fuel file url d (events ++ new) feed? ticks s (new.foldl Playback.observe p) := by
  have hscene := scene_observes p hflawless
  have hperformance : (new.foldl Playback.observe p).performance = p.performance := congrArg Scene.reports hscene
  have hscheduled := frameTaskScheduled_observes p new
  exact ⟨h.follows.observes hshown hflawless, h.actions, h.repeats, hperformance ▸ h.signal,
    hscheduled ▸ h.unscheduled, hscheduled ▸ hscene ▸ h.idle⟩

/-- Once the file is open, ticks have been scheduled. -/
theorem scheduleTicks (h : Playing fuel file url d events none ticks r.schedule p) :
    ∃ ticks', Playing fuel file url d events none ticks' (scheduleTicks r p).1.schedule (scheduleTicks r p).2 ∧
      (Player.scheduleTicks r p).1.isCancelled = r.isCancelled ∧
      ((Player.scheduleTicks r p).2.stage.opened = true →
        (Player.scheduleTicks r p).2.stage.frameTaskScheduled = true) := by
  unfold Player.scheduleTicks
  split
  · rename_i hnew
    obtain ⟨-, hunscheduled⟩ := Bool.and_eq_true_iff.1 hnew
    have hnone : ticks = false := h.unscheduled (by simpa using hunscheduled)
    subst hnone
    refine ⟨true, ⟨h.follows.schedule true, ?_, h.repeats.push rfl _ _, h.signal, nofun, fun _ => nofun⟩, rfl,
      fun _ => rfl⟩
    exact (perm_actions_push ..).trans (h.actions.cons _)
  · rename_i hold
    exact ⟨ticks, h, rfl, by simpa using hold⟩

/-- The task that feeds is queued again unless it has cancelled itself. -/
theorem conclude (h : Playing fuel file url d events none ticks r.schedule p) (hdue : due.task.interval.isSome = true)
    (f : Feed) :
    Playing fuel file url d events (if r.isCancelled then none else some f) ticks
      (conclude due (Performed.mk r p (.ok (.feed f)))).schedule p := by
  refine ⟨h.follows, (perm_actions_conclude hdue rfl).trans ?_, Repeats.conclude h.repeats hdue rfl,
    isStopped_conclude.trans h.signal, h.unscheduled, h.idle⟩
  cases r.isCancelled with
  | true => exact h.actions
  | false => exact h.actions.cons _

end Playing

/-- While a loader takes a file, the stage is loading. -/
theorem Follows.loading {l : Loader} (h : Follows fuel file url d events p) (htakes : l.Takes file bytes events) :
    p.stage.status = .loading := by
  refine h.staged.status.2 fun e he => Bool.eq_false_iff.2 fun hterminal => ?_
  have hfinished := htakes.told.isFinished_iff.2 ⟨e, he, hterminal⟩
  rw [htakes.runs_eq] at hfinished
  cases hfinished

namespace Underway

variable {s : Schedule Action} {due : DueTask Action} {tasks : List (DueTask Action)}

/-- When a load is over, the file is complete. -/
theorem completed (h : Underway fuel file url d events feed? ticks s p) (hstatus : p.stage.status ≠ .loading) :
    .completed file ∈ events := by
  cases feed? with
  | none => exact (h.fed rfl).2
  | some f =>
    obtain ⟨-, bytes, -, htakes⟩ := h.feeding f rfl
    exact absurd (h.follows.loading htakes) hstatus

theorem quiet (h : Underway fuel file url d events feed? ticks s p) (hgoes : s.isStopped = false) :
    ∀ r ∈ p.performance, isQuit r = false := by
  rw [h.signal, List.any_eq_false] at hgoes
  exact fun r hr => Bool.eq_false_iff.2 (hgoes r hr)

/-- A piece has been fed, and the task that has done so is queued again unless the file is complete. -/
theorem of_took {r : Running Action} (h : Playing fuel file url d (events ++ new) none ticks r.schedule p)
    (hgoes : r.isCancelled = false) (hdue : due.task.interval.isSome = true)
    (hscheduled : p.stage.opened = true → p.stage.frameTaskScheduled = true) (hsource : f.source = .ok bytes)
    (hsize : 0 < f.chunkSize) {result : Except Fault Unit}
    (htook : Loader.Delivery.Took ⟨f.loader, new, result⟩ file bytes events) :
    ∃ feed?, Underway fuel file url d (events ++ new) feed? ticks
      (conclude due (Performed.mk (if f.loader.isFinished then r.cancelCurrent else r) p (.ok (.feed f)))).schedule
      p := by
  cases hfinished : f.loader.isFinished with
  | true =>
    exact ⟨none, Playing.conclude (r := r.cancelCurrent) h hdue f, fun f hf => absurd hf.symm (Option.some_ne_none f),
      fun _ => htook.ends hfinished, hscheduled⟩
  | false =>
    have hplaying := h.conclude hdue f
    rw [hgoes] at hplaying
    refine ⟨some f, hplaying, fun f' hf' => ?_, fun hnone => absurd hnone (Option.some_ne_none f), hscheduled⟩
    obtain rfl := Option.some.inj hf'
    exact ⟨hsize, bytes, hsource, htook.goesOn hfinished⟩

/-- The next piece is fed. -/
theorem feed (h : Underway fuel file url d events feed? ticks s p) (htasks : s.tasks = due :: tasks)
    (haction : due.task.action = .feed f) :
    ∃ f' events' feed?' ticks', (performFeed f (Schedule.start { s with tasks } due) p).result = .ok (.feed f') ∧
      Underway fuel file url d events' feed?' ticks'
        (conclude due (performFeed f (Schedule.start { s with tasks } due) p)).schedule
        (performFeed f (Schedule.start { s with tasks } due) p).world := by
  obtain ⟨rfl, hplaying⟩ := h.toPlaying.start_feed htasks haction
  obtain ⟨hsize, bytes, hsource, htakes⟩ := h.feeding f rfl
  obtain ⟨rest, delivery, htook, hadvance⟩ := Feed.advance_took hsource hsize htakes p
  have hobserved := hplaying.observes htook.extended htook.flawless
  obtain ⟨ticks', hafter, hgoes, hscheduled⟩ := hobserved.scheduleTicks
  obtain ⟨feed?', hunderway⟩ := of_took (f := { f with source := .ok rest, loader := delivery.loader })
    hafter hgoes (h.isSome_interval htasks) hscheduled rfl hsize htook
  rw [performFeed_eq hadvance htook.isWaiting fun hgoes => hobserved.follows.loading (htook.goesOn hgoes)]
  exact ⟨_, _, feed?', ticks', rfl, hunderway⟩

/-- A frame is played, or there is none to play. -/
theorem tick (h : Underway fuel file url d events feed? ticks s p) (hgoes : s.isStopped = false)
    (htasks : s.tasks = due :: tasks) (haction : due.task.action = .playFrame) {performed : Performed Playback Action}
    (hperform : performFrame fuel (Schedule.start { s with tasks } due) p = some performed) :
    performed.result = .ok .playFrame ∧
      ∃ ticks', Underway fuel file url d events feed? ticks' (conclude due performed).schedule performed.world := by
  obtain ⟨hactions, hrepeats⟩ := h.start htasks
  rw [haction] at hactions
  obtain ⟨rfl, hrest⟩ := perm_errands_tick hactions
  have hdue := h.isSome_interval htasks
  rw [performFrame_eq] at hperform
  obtain ⟨⟨q, t⟩, htick, rfl⟩ := Option.map_eq_some_iff.1 hperform
  have hticked := h.follows.tick (h.quiet hgoes) h.completed htick
  obtain ⟨new, hreports, hperformance⟩ := hticked.reports
  have hquits : (q.reports.extract p.reports.size q.reports.size).any isQuit = q.performance.any isQuit := by
    rw [hperformance, List.any_append, ← h.signal, hgoes, hreports]
    simp
  have hscheduled : q.stage.frameTaskScheduled = true := by
    rw [hticked.scheduled]
    exact Bool.of_not_eq_false fun hnone => nomatch h.unscheduled hnone
  refine ⟨rfl, !decide (t = .finished), ⟨hticked.follows, (perm_actions_conclude hdue rfl).trans ?_,
    Repeats.conclude ?_ hdue rfl, isStopped_conclude.trans ?_,
    fun hnone => absurd hscheduled (Bool.eq_false_iff.1 hnone), fun _ hends => hticked.finished (by simpa using hends)⟩,
    h.feeding, h.fed, fun _ => hscheduled⟩
  · simp only [isCancelled_signalTick, Schedule.actions, tasks_signalTick]
    cases decide (t = .finished) with
    | true => exact hrest
    | false => exact (hrest.cons _).trans (perm_errands_true feed?).symm
  · rwa [Repeats, tasks_signalTick]
  · rw [isStopped_signalTick, hquits]
    exact (congrArg _ hgoes).trans (Bool.or_false _)

/-- Whichever task is the first one, performing it goes on with the load or with the story. -/
theorem perform (h : Underway fuel file url d events feed? ticks s p) (hgoes : s.isStopped = false)
    (htasks : s.tasks = due :: tasks) {performed : Performed Playback Action}
    (hperform : behaviour fuel due.task.action (Schedule.start { s with tasks } due) p = some performed) :
    ∃ action events' feed?' ticks', performed.result = .ok action ∧
      Underway fuel file url d events' feed?' ticks' (conclude due performed).schedule performed.world := by
  cases haction : due.task.action with
  | feed f =>
    rw [haction] at hperform
    obtain rfl := Option.some.inj hperform
    obtain ⟨f', events', feed?', ticks', hresult, hnext⟩ := h.feed htasks haction
    exact ⟨.feed f', events', feed?', ticks', hresult, hnext⟩
  | playFrame =>
    rw [haction] at hperform
    obtain ⟨hresult, ticks', hnext⟩ := h.tick hgoes htasks haction hperform
    exact ⟨.playFrame, events, feed?, ticks', hresult, hnext⟩

/-! ## Whole runs -/

/-- When there is nothing left to do, the story is over. -/
theorem not_goesOn (h : Underway fuel file url d events feed? ticks s p) (hempty : s.isEmpty = true) :
    ¬ p.scene.GoesOn file := by
  have hactions := h.actions
  rw [Schedule.actions, List.isEmpty_iff.1 hempty] at hactions
  obtain ⟨rfl, rfl⟩ := perm_errands_nil hactions
  exact h.idle (h.scheduled (h.follows.opened (h.fed rfl).1)) rfl

/-- A run ends where the story does. -/
theorem runFrom {steps executed : Nat} {ran : Ran Playback Action (Except VmError (Nat × RunEnd))}
    (h : Underway fuel file url d events feed? ticks s p)
    (hrun : runFrom (behaviour fuel) {} steps executed s p = some ran) :
    Story fuel file url d ran.world.scene ∧ ¬ ran.world.scene.GoesOn file ∧
      ∃ n, ran.result = .ok (n, if ran.world.performance.any isQuit then .stopped else .empty) := by
  induction steps using Nat.strongRecOn generalizing executed s p events feed? ticks with
  | ind steps ih =>
    obtain ⟨reason, hending, rfl⟩ | ⟨due, tasks, more, performed, hending, htasks, rfl, hp, hnext⟩ :=
      runFrom_eq_some hrun
    · rw [ending?_unlimited, h.signal] at hending
      -- The signal and an empty schedule both say that the story is over.
      cases hquits : p.performance.any isQuit with
      | true =>
        rw [hquits, if_pos rfl] at hending
        obtain rfl := Option.some.inj hending
        obtain ⟨r, hr, hquit⟩ := List.any_eq_true.1 hquits
        exact ⟨h.follows.story, fun hgoes => by simp [hgoes.quiet r hr] at hquit, executed, rfl⟩
      | false =>
        rw [hquits, if_neg Bool.false_ne_true] at hending
        split at hending
        · rename_i hempty
          obtain rfl := Option.some.inj hending
          exact ⟨h.follows.story, h.not_goesOn hempty, executed, rfl⟩
        · cases hending
    · have hgoes : s.isStopped = false := by
        refine Bool.eq_false_iff.2 fun hstopped => ?_
        rw [ending?_unlimited, if_pos hstopped] at hending
        cases hending
      obtain ⟨action, events', feed?', ticks', hresult, hafter⟩ := h.perform hgoes htasks hp
      obtain ⟨e, herror, -⟩ | ⟨_, -, hmore⟩ := hnext
      · cases hresult.symm.trans herror
      · exact ih more (Nat.lt_succ_self more) hafter hmore

end Underway

/-- Loads a file into a schedule, and runs the schedule without limits. -/
def playFile (s : Schedule Action) (d : Domain) (bytes : List UInt8) (url : String) (chunkSize fuel steps : Nat) :
    Option (Ran Playback Action (Except VmError RunSummary)) :=
  let (_, s, stage) := load s { domain := d } (.ok bytes) url chunkSize
  s.run (behaviour fuel) {} false steps { stage }

variable {chunkSize steps : Nat} {s : Schedule Action}

theorem underway_load (hempty : s.tasks = []) (htakes : ({} : Loader).Takes file bytes []) :
    Underway fuel file url d [] (some { source := .ok bytes, chunkSize := max 1 chunkSize }) false
      { (load s { domain := d } (.ok bytes) url chunkSize).2.1 with isStopped := false } (begun d url) where
  follows := follows_begun fuel file url d
  actions := by
    have hnone : s.actions = [] := by rw [Schedule.actions, hempty, List.map_nil]
    exact (perm_actions_push ..).trans (.of_eq (congrArg (Action.feed _ :: ·) hnone))
  repeats := by
    intro due hdue
    obtain rfl | hold := mem_insert.1 hdue
    · rfl
    · simp [hempty] at hold
  signal := rfl
  feeding := by
    intro f hf
    obtain rfl := Option.some.inj hf
    exact ⟨Nat.lt_of_lt_of_le Nat.zero_lt_one (Nat.le_max_left 1 chunkSize), bytes, rfl, htakes⟩
  fed := fun hnone => absurd hnone (Option.some_ne_none _)
  scheduled := fun hopened => nomatch hopened
  unscheduled := fun _ => rfl
  idle := fun hscheduled => nomatch hscheduled

/-- When a file has been played, its story has come to an end. -/
theorem story_of_playFile {ran : Ran Playback Action (Except VmError RunSummary)} (hempty : s.tasks = [])
    (htakes : ({} : Loader).Takes file bytes []) (hran : playFile s d bytes url chunkSize fuel steps = some ran) :
    Story fuel file url d ran.world.scene ∧ ¬ ran.world.scene.GoesOn file ∧
      ran.result.map (·.reason) = .ok (if ran.world.performance.any isQuit then .stopped else .empty) := by
  obtain ⟨inner, hinner, hran⟩ := Option.bind_eq_some_iff.1 hran
  obtain rfl := Option.some.inj hran
  obtain ⟨hstory, hends, n, hresult⟩ := (underway_load hempty htakes).runFrom hinner
  exact ⟨hstory, hends, by simp only [hresult, Except.map]⟩

/-- A plain file that can be loaded is played. Whatever the size of the chunks is, and whatever the schedule was that
had no tasks: if both runs come to an end, the same effects, frames, failures and executions were reported in the same
order, the domain that is left is the same, and both runs end because somebody has asked to quit or both because
nothing is left to do. -/
theorem playback_ignores_chunk_size {s₁ s₂ : Schedule Action} {d : Domain} {bytes : List UInt8} {url : String}
    {chunk₁ chunk₂ fuel₁ fuel₂ steps₁ steps₂ : Nat} {ran₁ ran₂ : Ran Playback Action (Except VmError RunSummary)}
    (hplain : bytes.take 3 ≠ Draft.signature true) (haccepted : (({} : Loader).load bytes).result = .ok ())
    (hempty₁ : s₁.tasks = []) (hempty₂ : s₂.tasks = [])
    (hran₁ : playFile s₁ d bytes url chunk₁ fuel₁ steps₁ = some ran₁)
    (hran₂ : playFile s₂ d bytes url chunk₂ fuel₂ steps₂ = some ran₂) :
    ran₁.world.performance = ran₂.world.performance ∧ ran₁.world.played = ran₂.world.played ∧
      ran₁.world.stage.domain = ran₂.world.stage.domain ∧
      ∃ reason, ran₁.result.map (·.reason) = .ok reason ∧ ran₂.result.map (·.reason) = .ok reason ∧
        (reason = .empty ∨ reason = .stopped) := by
  obtain ⟨file, htakes⟩ := Loader.exists_takes_start hplain haccepted
  obtain ⟨hstory₁, hends₁, hreason₁⟩ := story_of_playFile hempty₁ htakes hran₁
  obtain ⟨hstory₂, hends₂, hreason₂⟩ := story_of_playFile hempty₂ htakes hran₂
  -- Both runs end where the story of the file does, and it has one end.
  have hscene : ran₁.world.scene = ran₂.world.scene :=
    (hstory₁.of_le (Nat.le_max_left fuel₁ fuel₂)).unique hends₁ (hstory₂.of_le (Nat.le_max_right fuel₁ fuel₂)) hends₂
  have hperformance : ran₁.world.performance = ran₂.world.performance := congrArg Scene.reports hscene
  rw [← hperformance] at hreason₂
  refine ⟨hperformance, congrArg Scene.played hscene, congrArg Scene.domain hscene, _, hreason₁, hreason₂, ?_⟩
  split
  · exact .inr rfl
  · exact .inl rfl

theorem twoFrames_ignore_chunk_size :
    ∃ ran₁ ran₂, twoFrames.take 3 ≠ Draft.signature true ∧ (({} : Loader).load twoFrames).result = .ok () ∧
      ({} : Schedule Action).tasks = [] ∧ playFile {} (Domain.install {}) twoFrames "m.swf" 7 20 100 = some ran₁ ∧
      playFile {} (Domain.install {}) twoFrames "m.swf" 1000 20 100 = some ran₂ ∧ ran₁.world.played = [1, 2] ∧
      ran₁.world.performance = ran₂.world.performance ∧ ran₁.world.played = ran₂.world.played ∧
      ran₁.world.stage.domain = ran₂.world.stage.domain ∧
      ∃ reason, ran₁.result.map (·.reason) = .ok reason ∧ ran₂.result.map (·.reason) = .ok reason ∧
        (reason = .empty ∨ reason = .stopped) := by
  have hplain : twoFrames.take 3 ≠ Draft.signature true := by decide +kernel
  have haccepted : (({} : Loader).load twoFrames).result = .ok () := by decide +kernel
  have hsmall : (playFile {} (Domain.install {}) twoFrames "m.swf" 7 20 100).map (·.world.played) = some [1, 2] := by
    decide +kernel
  have hlarge : (playFile {} (Domain.install {}) twoFrames "m.swf" 1000 20 100).isSome = true := by
    decide +kernel
  obtain ⟨ran₁, hran₁, hplayed⟩ := Option.map_eq_some_iff.1 hsmall
  obtain ⟨ran₂, hran₂⟩ := Option.isSome_iff_exists.1 hlarge
  exact ⟨ran₁, ran₂, hplain, haccepted, rfl, hran₁, hran₂, hplayed,
    playback_ignores_chunk_size hplain haccepted rfl rfl hran₁ hran₂⟩

end Player

end MovieVm
