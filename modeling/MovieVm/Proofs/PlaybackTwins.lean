import MovieVm.Player.Basic
import MovieVm.Proofs.Agreement
import MovieVm.Proofs.Playing

/-!
# Playing under other options

A movie is played alike by domains that differ in what they trace: the frames, the tasks and the events for the host
are the same, and only the lines of the traces differ.
-/

namespace MovieVm

open Bytecode Movie

variable {o o' : DomainOptions}

/-! ## Runs of a schedule -/

namespace Schedule

variable {σ α : Type} {W : σ → σ → Prop}

/-- A task leaves worlds as `W` says, and the rest the same. -/
structure PerformedAlike (W : σ → σ → Prop) (p p' : Performed σ α) : Prop where
  running : p'.running = p.running
  world : W p.world p'.world
  result : p'.result = p.result

/-- A run leaves worlds as `W` says, and the rest the same. -/
structure RanAlike {ε : Type} (W : σ → σ → Prop) (r r' : Ran σ α ε) : Prop where
  schedule : r'.schedule = r.schedule
  world : W r.world r'.world
  result : r'.result = r.result

theorem PerformedAlike.conclude {p p' : Performed σ α} (h : PerformedAlike W p p') (due : DueTask α) :
    RanAlike W (conclude due p) (conclude due p') := by
  unfold Schedule.conclude
  rw [h.result]
  cases p.result with
  | error e => exact ⟨congrArg Running.schedule h.running, h.world, rfl⟩
  | ok action => exact ⟨by rw [h.running], h.world, rfl⟩

section

variable {behaviour : Behaviour σ α}
  (hbehaviour : ∀ action running w w', W w w' →
    Option.Rel (PerformedAlike W) (behaviour action running w) (behaviour action running w'))
include hbehaviour

theorem rel_runFrom (limits : RunLimits) (fuel executed : Nat) (s : Schedule α) {w w' : σ} (hw : W w w') :
    Option.Rel (RanAlike W) (runFrom behaviour limits fuel executed s w)
      (runFrom behaviour limits fuel executed s w') := by
  induction fuel generalizing executed s w w' with
  | zero =>
    unfold runFrom
    split
    · exact .some ⟨rfl, hw, rfl⟩
    · exact .some ⟨rfl, hw, rfl⟩
    · exact .none
  | succ fuel ih =>
    unfold runFrom
    split
    · exact .some ⟨rfl, hw, rfl⟩
    · exact .some ⟨rfl, hw, rfl⟩
    · rename_i due tasks _ _
      have hperformed := rel_map (hbehaviour due.task.action (start { s with tasks } due) w w' hw) fun _ _ h =>
        h.conclude due
      refine rel_bind hperformed fun ran ran' hran => ?_
      rw [hran.result, hran.schedule]
      cases ran.result with
      | error e => exact .some ⟨rfl, hran.world, rfl⟩
      | ok _ => exact ih (executed + 1) ran.schedule hran.world

theorem rel_run (s : Schedule α) (limits : RunLimits) (clears : Bool) (fuel : Nat) {w w' : σ} (hw : W w w') :
    Option.Rel (RanAlike W) (s.run behaviour limits clears fuel w) (s.run behaviour limits clears fuel w') := by
  refine rel_bind (rel_runFrom hbehaviour limits fuel 0 { s with isStopped := false } hw) fun ran ran' hran => ?_
  rw [hran.schedule, hran.result]
  exact .some ⟨rfl, hran.world, rfl⟩

end

end Schedule

namespace Player

/-! ## Playbacks -/

def Report.isLine : Report → Bool
  | .effect (.line _) => true
  | _ => false

/-- The reports but for the lines of a trace. -/
def heard (reports : Array Report) : List Report :=
  reports.toList.filter (!·.isLine)

theorem heard_append (reports more : Array Report) : heard (reports ++ more) = heard reports ++ heard more := by
  rw [heard, Array.toList_append, List.filter_append]
  rfl

theorem heard_effects (effects : Effects) : heard (effects.map .effect) = effects.hostEvents.map .effect := by
  have hkept : ((fun r => !Report.isLine r) ∘ Report.effect) = Effect.isHostEvent := by
    funext e
    cases e <;> rfl
  rw [heard, Array.toList_map, List.filter_map, hkept]
  rfl

/-- The stages differ only in their domains. -/
def Stage.Twins (o o' : DomainOptions) (s s' : Stage) : Prop :=
  ∃ d', s.domain.Twins o o' d' ∧ s' = { s with domain := d' }

theorem Stage.Twins.domain {s s' : Stage} (h : s.Twins o o' s') : s.domain.Twins o o' s'.domain := by
  obtain ⟨d', hd, rfl⟩ := h
  exact hd

/-- The handler is the same, as it is looked up in the globals. -/
theorem Stage.Twins.enterFrameHandler? {s s' : Stage} (h : s.Twins o o' s') :
    s'.enterFrameHandler? = s.enterFrameHandler? := by
  obtain ⟨d', hd, rfl⟩ := h
  unfold Stage.enterFrameHandler?
  rw [hd.same]
  rfl

namespace Playback

structure Twins (o o' : DomainOptions) (p p' : Playback) : Prop where
  stage : p.stage.Twins o o' p'.stage
  reports : heard p'.reports = heard p.reports

variable {p p' : Playback}

theorem Twins.append (h : p.Twins o o' p') {s s' : Stage} (hs : s.Twins o o' s') {more more' : Array Report}
    (hmore : heard more' = heard more) : Twins o o' ⟨s, p.reports ++ more⟩ ⟨s', p'.reports ++ more'⟩ where
  stage := hs
  reports := by rw [heard_append, heard_append, h.reports, hmore]

theorem Twins.report (h : p.Twins o o' p') (r : Report) : (p.report r).Twins o o' (p'.report r) := by
  rw [Playback.report, Playback.report, Array.push_eq_append, Array.push_eq_append]
  exact h.append h.stage rfl

theorem Twins.reportError (h : p.Twins o o' p') (line : String) (e : VmError) :
    (p.reportError line e).Twins o o' (p'.reportError line e) := by
  have hlines : ∀ (lines : List String) (p p' : Playback), p.Twins o o' p' →
      Twins o o' (lines.foldl (fun p line => p.report (.failure line)) p)
        (lines.foldl (fun p line => p.report (.failure line)) p') := by
    intro lines
    induction lines with
    | nil => exact fun _ _ h => h
    | cons line lines ih => exact fun p p' h => ih _ _ (h.report _)
  exact hlines _ _ _ (h.report _)

theorem Twins.takeOver (h : p.Twins o o' p') {x x' : Outcome Value} (hx : x.Twins o o' x') :
    (p.takeOver x).Twins o o' (p'.takeOver x') := by
  obtain ⟨_, _, hstage⟩ := h.stage
  refine h.append ⟨x'.domain, hx.domain, ?_⟩ ?_
  · rw [hstage]
  · rw [heard_effects, heard_effects, hx.effects.events]

/-- An outcome is taken over alike, and so is its error. -/
theorem Twins.settle (h : p.Twins o o' p') {x x' : Outcome Value} (hx : x.Twins o o' x') (line : VmError → String) :
    Option.Rel (Twins o o')
      (match x.result with
        | .ok _ => some (p.takeOver x)
        | .error e => some ((p.takeOver x).reportError (line e) e))
      (match x'.result with
        | .ok _ => some (p'.takeOver x')
        | .error e => some ((p'.takeOver x').reportError (line e) e)) := by
  rw [hx.result]
  cases x.result with
  | ok v => exact .some (h.takeOver hx)
  | error e => exact .some ((h.takeOver hx).reportError _ e)

theorem Twins.withStage (h : p.Twins o o' p') {s s' : Stage} (hs : s.Twins o o' s') :
    Twins o o' { p with stage := s } { p' with stage := s' } :=
  ⟨hs, h.reports⟩

/-- An event of the loader changes the stages alike. -/
theorem Twins.observe (h : p.Twins o o' p') (event : LoadEvent) : (p.observe event).Twins o o' (p'.observe event) := by
  obtain ⟨s', reports'⟩ := p'
  obtain ⟨⟨d', hd, rfl⟩, hreports⟩ := h
  have hstage : ∀ s : Stage, s.domain = p.stage.domain →
      Twins o o' { p with stage := s } ⟨{ s with domain := d' }, reports'⟩ := by
    intro s hs
    exact ⟨⟨d', hs ▸ hd, rfl⟩, hreports⟩
  cases event with
  | opened file =>
    let opened : Stage := { p.stage with opened := true, frameRate := file.header.frameRate }
    exact (hstage (opened.sync file) rfl).report _
  | progressed file progress => exact hstage _ rfl
  | symbols batch => exact (hstage p.stage rfl).report _
  | image symbol => exact hstage p.stage rfl
  | completed file => exact (hstage { p.stage.sync file with status := .complete } rfl).report _
  | failed fault => exact (hstage { p.stage with status := .failed } rfl).report _

theorem Twins.observeAll (h : p.Twins o o' p') (events : List LoadEvent) :
    Twins o o' (events.foldl Playback.observe p) (events.foldl Playback.observe p') := by
  induction events generalizing p p' with
  | nil => exact h
  | cons event events ih => exact ih (h.observe event)

/-! ## Frames -/

section

variable (hsame : o.release = o'.release)
include hsame

theorem Twins.runBlock (h : p.Twins o o' p') (fuel number : Nat) (block : AbcBlock) (index : Nat) :
    Option.Rel (Twins o o') (p.runBlock fuel number block index) (p'.runBlock fuel number block index) := by
  have hurl : p'.stage.url = p.stage.url := by
    obtain ⟨_, _, hstage⟩ := h.stage
    rw [hstage]
  unfold Playback.runBlock
  rw [hurl]
  simp only
  split
  · exact .some (h.report _)
  · rename_i m _
    have hannounced := h.report (.detail s!"Executing {blockLabel p.stage.url number index block.name}")
    refine rel_bind (hannounced.stage.domain.execute hsame fuel .application m) fun x x' hx => ?_
    exact hannounced.settle hx _

theorem Twins.runBlocks (h : p.Twins o o' p') (fuel number : Nat) (blocks : List (AbcBlock × Nat)) :
    Option.Rel (Twins o o') (runBlocks fuel number p blocks) (runBlocks fuel number p' blocks) := by
  induction blocks generalizing p p' with
  | nil => exact .some h
  | cons block blocks ih => exact rel_bind (h.runBlock hsame fuel number block.1 block.2) fun _ _ hq => ih hq

theorem Twins.callHandler (h : p.Twins o o' p') (fuel number : Nat) :
    Option.Rel (Twins o o') (p.callHandler fuel number) (p'.callHandler fuel number) := by
  unfold Playback.callHandler
  rw [h.stage.enterFrameHandler?]
  split
  · exact .some h
  · rename_i handler _
    let argument := Value.int (Int32.ofInt (min number 2147483647))
    exact rel_bind (h.stage.domain.run hsame fuel (.invoke handler [argument])) fun x x' hx => h.settle hx _

theorem Twins.play (h : p.Twins o o' p') (fuel index : Nat) (frame : StageFrame) :
    Option.Rel (Twins o o') (p.play fuel index frame) (p'.play fuel index frame) := by
  have hbegun : Stage.Twins o o'
      { p.stage with
        nextFrame := index + 1
        frames := p.stage.frames.setIfInBounds index { frame with blocks := [], scriptsRun := true } }
      { p'.stage with
        nextFrame := index + 1
        frames := p'.stage.frames.setIfInBounds index { frame with blocks := [], scriptsRun := true } } := by
    obtain ⟨d', hd, hstage⟩ := h.stage
    rw [hstage]
    exact ⟨d', hd, rfl⟩
  refine rel_bind ((h.withStage hbegun).runBlocks hsame fuel (index + 1) _) fun q q' hq => ?_
  refine rel_bind (hq.callHandler hsame fuel (index + 1)) fun r r' hr => ?_
  have hcounted : Stage.Twins o o' { r.stage with framesProcessed := r.stage.framesProcessed + 1 }
      { r'.stage with framesProcessed := r'.stage.framesProcessed + 1 } := by
    obtain ⟨d', hd, hstage⟩ := hr.stage
    rw [hstage]
    exact ⟨d', hd, rfl⟩
  exact .some ((hr.withStage hcounted).report _)

theorem Twins.tick (h : p.Twins o o' p') (fuel : Nat) :
    Option.Rel (fun r r' => r.1.Twins o o' r'.1 ∧ r'.2 = r.2) (p.tick fuel) (p'.tick fuel) := by
  have hhandler := h.stage.enterFrameHandler?
  have hnext : p'.stage.nextFrame = p.stage.nextFrame := by
    obtain ⟨_, _, hstage⟩ := h.stage
    rw [hstage]
  have hframes : p'.stage.frames = p.stage.frames := by
    obtain ⟨_, _, hstage⟩ := h.stage
    rw [hstage]
  have hstatus : p'.stage.status = p.stage.status := by
    obtain ⟨_, _, hstage⟩ := h.stage
    rw [hstage]
  unfold Playback.tick
  simp only [hhandler, hnext, hframes, hstatus]
  split
  · exact .some ⟨h, rfl⟩
  · rename_i frame _
    split
    · exact .some ⟨h, rfl⟩
    · split
      · exact .some ⟨h, rfl⟩
      · exact rel_map (h.play hsame fuel _ frame) fun _ _ hq => ⟨hq, rfl⟩

end

end Playback

/-! ## Tasks -/

/-- Nobody quits by a line. -/
theorem any_isQuit (reports : Array Report) : reports.any isQuit = (heard reports).any isQuit := by
  have hkept : (fun r => !Report.isLine r && isQuit r) = isQuit := by
    funext r
    cases r with
    | effect e => cases e <;> rfl
    | _ => rfl
  rw [heard, List.any_filter, hkept, Array.any_toList]

/-- What a tick reports stands behind what was reported before. -/
theorem Playback.exists_reports_of_tick {p q : Playback} {fuel : Nat} {t : Tick} (h : p.tick fuel = some (q, t)) :
    ∃ new, q.reports = p.reports ++ new := by
  have hnone : p.reports = p.reports ++ #[] := Array.append_empty.symm
  unfold Playback.tick at h
  simp only at h
  split at h
  · cases h
    exact ⟨#[], hnone⟩
  · rename_i frame hframe
    split at h
    · cases h
      exact ⟨#[], hnone⟩
    · split at h
      · cases h
        exact ⟨#[], hnone⟩
      · obtain ⟨_, hplay, hq⟩ := Option.map_eq_some_iff.1 h
        cases hq
        obtain ⟨hruns, hcalls⟩ := (Playback.play_iff hframe).1 hplay
        exact ⟨_, rfl⟩

/-- Both ticks quit or neither does. -/
theorem any_isQuit_of_tick {p p' q q' : Playback} {fuel : Nat} {t t' : Tick} (hp : p.Twins o o' p')
    (hq : q.Twins o o' q') (h : p.tick fuel = some (q, t)) (h' : p'.tick fuel = some (q', t')) :
    (q'.reports.extract p'.reports.size q'.reports.size).any isQuit =
      (q.reports.extract p.reports.size q.reports.size).any isQuit := by
  obtain ⟨new, hnew⟩ := Playback.exists_reports_of_tick h
  obtain ⟨new', hnew'⟩ := Playback.exists_reports_of_tick h'
  have hheard := hq.reports
  rw [hnew, hnew', heard_append, heard_append, hp.reports] at hheard
  have hnewest : ∀ old more : Array Report, (old ++ more).extract old.size (old ++ more).size = more := by simp
  rw [hnew, hnew', hnewest, hnewest, any_isQuit, any_isQuit, List.append_cancel_left hheard]

theorem Feed.advance_twins (f : Feed) {p p' : Playback} (h : p.Twins o o' p') :
    (f.advance p').1 = (f.advance p).1 ∧ (f.advance p).2.Twins o o' (f.advance p').2 := by
  unfold Feed.advance
  split
  · exact ⟨rfl, h.observeAll _⟩
  · obtain ⟨d', hd, hstage⟩ := h.stage
    refine ⟨rfl, ?_⟩
    rw [hstage]
    have hfailed : Stage.Twins o o' { p.stage with status := .failed }
        { p.stage with domain := d', status := .failed } := ⟨d', hd, rfl⟩
    exact (h.withStage hfailed).report _

theorem Feed.resume_twins (f : Feed) {p p' : Playback} (h : p.Twins o o' p') :
    (f.resume p').1 = (f.resume p).1 ∧ (f.resume p).2.Twins o o' (f.resume p').2 :=
  ⟨rfl, h.observeAll _⟩

/-- The rest of a task that feeds a piece: the frames are scheduled when the file has been opened. -/
def finishFeed (f : Feed) (running : Running Action) (p : Playback) : Performed Playback Action :=
  let isDone := f.loader.isFinished || p.stage.status = .failed
  let (running, p) :=
    if p.stage.opened && !p.stage.frameTaskScheduled then
      let (_, running) := running.add (.repeating p.stage.frameInterval .playFrame)
      (running, { p with stage := { p.stage with frameTaskScheduled := true } })
    else (running, p)
  ⟨if isDone then running.cancelCurrent else running, p, .ok (.feed f)⟩

theorem performFeed_eq_finishFeed (f : Feed) (running : Running Action) (p : Playback) :
    performFeed f running p =
      finishFeed ((f.advance p).1.resume (f.advance p).2).1 running ((f.advance p).1.resume (f.advance p).2).2 :=
  rfl

theorem performedAlike_finishFeed (f : Feed) (running : Running Action) {p p' : Playback} (h : p.Twins o o' p') :
    Schedule.PerformedAlike (Playback.Twins o o') (finishFeed f running p) (finishFeed f running p') := by
  obtain ⟨s', reports'⟩ := p'
  obtain ⟨⟨d', hd, rfl⟩, hreports⟩ := h
  unfold finishFeed
  by_cases hframes : (p.stage.opened && !p.stage.frameTaskScheduled) = true
  · simp only [if_pos hframes]
    exact ⟨rfl, ⟨⟨d', hd, rfl⟩, hreports⟩, rfl⟩
  · simp only [if_neg hframes]
    exact ⟨rfl, ⟨⟨d', hd, rfl⟩, hreports⟩, rfl⟩

theorem rel_performFrame (hsame : o.release = o'.release) (fuel : Nat) (running : Running Action) {p p' : Playback}
    (h : p.Twins o o' p') :
    Option.Rel (Schedule.PerformedAlike (Playback.Twins o o')) (performFrame fuel running p)
      (performFrame fuel running p') := by
  have hticks := h.tick hsame fuel
  unfold performFrame
  cases hleft : p.tick fuel with
  | none =>
    rw [hleft] at hticks
    cases hright : p'.tick fuel with
    | none => exact .none
    | some r' =>
      rw [hright] at hticks
      cases hticks
  | some r =>
    rw [hleft] at hticks
    cases hright : p'.tick fuel with
    | none =>
      rw [hright] at hticks
      cases hticks
    | some r' =>
      rw [hright] at hticks
      obtain ⟨q, t⟩ := r
      obtain ⟨q', t'⟩ := r'
      cases hticks with
      | some hticked =>
        obtain ⟨hq, rfl⟩ := hticked
        have hquits := any_isQuit_of_tick h hq hleft hright
        refine .some ⟨?_, hq, rfl⟩
        simp only [hquits]

/-- The tasks of a player. -/
theorem rel_behaviour (hsame : o.release = o'.release) (fuel : Nat) (action : Action) (running : Running Action)
    (p p' : Playback) (h : p.Twins o o' p') :
    Option.Rel (Schedule.PerformedAlike (Playback.Twins o o')) (behaviour fuel action running p)
      (behaviour fuel action running p') := by
  cases action with
  | playFrame => exact rel_performFrame hsame fuel running h
  | feed f =>
    obtain ⟨hadvanced, hfed⟩ := f.advance_twins h
    have hperformed := performedAlike_finishFeed ((f.advance p).1.resume (f.advance p).2).1 running
      ((f.advance p).1.resume_twins hfed).2
    refine .some ?_
    rw [performFeed_eq_finishFeed, performFeed_eq_finishFeed, hadvanced]
    exact hperformed

/-- A load is begun alike, or it fails with the same fault. -/
theorem loadFile_twins {stage stage' : Stage} (h : stage.Twins o o' stage') (s : Schedule Action) (fs : Files)
    (path : String) :
    AnswersAlike (fun r r' => r'.1 = r.1 ∧ r'.2.1 = r.2.1 ∧ r.2.2.Twins o o' r'.2.2) (loadFile s stage fs path)
      (loadFile s stage' fs path) := by
  obtain ⟨d', hd, rfl⟩ := h
  unfold loadFile
  cases fs.find path with
  | error fault => exact .error
  | ok entry =>
    cases entry with
    | file bytes => exact .ok ⟨rfl, rfl, d', hd, rfl⟩
    | directory => exact .ok ⟨rfl, rfl, d', hd, rfl⟩

end Player

end MovieVm
