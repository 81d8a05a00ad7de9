import MovieVm.Proofs.Histories

/-!
# Runs in slices

A run that is bounded by a number of tasks may be broken off and taken up again. As long as no task fails or raises
the stop signal, the tasks of two runs are those of one run whose bound is the sum of theirs, and all three leave the
schedule in the same state.
-/

namespace MovieVm

/-! ## Starts -/

/-- A task that was started: its action, its id, and what the clock showed. -/
structure Start (α : Type) where
  action : α
  id : Nat
  now : Double

/-- The behaviour, with what it has started written down in the world. -/
def Behaviour.logged (behaviour : Behaviour σ α) : Behaviour (σ × List (Start α)) α :=
  fun action r (world, starts) =>
    (behaviour action r world).map fun p =>
      { p with world := (p.world, starts ++ [⟨action, r.id, r.schedule.now⟩]) }

/-- The first behaviour does what the second one does, in a world that holds more. -/
def Behaviour.Details (detailed : Behaviour τ α) (f : τ → σ) (behaviour : Behaviour σ α) : Prop :=
  ∀ action r w, (detailed action r w).map (fun p => { p with world := f p.world }) = behaviour action r (f w)

/-- What is left of a run, with the world seen through a function. -/
def Ran.mapWorld (f : τ → σ) (ran : Ran τ α ε) : Ran σ α ε :=
  { ran with world := f ran.world }

/-- What is left of a run, without what was written down. -/
def Ran.unlogged (ran : Ran (σ × List (Start α)) α ε) : Ran σ α ε :=
  { ran with world := ran.world.1 }

/-- What two runs, one after the other, say of themselves. -/
def RunSummary.join (first second : RunSummary) : RunSummary :=
  { second with executed := first.executed + second.executed }

namespace Schedule

variable {σ α : Type} {behaviour : Behaviour σ α} {s s' s'' : Schedule α} {w w' w'' : σ} {n m : Nat}

/-! ## Quiet performances -/

/-- A number of tasks is performed, the first one of the schedule each time, and none fails or raises the stop
signal. -/
inductive Performs (behaviour : Behaviour σ α) : Nat → Schedule α → σ → Schedule α → σ → Prop where
  | none {s : Schedule α} {w : σ} : Performs behaviour 0 s w s w
  | next {s s' : Schedule α} {w w' : σ} {n : Nat} {due : DueTask α} {tasks : List (DueTask α)}
    {p : Performed σ α} {action : α} (htasks : s.tasks = due :: tasks)
    (hp : behaviour due.task.action (start { s with tasks } due) w = some p) (hresult : p.result = .ok action)
    (hgoes : (conclude due p).schedule.isStopped = false)
    (hrest : Performs behaviour n (conclude due p).schedule p.world s' w') :
    Performs behaviour (n + 1) s w s' w'

namespace Performs

theorem append (h : Performs behaviour n s w s' w') (h' : Performs behaviour m s' w' s'' w'') :
    Performs behaviour (n + m) s w s'' w'' := by
  induction h with
  | none => rwa [Nat.zero_add]
  | next htasks hp hresult hgoes _ ih =>
    rw [Nat.add_right_comm]
    exact .next htasks hp hresult hgoes (ih h')

/-- Performances may be broken off anywhere. -/
theorem split (h : Performs behaviour (n + m) s w s'' w'') :
    ∃ s' w', Performs behaviour n s w s' w' ∧ Performs behaviour m s' w' s'' w'' := by
  induction n generalizing s w with
  | zero =>
    rw [Nat.zero_add] at h
    exact ⟨s, w, .none, h⟩
  | succ n ih =>
    rw [Nat.add_right_comm] at h
    cases h with
    | next htasks hp hresult hgoes hrest =>
      obtain ⟨s', w', hfirst, hsecond⟩ := ih hrest
      exact ⟨s', w', .next htasks hp hresult hgoes hfirst, hsecond⟩

theorem isStopped (h : Performs behaviour n s w s' w') (hs : s.isStopped = false) : s'.isStopped = false := by
  induction h with
  | none => exact hs
  | next _ _ _ hgoes _ ih => exact ih hgoes

/-- There is a task to perform. -/
theorem tasks_ne_nil (h : Performs behaviour n s w s' w') (hn : 0 < n) : s.tasks ≠ [] := by
  cases h with
  | none => exact absurd hn (Nat.lt_irrefl 0)
  | next htasks => simp [htasks]

end Performs

/-! ## The end of a run -/

variable {count executed total : Nat} {elapsed : Nat → Nat} {reason : RunEnd}

/-- A run that is bounded by a number of tasks ends, if no task stops it, when the schedule is empty or the number is
reached. -/
theorem ending?_count (hs : s.isStopped = false) (hcount : 0 < count) :
    s.ending? { count, elapsed } executed =
      if s.tasks = [] then some .empty else if count ≤ executed then some .countReached else none := by
  simp [ending?, isEmpty, hs, hcount]

/-- A run that ends with tasks left has reached its bound. -/
theorem count_le_of_ending? (hs : s.isStopped = false) (hcount : 0 < count)
    (hends : s.ending? { count, elapsed } executed = some reason) (htasks : s.tasks ≠ []) :
    count ≤ executed ∧ reason = .countReached := by
  rw [ending?_count hs hcount, if_neg htasks] at hends
  split at hends
  · exact ⟨‹_›, (Option.some.inj hends).symm⟩
  · cases hends

theorem runFrom_of_ending? {fuel : Nat} {limits : RunLimits} (h : s.ending? limits executed = some reason) :
    runFrom behaviour limits fuel executed s w = some ⟨s, w, .ok (executed, reason)⟩ := by
  rw [runFrom, h]

theorem runFrom_succ {fuel : Nat} {limits : RunLimits} {due : DueTask α} {tasks : List (DueTask α)}
    {p : Performed σ α} {action : α} (hending : s.ending? limits executed = none) (htasks : s.tasks = due :: tasks)
    (hp : behaviour due.task.action (start { s with tasks } due) w = some p) (hresult : p.result = .ok action) :
    runFrom behaviour limits (fuel + 1) executed s w =
      runFrom behaviour limits fuel (executed + 1) (conclude due p).schedule p.world := by
  rw [runFrom, hending, htasks]
  simp only [perform, hp, Option.map_some, Option.bind_eq_bind, Option.bind_some, conclude, hresult]

/-- The stop signal would be the reason for the end. -/
theorem isStopped_of_runFrom {fuel : Nat} {limits : RunLimits} (hreason : reason ≠ .stopped)
    (hrun : runFrom behaviour limits fuel executed s w = some ⟨s', w', .ok (total, reason)⟩) :
    s.isStopped = false := by
  refine Bool.eq_false_iff.2 fun hstopped => hreason ?_
  have hending : s.ending? limits executed = some .stopped := if_pos hstopped
  rw [runFrom_of_ending? hending] at hrun
  cases hrun
  rfl

/-- The loop of a run that is bounded by a number of tasks, when no task fails or raises the stop signal. -/
theorem runFrom_eq_ok_iff {fuel : Nat} (hs : s.isStopped = false) (hreason : reason ≠ .stopped)
    (hexecuted : executed ≤ count) (hfuel : count ≤ executed + fuel) (hcount : 0 < count) :
    runFrom behaviour { count, elapsed } fuel executed s w = some ⟨s', w', .ok (total, reason)⟩ ↔
      ∃ n, Performs behaviour n s w s' w' ∧ total = executed + n ∧ total ≤ count ∧
        s'.ending? { count, elapsed } total = some reason := by
  constructor
  · intro hrun
    induction fuel using Nat.strongRecOn generalizing executed s w with
    | ind fuel ih =>
      obtain ⟨_, hending, hran⟩ | ⟨due, tasks, more, p, hending, htasks, rfl, hp, hnext⟩ := runFrom_eq_some hrun
      · cases hran
        exact ⟨0, .none, rfl, hexecuted, hending⟩
      · obtain ⟨e, _, hran⟩ | ⟨action, hresult, hmore⟩ := hnext
        · cases hran
        · have hless : executed < count := by
            rw [ending?_count hs hcount, htasks] at hending
            simpa using hending
          have hgoes := isStopped_of_runFrom hreason hmore
          obtain ⟨n, hperforms, htotal, hle, hends⟩ :=
            ih more (Nat.lt_succ_self more) hgoes hless (by omega) hmore
          exact ⟨n + 1, .next htasks hp hresult hgoes hperforms, by omega, hle, hends⟩
  · rintro ⟨n, hperforms, htotal, hle, hends⟩
    induction hperforms generalizing executed fuel with
    | none =>
      obtain rfl := htotal
      exact runFrom_of_ending? hends
    | @next s _ w _ n due tasks p action htasks hp hresult hgoes _ ih =>
      obtain ⟨more, rfl⟩ : ∃ more, fuel = more + 1 := ⟨fuel - 1, by omega⟩
      have hending : s.ending? { count, elapsed } executed = none := by
        rw [ending?_count hs hcount, htasks]
        simp
        omega
      rw [runFrom_succ hending htasks hp hresult]
      exact ih hgoes (by omega) (by omega) (by omega) hends

/-! ## Quiet runs -/

/-- A run in which no task fails or raises the stop signal: what it leaves, and what it says of itself. -/
def RunsQuietly (behaviour : Behaviour σ α) (limits : RunLimits) (fuel : Nat) (s : Schedule α) (w : σ) (s' : Schedule α)
    (w' : σ) (summary : RunSummary) : Prop :=
  s.run behaviour limits false fuel w = some ⟨s', w', .ok summary⟩ ∧ summary.reason ≠ .stopped

/-- A quiet run that is bounded by a number of tasks performs as many as it counts, and the schedule that it leaves
says why it has ended. -/
theorem runsQuietly_iff {fuel : Nat} {summary : RunSummary} (hcount : 0 < count) (hfuel : count ≤ fuel) :
    RunsQuietly behaviour { count, elapsed } fuel s w s' w' summary ↔
      Performs behaviour summary.executed { s with isStopped := false } w s' w' ∧ summary.executed ≤ count ∧
        s'.ending? { count, elapsed } summary.executed = some summary.reason ∧ summary.remaining = s'.size := by
  obtain ⟨executed, reason, remaining⟩ := summary
  have hloop (hreason : reason ≠ .stopped) :
      runFrom behaviour { count, elapsed } fuel 0 { s with isStopped := false } w =
          some ⟨s', w', .ok (executed, reason)⟩ ↔
        ∃ n, Performs behaviour n { s with isStopped := false } w s' w' ∧ executed = 0 + n ∧ executed ≤ count ∧
          s'.ending? { count, elapsed } executed = some reason :=
    runFrom_eq_ok_iff rfl hreason (Nat.zero_le count) (by omega) hcount
  constructor
  · rintro ⟨hrun, hreason⟩
    obtain ⟨⟨left, world, result⟩, hran, hrun⟩ := Option.bind_eq_some_iff.1 hrun
    simp only [Bool.false_eq_true, if_false, Option.pure_def, Option.some.injEq, Ran.mk.injEq] at hrun
    obtain ⟨rfl, rfl, hresult⟩ := hrun
    obtain ⟨⟨total, ended⟩, rfl, hsummary⟩ := Except.map_eq_ok.1 hresult
    cases hsummary
    obtain ⟨n, hperforms, rfl, hle, hends⟩ := (hloop hreason).1 hran
    rw [Nat.zero_add] at hle hends ⊢
    exact ⟨hperforms, hle, hends, rfl⟩
  · rintro ⟨hperforms, hle, hends, rfl⟩
    have hreason : reason ≠ .stopped := by
      rw [ending?_count (hperforms.isStopped rfl) hcount] at hends
      rintro rfl
      split at hends
      · cases hends
      · split at hends <;> cases hends
    have hran := (hloop hreason).2 ⟨executed, hperforms, (Nat.zero_add _).symm, hle, hends⟩
    refine ⟨?_, hreason⟩
    rw [run, hran]
    rfl

/-! ## Slices -/

variable {whole first second : RunSummary} {elapsed₁ elapsed₂ : Nat → Nat} {fuel : Nat}

theorem unstopped (h : s.isStopped = false) : { s with isStopped := false } = s := by
  obtain ⟨tasks, nextId, nextOrder, now, isStopped⟩ := s
  obtain rfl := h
  rfl

theorem RunsQuietly.split (hn : 0 < n) (hm : 0 < m) (hfuel : n + m ≤ fuel)
    (hwhole : RunsQuietly behaviour { count := n + m, elapsed } fuel s w s'' w'' whole) :
    ∃ s' w' first second, RunsQuietly behaviour { count := n, elapsed := elapsed₁ } fuel s w s' w' first ∧
      RunsQuietly behaviour { count := m, elapsed := elapsed₂ } fuel s' w' s'' w'' second ∧
      whole = first.join second := by
  rw [runsQuietly_iff (by omega) hfuel] at hwhole
  obtain ⟨hperforms, hle, hends, hremaining⟩ := hwhole
  have hs'' := hperforms.isStopped rfl
  by_cases hshort : whole.executed ≤ n
  · -- The first slice empties the schedule, and nothing is left for the second one.
    have hempty : s''.tasks = [] := Decidable.byContradiction fun hleft => by
      obtain ⟨hbound, -⟩ := count_le_of_ending? hs'' (by omega) hends hleft
      omega
    rw [ending?_count hs'' (by omega), if_pos hempty] at hends
    refine ⟨s'', w'', whole, { whole with executed := 0 }, ?_, ?_, rfl⟩
    · rw [runsQuietly_iff hn (by omega), ending?_count hs'' hn, if_pos hempty]
      exact ⟨hperforms, hshort, hends, hremaining⟩
    · rw [runsQuietly_iff hm (by omega), ending?_count hs'' hm, if_pos hempty, unstopped hs'']
      exact ⟨.none, Nat.zero_le m, hends, hremaining⟩
  · -- The first slice ends at its bound.
    obtain ⟨more, hmore⟩ : ∃ more, whole.executed = n + more := ⟨whole.executed - n, by omega⟩
    rw [hmore] at hperforms
    obtain ⟨s', w', hfirst, hsecond⟩ := hperforms.split
    have hs' := hfirst.isStopped rfl
    refine ⟨s', w', ⟨n, .countReached, s'.size⟩, { whole with executed := more }, ?_, ?_, ?_⟩
    · rw [runsQuietly_iff hn (by omega), ending?_count hs' hn, if_neg (hsecond.tasks_ne_nil (by omega)),
        if_pos (Nat.le_refl n)]
      exact ⟨hfirst, Nat.le_refl n, rfl, rfl⟩
    · rw [runsQuietly_iff hm (by omega), ending?_count hs'' hm, unstopped hs']
      refine ⟨hsecond, by dsimp only; omega, ?_, hremaining⟩
      rw [ending?_count hs'' (by omega), hmore] at hends
      simp only [Nat.add_le_add_iff_left] at hends
      exact hends
    · rw [RunSummary.join, ← hmore]

theorem RunsQuietly.append (hn : 0 < n) (hm : 0 < m) (hfuel : n + m ≤ fuel)
    (hfirst : RunsQuietly behaviour { count := n, elapsed := elapsed₁ } fuel s w s' w' first)
    (hsecond : RunsQuietly behaviour { count := m, elapsed := elapsed₂ } fuel s' w' s'' w'' second) :
    RunsQuietly behaviour { count := n + m, elapsed } fuel s w s'' w'' (first.join second) := by
  rw [runsQuietly_iff hn (by omega)] at hfirst
  rw [runsQuietly_iff hm (by omega)] at hsecond
  obtain ⟨hfirst, hfirstLe, hfirstEnds, -⟩ := hfirst
  obtain ⟨hsecond, hsecondLe, hsecondEnds, hremaining⟩ := hsecond
  have hs' := hfirst.isStopped rfl
  rw [unstopped hs'] at hsecond
  have hs'' := hsecond.isStopped hs'
  rw [runsQuietly_iff (by omega) hfuel, ending?_count hs'' (by omega)]
  refine ⟨hfirst.append hsecond, Nat.add_le_add hfirstLe hsecondLe, ?_, hremaining⟩
  by_cases hempty : s''.tasks = []
  · rw [ending?_count hs'' hm, if_pos hempty] at hsecondEnds
    rw [if_pos hempty]
    exact hsecondEnds
  · -- The second slice has reached its bound, so there were tasks left when the first one ended.
    obtain ⟨hsecondBound, hreason⟩ := count_le_of_ending? hs'' hm hsecondEnds hempty
    have hleft : s'.tasks ≠ [] := hsecond.tasks_ne_nil (Nat.lt_of_lt_of_le hm hsecondBound)
    obtain ⟨hfirstBound, -⟩ := count_le_of_ending? hs' hn hfirstEnds hleft
    have hbound : n + m ≤ (first.join second).executed := Nat.add_le_add hfirstBound hsecondBound
    rw [if_neg hempty, if_pos hbound]
    exact congrArg some hreason.symm

/-- A quiet run is two quiet runs, the second one on the schedule that the first one leaves. -/
theorem runsQuietly_add (hn : 0 < n) (hm : 0 < m) (hfuel : n + m ≤ fuel) :
    RunsQuietly behaviour { count := n + m, elapsed } fuel s w s'' w'' whole ↔
      ∃ s' w' first second, RunsQuietly behaviour { count := n, elapsed := elapsed₁ } fuel s w s' w' first ∧
        RunsQuietly behaviour { count := m, elapsed := elapsed₂ } fuel s' w' s'' w'' second ∧
        whole = first.join second := by
  constructor
  · exact RunsQuietly.split hn hm hfuel
  · rintro ⟨s', w', first, second, hfirst, hsecond, rfl⟩
    exact .append hn hm hfuel hfirst hsecond

/-! ## Records -/

section

variable {τ : Type} {f : τ → σ} {detailed : Behaviour τ α}

theorem perform_mapWorld (h : detailed.Details f behaviour) (s : Schedule α) (due : DueTask α) (w : τ) :
    (s.perform detailed due w).map (Ran.mapWorld f) = s.perform behaviour due (f w) := by
  rw [perform, perform, ← h, Option.map_map, Option.map_map]
  refine Option.map_congr fun p _ => ?_
  simp only [Function.comp, conclude]
  cases p.result <;> rfl

theorem runFrom_mapWorld (h : detailed.Details f behaviour) (limits : RunLimits) (fuel executed : Nat)
    (s : Schedule α) (w : τ) :
    (runFrom detailed limits fuel executed s w).map (Ran.mapWorld f) =
      runFrom behaviour limits fuel executed s (f w) := by
  induction fuel generalizing executed s w with
  | zero =>
    rw [runFrom, runFrom]
    cases s.ending? limits executed <;> cases s.tasks <;> rfl
  | succ fuel ih =>
    rw [runFrom, runFrom]
    cases s.ending? limits executed with
    | some reason => rfl
    | none =>
      cases s.tasks with
      | nil => rfl
      | cons due tasks =>
        simp only [← perform_mapWorld h]
        cases perform { s with tasks } detailed due w with
        | none => rfl
        | some ran =>
          obtain ⟨schedule, world, result⟩ := ran
          cases result with
          | error e => rfl
          | ok _ => exact ih ..

/-- A run does not depend on what only one of two behaviours has in its world. -/
theorem run_mapWorld (h : detailed.Details f behaviour) (limits : RunLimits) (clears : Bool) (fuel : Nat)
    (s : Schedule α) (w : τ) :
    (s.run detailed limits clears fuel w).map (Ran.mapWorld f) = s.run behaviour limits clears fuel (f w) := by
  have hloop := runFrom_mapWorld h limits fuel 0 { s with isStopped := false } w
  simp only [run]
  rw [← hloop]
  cases runFrom detailed limits fuel 0 { s with isStopped := false } w <;> rfl

end

/-- What is written down changes nothing else. -/
theorem run_logged (behaviour : Behaviour σ α) (limits : RunLimits) (clears : Bool) (fuel : Nat) (s : Schedule α)
    (w : σ) (starts : List (Start α)) :
    (s.run behaviour.logged limits clears fuel (w, starts)).map Ran.unlogged =
      s.run behaviour limits clears fuel w := by
  refine run_mapWorld (f := Prod.fst) (fun action r w => ?_) limits clears fuel s (w, starts)
  rw [Behaviour.logged, Option.map_map]
  exact Option.map_id'

/-! ## Whole runs -/

/-- Whatever tasks a schedule has and whatever they do: when none fails or raises the stop signal, a run of `n` tasks
at most and then one of `m` tasks at most start the same actions in the same order, with the same ids and at the same
times, as a single run of `n + m` tasks at most; both leave the same schedule and the same world, and the counts of the
two add up. Neither has a result without the other. The record of the starts changes nothing else. -/
theorem run_in_slices (behaviour : Behaviour σ α) (s : Schedule α) (w : σ) {n m fuel : Nat} (hn : 0 < n) (hm : 0 < m)
    (hfuel : n + m ≤ fuel) (elapsed elapsed₁ elapsed₂ : Nat → Nat) :
    (∀ s'' w'' whole, RunsQuietly behaviour.logged { count := n + m, elapsed } fuel s (w, []) s'' w'' whole ↔
      ∃ s' w' first second,
        RunsQuietly behaviour.logged { count := n, elapsed := elapsed₁ } fuel s (w, []) s' w' first ∧
        RunsQuietly behaviour.logged { count := m, elapsed := elapsed₂ } fuel s' w' s'' w'' second ∧
        whole = first.join second) ∧
    ∀ limits clears starts, (s.run behaviour.logged limits clears fuel (w, starts)).map Ran.unlogged =
      s.run behaviour limits clears fuel w :=
  ⟨fun _ _ _ => runsQuietly_add hn hm hfuel,
    fun limits clears starts => run_logged behaviour limits clears fuel s w starts⟩

/-- A bell schedules its echo each time it strikes; the world counts what has been heard. -/
def bells : Behaviour Nat String := fun action r heard =>
  if action = "bell" then
    some ⟨(r.add { action := "echo", delay := .ofNat 10, delay_isSpan := by decide +kernel }).2, heard + 1, .ok action⟩
  else some ⟨r, heard + 1, .ok action⟩

/-- The bell strikes every ten milliseconds, when the echo of the strike before is due too. -/
def tower : Schedule String :=
  (add {} (.repeating (.ofNat 10) "bell")).2

theorem tower_in_slices :
    let elapsed : Nat → Nat := fun _ => 0
    0 < 2 ∧ 0 < 3 ∧ 2 + 3 ≤ 5 ∧
      ∃ s'' w'' whole, RunsQuietly bells.logged { count := 2 + 3, elapsed } 5 tower (0, []) s'' w'' whole ∧
        whole = ⟨5, .countReached, 2⟩ ∧ w''.2.map (·.action) = ["bell", "echo", "bell", "echo", "bell"] ∧
        ∃ s' w' first second, RunsQuietly bells.logged { count := 2, elapsed } 5 tower (0, []) s' w' first ∧
          RunsQuietly bells.logged { count := 3, elapsed } 5 s' w' s'' w'' second ∧ whole = first.join second := by
  intro elapsed
  have hrun : (tower.run bells.logged { count := 2 + 3, elapsed } false 5 (0, [])).map (fun ran =>
      (ran.world.2.map (·.action), ran.result.toOption)) =
        some (["bell", "echo", "bell", "echo", "bell"], some ⟨5, .countReached, 2⟩) := by
    decide +kernel
  obtain ⟨⟨s'', w'', result⟩, hran, hleft⟩ := Option.map_eq_some_iff.1 hrun
  obtain ⟨hstarts, hresult⟩ := Prod.mk.inj hleft
  have hok : result = .ok ⟨5, .countReached, 2⟩ := by
    cases result with
    | error e => cases hresult
    | ok summary => exact congrArg Except.ok (Option.some.inj hresult)
  subst hok
  have hwhole : RunsQuietly bells.logged { count := 2 + 3, elapsed } 5 tower (0, []) s'' w'' ⟨5, .countReached, 2⟩ :=
    ⟨hran, by decide⟩
  have hslices := run_in_slices bells tower 0 (by decide : 0 < 2) (by decide : 0 < 3) (by decide : 2 + 3 ≤ 5)
    elapsed elapsed elapsed
  exact ⟨by decide, by decide, by decide, s'', w'', _, hwhole, rfl, hstarts, (hslices.1 s'' w'' _).1 hwhole⟩

end Schedule

end MovieVm
