import MovieVm.Proofs.Slices

/-!
# What a run says of itself

The callbacks of a run are written down with what they asked for and how they ended. The summary of the run is
compared with this record: how many callbacks were started, why no more were, and what is left. A callback that fails
or raises the stop signal is the last one.
-/

namespace MovieVm

namespace Schedule

/-! ## Callbacks -/

/-- A callback that was started: what was started, what it asked for, and the error in which it ended. -/
structure Callback (α : Type) where
  start : Start α
  requests : List (Request α)
  error? : Option VmError

def Request.isStop : Request α → Bool
  | .stop => true
  | _ => false

/-- The stop signal was raised while the callback ran. -/
def Callback.Raises (call : Callback α) : Prop :=
  call.requests.any Request.isStop = true

/-- Nothing may be started after the callback. -/
def Callback.IsLast (call : Callback α) : Prop :=
  call.Raises ∨ call.error?.isSome = true

def errorOf (p : Performed σ α) : Option VmError :=
  match p.result with
  | .error e => some e
  | .ok _ => none

theorem errorOf_eq_some {p : Performed σ α} {e : VmError} (h : p.result = .error e) : errorOf p = some e := by
  rw [errorOf, h]

theorem errorOf_eq_none {p : Performed σ α} {action : α} (h : p.result = .ok action) : errorOf p = none := by
  rw [errorOf, h]

/-- What is written down of a task that is performed. -/
def Conduct.callback (c : Conduct σ α) (action : α) (r : Running α) (world : σ) (p : Performed σ α) : Callback α :=
  ⟨⟨action, r.id, r.schedule.now⟩, c.requests action r world, errorOf p⟩

/-- The conduct, with its callbacks written down in the world. -/
def Conduct.recorded (c : Conduct σ α) : Conduct (σ × List (Callback α)) α where
  behaviour action r w := (c.behaviour action r w.1).map fun p =>
    { p with world := (p.world, w.2 ++ [c.callback action r w.1 p]) }
  requests action r w := c.requests action r w.1
  granted := by
    intro action r w p hp
    obtain ⟨q, hq, rfl⟩ := Option.map_eq_some_iff.1 hp
    exact c.granted hq

/-- What is left of a run, without its record. -/
def unrecorded (ran : Ran (σ × List (Callback α)) α ε) : Ran σ α ε :=
  ran.mapWorld Prod.fst

variable {σ α : Type} {c : Conduct σ α} {s s' : Schedule α} {w w' : σ} {limits : RunLimits} {due : DueTask α}
  {tasks : List (DueTask α)} {p : Performed σ α}

/-- What is written down changes nothing else. -/
theorem run_recorded (c : Conduct σ α) (limits : RunLimits) (clears : Bool) (fuel : Nat) (s : Schedule α) (w : σ)
    (calls : List (Callback α)) :
    (s.run c.recorded.behaviour limits clears fuel (w, calls)).map unrecorded =
      s.run c.behaviour limits clears fuel w := by
  apply run_mapWorld
  intro action r w
  rw [Conduct.recorded, Option.map_map]
  exact Option.map_id'

/-! ## The stop signal -/

theorem isStopped_grant (r : Running α) (q : Request α) :
    (r.grant q).schedule.isStopped = (r.schedule.isStopped || q.isStop) := by
  cases q with
  | cancel id =>
    rw [Running.grant, Running.cancel]
    split <;> exact (Bool.or_false _).symm
  | stop => exact (Bool.or_true _).symm
  | _ => exact (Bool.or_false _).symm

theorem isStopped_session (r : Running α) (requests : List (Request α)) :
    (r.session requests).1.schedule.isStopped = (r.schedule.isStopped || requests.any Request.isStop) := by
  induction requests generalizing r with
  | nil => exact (Bool.or_false _).symm
  | cons q requests ih => rw [Running.session, ih, isStopped_grant, List.any_cons, Bool.or_assoc]

/-- The signal is up behind a task when it was up before, or when the task has raised it. -/
theorem isStopped_performed (hp : c.behaviour due.task.action (start { s with tasks } due) w = some p) :
    (conclude due p).schedule.isStopped = true ↔
      s.isStopped = true ∨ (c.callback due.task.action (start { s with tasks } due) w p).Raises := by
  rw [isStopped_conclude, c.granted hp, isStopped_session, Bool.or_eq_true]
  rfl

/-! ## The end of a run -/

theorem isStopped_of_ending? {executed : Nat} (h : s.ending? limits executed = none) : s.isStopped = false := by
  unfold ending? at h
  split at h
  · cases h
  · exact Bool.eq_false_iff.2 ‹_›

/-- The number of tasks is checked before each of them. -/
theorem lt_count_of_ending? {executed : Nat} (h : s.ending? limits executed = none) (hcount : 0 < limits.count) :
    executed < limits.count := by
  unfold ending? at h
  split at h
  · cases h
  split at h
  · cases h
  split at h
  · cases h
  · rename_i _ _ hbelow
    simp only [Bool.and_eq_true, decide_eq_true_eq, not_and, Nat.not_le] at hbelow
    exact hbelow hcount

/-- What the callbacks that the loop of a run has started say of the way it ended. -/
structure Tells (limits : RunLimits) (s : Schedule α) (executed : Nat) (calls : List (Callback α))
    (ran : Ran (σ × List (Callback α)) α (Except VmError (Nat × RunEnd))) : Prop where
  idle : s.isStopped = true → calls = []
  last : ∀ before call after, calls = before ++ call :: after → call.IsLast → after = []
  failed : ∀ e, ran.result = .error e ↔ ∃ call ∈ calls, call.error? = some e
  ended : ∀ total reason, ran.result = .ok (total, reason) →
    total = executed + calls.length ∧ (0 < limits.count → executed ≤ limits.count → total ≤ limits.count) ∧
      ran.schedule.ending? limits total = some reason ∧
      (ran.schedule.isStopped = true ↔ s.isStopped = true ∨ ∃ call ∈ calls, call.Raises)

/-- A run that ends at once has started nothing. -/
theorem Tells.nil {executed : Nat} {reason : RunEnd} {world : σ × List (Callback α)}
    (h : s.ending? limits executed = some reason) :
    Tells limits s executed [] ⟨s, world, .ok (executed, reason)⟩ where
  idle _ := rfl
  last := by simp
  failed := by simp
  ended := by
    intro total reason' hresult
    cases hresult
    simp [h]

/-- A callback that fails is the last one. -/
theorem Tells.fail {executed : Nat} {call : Callback α} {e : VmError} {world : σ × List (Callback α)}
    (hgoes : s.ending? limits executed = none) (herror : call.error? = some e) :
    Tells limits s executed [call] ⟨s', world, .error e⟩ where
  idle hstopped := by
    rw [isStopped_of_ending? hgoes] at hstopped
    cases hstopped
  last := by
    intro before call' after hcalls _
    have hlength := congrArg List.length hcalls
    simp only [List.length_append, List.length_cons, List.length_nil] at hlength
    exact List.length_eq_zero_iff.1 (by omega)
  failed := by
    intro e'
    simp [herror]
  ended := nofun

/-- A callback that ends well is followed by the rest, and by nothing when it has raised the signal. -/
theorem Tells.cons {executed : Nat} {call : Callback α} {calls : List (Callback α)}
    {ran : Ran (σ × List (Callback α)) α (Except VmError (Nat × RunEnd))}
    (hgoes : s.ending? limits executed = none) (herror : call.error? = none)
    (hsignal : s'.isStopped = true ↔ s.isStopped = true ∨ call.Raises)
    (h : Tells limits s' (executed + 1) calls ran) : Tells limits s executed (call :: calls) ran where
  idle hstopped := by
    rw [isStopped_of_ending? hgoes] at hstopped
    cases hstopped
  last := by
    intro before call' after hcalls hlast
    cases before with
    | nil =>
      obtain ⟨rfl, rfl⟩ := List.cons.inj hcalls
      -- It has not failed, so the signal is up, and the rest is empty.
      have hraises : call.Raises := hlast.resolve_right (by simp [herror])
      exact h.idle (hsignal.2 (.inr hraises))
    | cons first before => exact h.last before call' after (List.cons.inj hcalls).2 hlast
  failed := by
    intro e
    rw [h.failed]
    simp [herror]
  ended := by
    intro total reason hresult
    obtain ⟨htotal, hbound, hends, hstopped⟩ := h.ended total reason hresult
    refine ⟨by rw [htotal, List.length_cons]; omega, ?_, hends, ?_⟩
    · intro hcount _
      exact hbound hcount (lt_count_of_ending? hgoes hcount)
    · simp only [hstopped, hsignal, List.mem_cons, exists_eq_or_imp, or_assoc]

/-- By induction on the fuel: every callback is written down behind those before it. -/
theorem tells_runFrom {fuel executed : Nat} {calls : List (Callback α)}
    {ran : Ran (σ × List (Callback α)) α (Except VmError (Nat × RunEnd))}
    (hrun : runFrom c.recorded.behaviour limits fuel executed s (w, calls) = some ran) :
    ∃ more, ran.world.2 = calls ++ more ∧ Tells limits s executed more ran := by
  induction fuel using Nat.strongRecOn generalizing executed s w calls with
  | ind fuel ih =>
    obtain ⟨reason, hends, rfl⟩ | ⟨due, tasks, left, q, hgoes, _, rfl, hq, hnext⟩ := runFrom_eq_some hrun
    · exact ⟨[], (List.append_nil _).symm, .nil hends⟩
    · obtain ⟨p, hp, rfl⟩ := Option.map_eq_some_iff.1 hq
      let call := c.callback due.task.action (start { s with tasks } due) w p
      have hsignal := isStopped_performed hq
      obtain ⟨e, hresult, rfl⟩ | ⟨action, hresult, hrest⟩ := hnext
      · have herror : call.error? = some e := errorOf_eq_some hresult
        exact ⟨[call], rfl, .fail hgoes herror⟩
      · have herror : call.error? = none := errorOf_eq_none hresult
        obtain ⟨more, hmore, htells⟩ := ih left (Nat.lt_succ_self left) hrest
        refine ⟨call :: more, ?_, .cons hgoes herror hsignal htells⟩
        rw [hmore, List.append_assoc, List.singleton_append]

/-! ## Why a run ends -/

variable {count n total : Nat} {elapsed : Nat → Nat} {reason : RunEnd}

/-- Without a bound on its duration, a run ends for the first of three reasons that holds. -/
theorem reason_of_ending? (h : s.ending? { count, elapsed } total = some reason) :
    (reason = .stopped ↔ s.isStopped = true) ∧
      (reason ≠ .stopped → (reason = .empty ↔ s.tasks = []) ∧
        (reason = .countReached ↔ s.tasks ≠ [] ∧ 0 < count ∧ count ≤ total)) := by
  unfold ending? at h
  split at h
  · rename_i hstopped
    cases h
    simp [hstopped]
  split at h
  · rename_i hstopped hempty
    cases h
    have htasks : s.tasks = [] := List.isEmpty_iff.1 hempty
    simp [hstopped, htasks]
  split at h
  · rename_i hstopped hleft hreached
    cases h
    have htasks : s.tasks ≠ [] := fun hnil => hleft (List.isEmpty_iff.2 hnil)
    have hbound : 0 < count ∧ count ≤ total := by simpa using hreached
    simp [hstopped, htasks, hbound]
  · -- There is no bound on the duration.
    simp at h

/-- What is left of a schedule when a run is over. -/
def kept (clears : Bool) (left : Schedule α) : Schedule α :=
  if clears then left.clear else left

theorem run_eq_some {behaviour : Behaviour σ α} {clears : Bool} {fuel : Nat} {ran : Ran σ α (Except VmError RunSummary)}
    (h : s.run behaviour limits clears fuel w = some ran) :
    ∃ loop, runFrom behaviour limits fuel 0 { s with isStopped := false } w = some loop ∧
      ran = ⟨kept clears loop.schedule, loop.world,
        loop.result.map fun ended => ⟨ended.1, ended.2, (kept clears loop.schedule).size⟩⟩ := by
  obtain ⟨loop, hloop, hran⟩ := Option.bind_eq_some_iff.1 h
  exact ⟨loop, hloop, (Option.some.inj hran).symm⟩

theorem run_of_runFrom {behaviour : Behaviour σ α} {fuel : Nat} {loop : Ran σ α (Except VmError (Nat × RunEnd))}
    (clears : Bool) (h : runFrom behaviour limits fuel 0 { s with isStopped := false } w = some loop) :
    s.run behaviour limits clears fuel w = some ⟨kept clears loop.schedule, loop.world,
      loop.result.map fun ended => ⟨ended.1, ended.2, (kept clears loop.schedule).size⟩⟩ := by
  rw [run, h]
  rfl

/-! ## Callbacks that end a run -/

/-- After `n` callbacks that neither fail nor raise the signal, a run of at most `count` tasks starts one more. -/
def ComesTo (c : Conduct σ α) (count n : Nat) (s : Schedule α) (w : σ) (call : Callback α) : Prop :=
  (count = 0 ∨ n < count) ∧ ∃ s' w' due tasks p,
    Performs c.behaviour n { s with isStopped := false } w s' w' ∧ s'.tasks = due :: tasks ∧
      c.behaviour due.task.action (start { s' with tasks } due) w' = some p ∧
      call = c.callback due.task.action (start { s' with tasks } due) w' p

theorem ending?_eq_none (hs : s.isStopped = false) (htasks : s.tasks = due :: tasks)
    (hcount : count = 0 ∨ total < count) : s.ending? { count, elapsed } total = none := by
  have hbelow : ¬ (0 < count ∧ count ≤ total) := by omega
  simp only [ending?, isEmpty, hs, htasks]
  simpa using hbelow

/-- Quiet callbacks take the loop of a run on. -/
theorem runFrom_of_performs {behaviour : Behaviour σ α} {executed more : Nat} (hs : s.isStopped = false)
    (h : Performs behaviour n s w s' w') (hcount : count = 0 ∨ executed + n ≤ count) :
    runFrom behaviour { count, elapsed } (n + more) executed s w =
      runFrom behaviour { count, elapsed } more (executed + n) s' w' := by
  induction h generalizing executed with
  | none => rw [Nat.zero_add, Nat.add_zero]
  | @next s _ w _ n due tasks p action htasks hp hresult hgoes _ ih =>
    have hending : s.ending? { count, elapsed } executed = none := ending?_eq_none hs htasks (by omega)
    rw [Nat.add_right_comm, runFrom_succ hending htasks hp hresult, ih hgoes (by omega)]
    congr 1
    omega

theorem runFrom_fail {behaviour : Behaviour σ α} {executed more : Nat} {e : VmError}
    (hending : s.ending? limits executed = none) (htasks : s.tasks = due :: tasks)
    (hp : behaviour due.task.action (start { s with tasks } due) w = some p) (hresult : p.result = .error e) :
    runFrom behaviour limits (more + 1) executed s w = some ⟨p.running.schedule, p.world, .error e⟩ := by
  rw [runFrom, hending, htasks]
  simp only [perform, hp, Option.map_some, Option.bind_eq_bind, Option.bind_some, conclude, hresult]
  rfl

/-- A callback that fails or raises the signal ends its run, and the run has an answer. -/
theorem run_of_comesTo {call : Callback α} {fuel : Nat} (h : ComesTo c count n s w call) (hlast : call.IsLast)
    (hfuel : n < fuel) (clears : Bool) :
    ∃ ran, s.run c.behaviour { count, elapsed } clears fuel w = some ran ∧
      (∀ e, call.error? = some e → ran.result = .error e) ∧
      (call.error? = none → ∃ summary, ran.result = .ok summary ∧ summary.executed = n + 1 ∧
        summary.reason = .stopped) := by
  obtain ⟨hcount, s', w', due, tasks, p, hperforms, htasks, hp, rfl⟩ := h
  obtain ⟨more, rfl⟩ : ∃ more, fuel = n + (more + 1) := ⟨fuel - n - 1, by omega⟩
  have hs' : s'.isStopped = false := hperforms.isStopped rfl
  have hquiet : runFrom c.behaviour { count, elapsed } (n + (more + 1)) 0 { s with isStopped := false } w =
      runFrom c.behaviour { count, elapsed } (more + 1) (0 + n) s' w' :=
    runFrom_of_performs rfl hperforms (by omega)
  have hending : s'.ending? { count, elapsed } (0 + n) = none := ending?_eq_none hs' htasks (by omega)
  cases hresult : p.result with
  | error e =>
    have hfails := hquiet.trans (runFrom_fail hending htasks hp hresult)
    refine ⟨_, run_of_runFrom clears hfails, ?_, ?_⟩
    · intro e' he'
      have herror : errorOf p = some e := errorOf_eq_some hresult
      obtain rfl := Option.some.inj (herror.symm.trans he')
      rfl
    · intro hnone
      cases (errorOf_eq_some hresult).symm.trans hnone
  | ok action =>
    have hnone : errorOf p = none := errorOf_eq_none hresult
    have hraises := hlast.resolve_right fun herror => by
      cases (congrArg Option.isSome hnone).symm.trans herror
    -- The signal is up when the loop comes back to its head.
    have hstopped := (isStopped_performed hp).2 (.inr hraises)
    have hends : (conclude due p).schedule.ending? { count, elapsed } (0 + n + 1) = some .stopped := if_pos hstopped
    have hstops := hquiet.trans ((runFrom_succ hending htasks hp hresult).trans (runFrom_of_ending? hends))
    refine ⟨_, run_of_runFrom clears hstops, ?_, ?_⟩
    · intro e herror
      cases hnone.symm.trans herror
    · intro _
      exact ⟨_, rfl, by simp, rfl⟩

end Schedule

/-! ## Whole runs -/

/-- A summary counts the callbacks of a run, says why no more were started, and counts what is left. The schedule was
`left` when the run ended. -/
structure RunSummary.Exact (summary : RunSummary) (count : Nat) (clears : Bool) (calls : List (Schedule.Callback α))
    (left : Schedule α) : Prop where
  executed : summary.executed = calls.length
  bounded : 0 < count → summary.executed ≤ count
  stopped : summary.reason = .stopped ↔ ∃ call ∈ calls, call.Raises
  empty : summary.reason ≠ .stopped → (summary.reason = .empty ↔ left.tasks = [])
  countReached : summary.reason ≠ .stopped →
    (summary.reason = .countReached ↔ left.tasks ≠ [] ∧ summary.executed = count ∧ 0 < count)
  remaining : summary.remaining = if clears then 0 else left.size

namespace Schedule

variable {σ α : Type}

theorem size_kept (clears : Bool) (left : Schedule α) : (kept clears left).size = if clears then 0 else left.size := by
  cases clears <;> rfl

theorem Tells.exact {count total : Nat} {elapsed : Nat → Nat} {s : Schedule α} {calls : List (Callback α)}
    {ran : Ran (σ × List (Callback α)) α (Except VmError (Nat × RunEnd))} {reason : RunEnd}
    (h : Tells { count, elapsed } { s with isStopped := false } 0 calls ran)
    (hresult : ran.result = .ok (total, reason)) (clears : Bool) :
    RunSummary.Exact ⟨total, reason, (kept clears ran.schedule).size⟩ count clears calls ran.schedule := by
  obtain ⟨htotal, hbound, hends, hstopped⟩ := h.ended total reason hresult
  obtain ⟨hstop, hothers⟩ := reason_of_ending? hends
  rw [Nat.zero_add] at htotal
  exact {
    executed := htotal
    bounded := fun hcount => hbound hcount (Nat.zero_le count)
    stopped := by
      rw [hstop, hstopped]
      simp
    empty := fun hreason => (hothers hreason).1
    countReached := by
      intro hreason
      rw [(hothers hreason).2]
      have hle := fun hcount => hbound hcount (Nat.zero_le count)
      constructor
      · rintro ⟨hleft, hcount, hreached⟩
        exact ⟨hleft, Nat.le_antisymm (hle hcount) hreached, hcount⟩
      · rintro ⟨hleft, hreached, hcount⟩
        exact ⟨hleft, hcount, Nat.le_of_eq hreached.symm⟩
    remaining := size_kept clears ran.schedule }

/-- Whatever tasks a schedule has and whatever they do: the summary of a run without a bound on its duration is exact,
nothing is started after a callback that fails or raises the stop signal, and the run returns the error of the callback
that failed. A run that comes to such a callback does return. What is left when the run ended is dropped on request,
after an error too. The record of the callbacks changes nothing else. -/
theorem run_summary_is_exact (c : Conduct σ α) (s : Schedule α) (w : σ) (count : Nat) (elapsed : Nat → Nat)
    (clears : Bool) (fuel : Nat) :
    (∀ ran, s.run c.recorded.behaviour { count, elapsed } clears fuel (w, []) = some ran →
      ∃ left, s.run c.recorded.behaviour { count, elapsed } false fuel (w, []) = some left ∧
        ran.world = left.world ∧ ran.schedule = kept clears left.schedule ∧
        (∀ summary, ran.result = .ok summary → summary.Exact count clears ran.world.2 left.schedule) ∧
        (∀ before call after, ran.world.2 = before ++ call :: after → call.IsLast → after = []) ∧
        (∀ e, ran.result = .error e ↔ ∃ call ∈ ran.world.2, call.error? = some e) ∧
        (clears = true → ran.schedule.tasks = [])) ∧
      (∀ n call, ComesTo c count n s w call → call.IsLast → n < fuel →
        ∃ ran, s.run c.behaviour { count, elapsed } clears fuel w = some ran ∧
          (∀ e, call.error? = some e → ran.result = .error e) ∧
          (call.error? = none → ∃ summary, ran.result = .ok summary ∧ summary.executed = n + 1 ∧
            summary.reason = .stopped)) ∧
      (s.run c.recorded.behaviour { count, elapsed } clears fuel (w, [])).map unrecorded =
        s.run c.behaviour { count, elapsed } clears fuel w := by
  refine ⟨?_, fun n call hcomes hlast hfuel => run_of_comesTo hcomes hlast hfuel clears, run_recorded ..⟩
  intro ran hrun
  obtain ⟨loop, hloop, rfl⟩ := run_eq_some hrun
  obtain ⟨calls, hcalls, htells⟩ := tells_runFrom hloop
  rw [List.nil_append] at hcalls
  refine ⟨_, run_of_runFrom false hloop, rfl, rfl, ?_, ?_, ?_, ?_⟩
  · intro summary hsummary
    obtain ⟨⟨total, reason⟩, hresult, rfl⟩ := Except.map_eq_ok.1 hsummary
    dsimp only
    rw [hcalls]
    exact htells.exact hresult clears
  · rw [hcalls]
    exact htells.last
  · intro e
    rw [hcalls, ← htells.failed]
    cases loop.result <;> simp [Except.map]
  · rintro rfl
    rfl

/-- The action `stop` raises the signal; the others ask for nothing. -/
def signalling : Conduct Unit String where
  behaviour action r _ := some ⟨(r.session (if action = "stop" then [.stop] else [])).1, (), .ok action⟩
  requests action _ _ := if action = "stop" then [.stop] else []
  granted := by
    intro action r w p hp
    obtain rfl := Option.some.inj hp
    rfl

/-- All three are due at once, and again every ten milliseconds. -/
def threeTasks : Schedule String :=
  ["first", "stop", "never"].foldl (fun s action => (s.add (.repeating (.ofNat 10) action)).2) {}

theorem threeTasks_summary_is_exact :
    ∃ ran left, threeTasks.run signalling.recorded.behaviour { count := 5 } true 3 ((), []) = some ran ∧
      ran.result = .ok ⟨2, .stopped, 0⟩ ∧ ran.world.2.map (·.start.action) = ["first", "stop"] ∧
      ran.schedule = kept true left ∧ RunSummary.Exact ⟨2, .stopped, 0⟩ 5 true ran.world.2 left := by
  have hrun : (threeTasks.run signalling.recorded.behaviour { count := 5 } true 3 ((), [])).map (fun ran =>
      (ran.world.2.map (·.start.action), ran.result.toOption)) =
        some (["first", "stop"], some ⟨2, .stopped, 0⟩) := by
    decide +kernel
  obtain ⟨ran, hran, hseen⟩ := Option.map_eq_some_iff.1 hrun
  obtain ⟨hstarts, hresult⟩ := Prod.mk.inj hseen
  have hok := Except.eq_ok_of_toOption hresult
  obtain ⟨left, _, _, hkept, hexact, _⟩ :=
    (run_summary_is_exact signalling threeTasks () 5 (fun _ => 0) true 3).1 ran hran
  exact ⟨ran, left.schedule, hran, hok, hstarts, hkept, hexact _ hok⟩

end Schedule

end MovieVm
