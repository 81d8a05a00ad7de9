import MovieVm.Proofs.ScriptTests
import MovieVm.Proofs.ShellTwins

/-!
# The exit status of a shell

A run that ends with a verdict says that tests have failed exactly when a script was executed that could not be read,
whose module failed, or one of whose tests threw. Nothing else that a shell does, and nothing that it shows, has a say.
-/

namespace MovieVm.Shell

open Bytecode

/-! ## Draining, step by step -/

/-- Draining a queue makes these invocations when `times` holds for the next test: what a test registers stands behind
the rest of the queue. -/
inductive Drains (fuel : Nat) : Nat → List TestEntry → Domain → List Invocation → Domain → Prop where
  | done (times : Nat) (d : Domain) : Drains fuel times [] d [] d
  | count {times count : Nat} {queue : List TestEntry} {d d' : Domain} {made : List Invocation}
    (h : Drains fuel count queue d made d') : Drains fuel times (.repeatNext count :: queue) d made d'
  | test {times : Nat} {name : String} {function : Value} {queue : List TestEntry} {d d' d'' : Domain}
    {first rest : List Invocation} (hfirst : Makes fuel d first d')
    (hcalls : first.map Invocation.call = List.replicate times (name, function))
    (hrest : Drains fuel 1 (queue ++ first.flatMap Invocation.registered) d' rest d'') :
    Drains fuel times (.test name function :: queue) d (first ++ rest) d''

variable {fuel times : Nat} {queue : List TestEntry} {d d₁ d₂ : Domain} {made₁ made₂ : List Invocation}

/-- The calls decide what invocations come to. -/
theorem Makes.unique (h₁ : Makes fuel d made₁ d₁) (h₂ : Makes fuel d made₂ d₂)
    (hcalls : made₁.map Invocation.call = made₂.map Invocation.call) : made₁ = made₂ ∧ d₁ = d₂ := by
  induction made₁ generalizing d made₂ with
  | nil =>
    cases made₂ with
    | nil => exact ⟨rfl, h₁.trans h₂.symm⟩
    | cons i made₂ => cases hcalls
  | cons i made₁ ih =>
    cases made₂ with
    | nil => cases hcalls
    | cons j made₂ =>
      obtain ⟨hcall, hrest⟩ := List.cons.inj hcalls
      obtain ⟨hname, hfunction⟩ := Prod.mk.inj hcall
      obtain ⟨hi, hmade₁⟩ := h₁
      obtain ⟨hj, hmade₂⟩ := h₂
      have houtcome : i.outcome = j.outcome := by
        rw [hfunction, hj] at hi
        exact (Option.some.inj hi).symm
      obtain ⟨rfl, hdomain⟩ := ih hmade₁ (houtcome ▸ hmade₂) hrest
      refine ⟨?_, hdomain⟩
      cases i
      cases j
      cases hname
      cases hfunction
      cases houtcome
      rfl

/-- There is one way to drain a queue. -/
theorem Drains.unique (h₁ : Drains fuel times queue d made₁ d₁) (h₂ : Drains fuel times queue d made₂ d₂) :
    made₁ = made₂ ∧ d₁ = d₂ := by
  induction h₁ generalizing made₂ d₂ with
  | done =>
    cases h₂
    exact ⟨rfl, rfl⟩
  | count _ ih =>
    cases h₂ with
    | count h => exact ih h
  | test hfirst hcalls _ ih =>
    cases h₂ with
    | test hfirst' hcalls' hrest' =>
      obtain ⟨rfl, rfl⟩ := hfirst.unique hfirst' (hcalls.trans hcalls'.symm)
      obtain ⟨rfl, rfl⟩ := ih hrest'
      exact ⟨rfl, rfl⟩

namespace Bench

variable {b b' : Bench} {fs : Files} {file path : String} {verbose : Bool} {time : Double} {steps : Nat}
  {report report' : TestReport} {result : Except ShellError TestReport}

/-- A test that was announced is invoked, and the rest is drained. -/
theorem drains_test {name : String} {function : Value} {first made : List Invocation} {announced next : Bench}
    (hannounced : announced.domain = b.domain ∧ announced.session = { b.session with queue })
    (hfirst : Made fuel announced next first)
    (hcalls : first.map Invocation.call = List.replicate times (name, function))
    (hdrains : Drains fuel 1 next.session.queue next.domain made b'.domain)
    (hfailed : b'.session.everFailed = (next.session.everFailed || made.any Invocation.threw)) :
    Drains fuel times (.test name function :: queue) b.domain (first ++ made) b'.domain ∧
      b'.session.everFailed = (b.session.everFailed || (first ++ made).any Invocation.threw) := by
  obtain ⟨hdomain, hsession⟩ := hannounced
  have hmakes := hfirst.makes
  rw [hdomain] at hmakes
  rw [hfirst.queue, hsession] at hdrains
  refine ⟨.test hmakes hcalls hdrains, ?_⟩
  rw [hfailed, hfirst.everFailed, hsession, List.any_append, Bool.or_assoc]

theorem exists_drains (h : drain fuel file verbose steps times b report = some (b', report')) :
    ∃ made, Drains fuel times b.session.queue b.domain made b'.domain ∧
      b'.session.everFailed = (b.session.everFailed || made.any Invocation.threw) := by
  induction steps generalizing times b report with
  | zero =>
    rw [drain] at h
    split at h
    · rename_i hempty
      obtain ⟨rfl, rfl⟩ := Prod.mk.inj (Option.some.inj h)
      rw [List.isEmpty_iff.1 hempty]
      exact ⟨[], .done _ _, (Bool.or_false _).symm⟩
    · cases h
  | succ steps ih =>
    rw [drain] at h
    split at h
    · rename_i hqueue
      obtain ⟨rfl, rfl⟩ := Prod.mk.inj (Option.some.inj h)
      rw [hqueue]
      exact ⟨[], .done _ _, (Bool.or_false _).symm⟩
    · rename_i count queue hqueue
      obtain ⟨made, hdrains, hfailed⟩ := ih h
      rw [hqueue]
      exact ⟨made, .count hdrains, hfailed⟩
    · rename_i name function queue hqueue
      obtain ⟨⟨next, failures⟩, hinvoke, h⟩ := Option.bind_eq_some_iff.1 h
      obtain ⟨first, hfirst, hcalls, -⟩ := exists_made_of_invoke hinvoke
      obtain ⟨made, hdrains, hfailed⟩ := ih h
      rw [hqueue]
      refine ⟨first ++ made, drains_test ?_ hfirst hcalls hdrains hfailed⟩
      -- Announcing a test writes a line and nothing else.
      split <;> exact ⟨rfl, rfl⟩

/-- A module that fails, or a test that throws, marks the session. -/
theorem failed_of_read {m : Module} (hread : readScript fs path = .ok m)
    (h : b.executeFile fuel fs path verbose time = some (b', result)) :
    result.isOk = true ∧ ∃ o made d', b.domain.execute fuel .application m = some o ∧
      Drains fuel 1 (b.session.queue ++ registrations o.effects) o.domain made d' ∧
      b'.session.everFailed = (b.session.everFailed || !o.result.isOk || made.any Invocation.threw) := by
  obtain ⟨hok, o, started, drained, report, ho, hstarted, hdrain, -, hsession⟩ := read_eq hread h
  obtain ⟨made, hdrains, hfailed⟩ := exists_drains hdrain
  rw [hstarted.domain, hstarted.queue] at hdrains
  rw [hstarted.everFailed] at hfailed
  exact ⟨hok, o, made, _, ho, hdrains, (congrArg Session.everFailed hsession).trans hfailed⟩

end Bench

/-! ## One script -/

namespace Execution

/-- The script has been read, and its module ends with `o` in a domain whose bootstrap has the effects `booted`. -/
inductive Ran (fuel : Nat) (e : Execution) (booted : Effects) (o : Outcome Value) : Prop where
  | intro {m : Module} {d : Domain} (hread : e.module = .ok m)
    (hboot : e.before.bootstrap.run e.before.fileSystem fuel = some (booted, .ok d))
    (ho : d.execute fuel .application m = some o)

/-- A script fails: it cannot be read or assembled, its module is rejected or throws, or one of the tests throws that
are drained behind it. -/
inductive Fails (fuel : Nat) (e : Execution) : Prop where
  | unread {cause : ShellError} (hread : e.module = .error cause)
  | threw {booted : Effects} {o : Outcome Value} {error : VmError} (hran : e.Ran fuel booted o)
    (hthrew : o.result = .error error)
  | test {booted : Effects} {o : Outcome Value} {made : List Invocation} {d : Domain} {i : Invocation}
    (hran : e.Ran fuel booted o)
    (hdrains : Drains fuel 1 (e.before.session.queue ++ registrations booted ++ registrations o.effects) o.domain
      made d)
    (hi : i ∈ made) (hthrew : i.threw = true)

variable {e : Execution} {booted booted' : Effects} {o o' : Outcome Value} {made : List Invocation} {u : Unit}

theorem Ran.unique (h : e.Ran fuel booted o) (h' : e.Ran fuel booted' o') : booted = booted' ∧ o = o' := by
  obtain ⟨hread, hboot, ho⟩ := h
  obtain ⟨hread', hboot', ho'⟩ := h'
  obtain rfl := Except.ok.inj (hread.symm.trans hread')
  obtain ⟨rfl, hdomain⟩ := Prod.mk.inj (Option.some.inj (hboot.symm.trans hboot'))
  obtain rfl := Except.ok.inj hdomain
  exact ⟨rfl, Option.some.inj (ho.symm.trans ho')⟩

/-- A script that was read fails by its module or by one of the invocations that its drain makes. -/
theorem fails_iff (h : e.Ran fuel booted o)
    (hdrains : Drains fuel 1 (e.before.session.queue ++ registrations booted ++ registrations o.effects) o.domain
      made d) :
    e.Fails fuel ↔ (∃ error, o.result = .error error) ∨ ∃ i ∈ made, i.threw = true := by
  constructor
  · intro hfails
    cases hfails with
    | unread hunread =>
      obtain ⟨hread, -, -⟩ := h
      cases hread.symm.trans hunread
    | threw hran hthrew =>
      obtain ⟨-, rfl⟩ := h.unique hran
      exact .inl ⟨_, hthrew⟩
    | test hran hdrains' hi hthrew =>
      obtain ⟨rfl, rfl⟩ := h.unique hran
      obtain ⟨rfl, -⟩ := hdrains.unique hdrains'
      exact .inr ⟨_, hi, hthrew⟩
  · rintro (⟨error, hthrew⟩ | ⟨i, hi, hthrew⟩)
    · exact .threw h hthrew
    · exact .test h hdrains hi hthrew

theorem not_isOk_iff {ε α : Type} {x : Except ε α} : (!x.isOk) = true ↔ ∃ error, x = .error error := by
  cases x with
  | ok a => exact iff_of_false nofun nofun
  | error error => exact iff_of_true rfl ⟨error, rfl⟩

/-- A script that fails marks the session, and no script takes the mark away. -/
theorem everFailed_script (hscript : InputKind.ofPath? e.file = some .script)
    (h : Run.executeFile fuel e.file e.before = .ok u e.after) :
    e.after.session.everFailed = true ↔ e.before.session.everFailed = true ∨ e.Fails fuel := by
  rw [Run.executeFile, hscript] at h
  obtain ⟨booted, b, b', result, hboot, hqueue, hstart, hexecuted, hsession⟩ := Run.executeScript_eq_ok h
  rw [hsession]
  cases hread : e.module with
  | error cause =>
    obtain ⟨-, rfl⟩ := Bench.unread_eq hread hexecuted
    exact iff_of_true (Bool.or_true _) (.inr (.unread hread))
  | ok m =>
    obtain ⟨hok, o, made, d, ho, hdrains, hfailed⟩ := Bench.failed_of_read hread hexecuted
    rw [hqueue] at hdrains
    rw [fails_iff ⟨hread, hboot, ho⟩ hdrains, hfailed, hstart, hok, Bool.not_true, Bool.or_false, Bool.or_assoc,
      Bool.or_eq_true, Bool.or_eq_true, not_isOk_iff, List.any_eq_true]

/-- The executions that mark the session. -/
def Marks (fuel : Nat) (e : Execution) : Prop :=
  InputKind.ofPath? e.file = some .script ∧ e.Fails fuel

/-- One execution marks the session if its script fails, and keeps a mark that is there. -/
theorem everFailed_after (h : Run.executeFile fuel e.file e.before = .ok u e.after) :
    e.after.session.everFailed = true ↔ e.before.session.everFailed = true ∨ e.Marks fuel := by
  by_cases hscript : InputKind.ofPath? e.file = some .script
  · rw [everFailed_script hscript h, Marks, and_iff_right hscript]
  · rw [(Run.session_executeFile hscript fuel).of_ok h]
    exact (or_iff_left fun hmarks => hscript hmarks.1).symm

end Execution

variable {s s' : Shell} {files : List String}

/-- Executing files marks the session if one of the executions does. -/
theorem everFailed_of_forM {u : Unit} (h : files.forM (Run.executeFile fuel) s = .ok u s') :
    s'.session.everFailed = true ↔
      s.session.everFailed = true ∨ ∃ e ∈ executionsFrom fuel s files, e.Marks fuel := by
  induction files generalizing s with
  | nil =>
    cases h
    simp only [executionsFrom, List.not_mem_nil, false_and, exists_false, or_false]
  | cons file files ih =>
    obtain ⟨_, next, hfile, hfiles⟩ := EStateM.bind_eq_ok.1 h
    have hstep := Execution.everFailed_after (e := ⟨file, s, next⟩) hfile
    rw [executionsFrom, hfile, ih hfiles, hstep, or_assoc]
    exact or_congr_right (List.exists_mem_cons_iff ..).symm

/-! ## Runs -/

namespace Run

theorem Silent.session {x : ShellRun Unit} (h : Silent x) : Keeps Shell.session x := by
  intro s
  obtain ⟨console, hx⟩ := h s
  rw [ShellRun.left, hx]

/-- Disassembling never marks the session. -/
theorem session_handle (h : s.options.has .execute = false) (fuel : Nat) : Keeps Shell.session (handle fuel s) := by
  rw [handle, h, if_neg Bool.false_ne_true]
  exact session_selected (.forM (fun file => Silent.session (silent_disassembleFile file)) _) _

theorem judge_eq_ok {verdict : Verdict} (h : judge s = .ok verdict s') :
    verdict = .testsFailed ↔ s.session.everFailed = true := by
  obtain ⟨_, _, hget, h⟩ := EStateM.bind_eq_ok.1 h
  obtain ⟨rfl, rfl⟩ := EStateM.get_eq_ok.1 hget
  split at h
  · rename_i hfailed
    cases h
    exact iff_of_true rfl hfailed
  · rename_i hpassed
    cases h
    exact iff_of_false nofun hpassed

end Run

/-- A run whose session is unmarked at first tells of the executions that mark it. -/
theorem testsFailed_iff {verdict : Verdict} (hnew : s.session.everFailed = false)
    (h : s.run fuel = some (s', .ok verdict)) :
    verdict = .testsFailed ↔ s.options.has .execute = true ∧ ∃ e ∈ s.executions fuel, e.Marks fuel := by
  have hwhole := whole_of_run h
  rw [Run.whole_eq] at hwhole
  obtain ⟨_, _, hget, hwhole⟩ := EStateM.bind_eq_ok.1 hwhole
  obtain ⟨rfl, rfl⟩ := EStateM.get_eq_ok.1 hget
  obtain ⟨_, ready, hprepare, hwhole⟩ := EStateM.bind_eq_ok.1 hwhole
  obtain ⟨_, handled, hhandle, hjudge⟩ := EStateM.bind_eq_ok.1 hwhole
  have hready : ready.session.everFailed = false := by
    rw [(Run.session_prepare s).of_ok hprepare, hnew]
  rw [Run.judge_eq_ok hjudge, executions, hprepare]
  cases hexecute : s.options.has .execute with
  | false =>
    rw [(Run.session_handle hexecute fuel).of_ok hhandle, hready]
    exact iff_of_false Bool.false_ne_true fun hexecutes => Bool.false_ne_true hexecutes.1
  | true =>
    rw [handle_eq hexecute] at hhandle
    rw [everFailed_of_forM hhandle, hready, and_iff_right rfl]
    exact or_iff_right Bool.false_ne_true

/-- The shell with what differs from one run to the next: the seed of the mill and the clocks. -/
def attended (s : Shell) (seed : Nat) (stopwatch : Double) (elapsed : Nat → Nat) : Shell :=
  { s with seed, stopwatch, elapsed }

theorem Twins.attended {w w' : Options} (h : s.Twins w w' s') (seed : Nat) (stopwatch : Double)
    (elapsed : Nat → Nat) : (s.attended seed stopwatch elapsed).Twins w w' (s'.attended seed stopwatch elapsed) := by
  refine ⟨h.options, ?_⟩
  rw [h.same]
  rfl

/-- Options of the same work start shells that differ in what they show. -/
theorem exists_twins {options options' : Options} {console : Console} {fileSystem : Files} {new : Shell}
    (hstart : start options console fileSystem = .ok new) (hsame : options.SameWork options') (console' : Console) :
    ∃ new', start options' console' fileSystem = .ok new' ∧ new.Twins options options' new' := by
  unfold start at hstart ⊢
  rw [hsame.inputs]
  split at hstart
  · cases hstart
  · cases hstart
    exact ⟨_, rfl, rfl, rfl⟩

/-- A shell tells that tests have failed if and only if it executes, and one of the scripts fails that it executes.
Nothing that it shows has a say: with other options for that, and on another console, the verdict is the same. -/
theorem exit_status_is_exact {options : Options} {console : Console} {fileSystem : Files} {new left : Shell}
    {verdict : Verdict} (seed : Nat) (stopwatch : Double) (elapsed : Nat → Nat)
    (hstart : start options console fileSystem = .ok new)
    (hrun : (new.attended seed stopwatch elapsed).run fuel = some (left, .ok verdict)) :
    (((new.attended seed stopwatch elapsed).executions fuel).map Execution.file =
        if options.has .execute then new.files.flatMap (List.replicate options.repetitions ·) else []) ∧
      (verdict = .testsFailed ↔ options.has .execute = true ∧
        ∃ e ∈ (new.attended seed stopwatch elapsed).executions fuel,
          InputKind.ofPath? e.file = some .script ∧ e.Fails fuel) ∧
      ∀ options' console', options.SameWork options' → ∃ new' left',
        start options' console' fileSystem = .ok new' ∧
          (new'.attended seed stopwatch elapsed).run fuel = some (left', .ok verdict) := by
  have hnew := hstart
  rw [start] at hstart
  split at hstart
  · cases hstart
  · rename_i files hinputs
    cases hstart
    refine ⟨executions_of_run hrun, testsFailed_iff rfl hrun, fun options' console' hsame => ?_⟩
    obtain ⟨new', hnew', htwins⟩ := exists_twins hnew hsame console'
    have hends := (htwins.attended seed stopwatch elapsed).run hsame fuel
    rw [hrun] at hends
    obtain ⟨⟨left', result⟩, hrun', hresult⟩ := Option.map_eq_some_iff.1 hends
    exact ⟨new', left', hnew', hrun'.trans (congrArg (fun r => some (left', r)) hresult)⟩

/-- The work of `registrarOptions`, with all that can be shown of it but for its lines. -/
def tracedRegistrarOptions (files : List String) : Options :=
  { registrarOptions files with flags := [.execute, .verbose, .porcelain], writers := "ri" }

theorem registrarOptions_sameWork (files : List String) :
    (registrarOptions files).SameWork (tracedRegistrarOptions files) := by
  refine ⟨fun flag hverbose hporcelain => ?_, rfl⟩
  cases flag
  case verbose => exact absurd rfl hverbose
  case porcelain => exact absurd rfl hporcelain
  all_goals rfl

/-- The script that passes does not make up for the one that is missing. -/
theorem missing_script_decides_exit :
    ∃ new left new' left', start (registrarOptions ["missing.js", "t.js"]) {} registrarFiles = .ok new ∧
      (new.attended 7 .zero id).run 20 = some (left, .ok .testsFailed) ∧
      (∃ e ∈ (new.attended 7 .zero id).executions 20, InputKind.ofPath? e.file = some .script ∧ e.Fails 20) ∧
      start (tracedRegistrarOptions ["missing.js", "t.js"]) { colors := true } registrarFiles = .ok new' ∧
      (new'.attended 7 .zero id).run 20 = some (left', .ok .testsFailed) := by
  have hverdict : ((start (registrarOptions ["missing.js", "t.js"]) {} registrarFiles).toOption.bind fun s =>
      ((s.attended 7 .zero id).run 20).map fun ran => ran.2.toOption) = some (some .testsFailed) := by decide +kernel
  cases hstart : start (registrarOptions ["missing.js", "t.js"]) {} registrarFiles with
  | error cause =>
    rw [hstart] at hverdict
    cases hverdict
  | ok new =>
    rw [hstart] at hverdict
    obtain ⟨⟨left, result⟩, hrun, hresult⟩ := Option.map_eq_some_iff.1 hverdict
    cases result with
    | error e => cases hresult
    | ok verdict =>
      obtain rfl := Option.some.inj hresult
      obtain ⟨-, hexact, halike⟩ := exit_status_is_exact 7 .zero id hstart hrun
      obtain ⟨new', left', hstart', hrun'⟩ := halike _ { colors := true } (registrarOptions_sameWork _)
      exact ⟨new, left, new', left', rfl, hrun, (hexact.1 rfl).2, hstart', hrun'⟩

end MovieVm.Shell
