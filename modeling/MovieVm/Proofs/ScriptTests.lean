import MovieVm.Proofs.ShellRuns
import MovieVm.Proofs.UnitTests

/-!
# The tests of executed scripts

The session outlives the domain of a script. A script that is read and assembled drains the queue, of its own tests
and of those that bootstrapping its domain registers. For one that is not, nothing is drained.
-/

namespace MovieVm.Shell

open Bytecode

/-- The entries that some effects register, in their order. -/
def registrations (effects : Effects) : List TestEntry :=
  effects.toList.filterMap entry?

/-! ## One script -/

namespace Bench

variable {b b' : Bench} {fuel : Nat} {fs : Files} {path : String} {verbose : Bool} {time : Double}
  {result : Except ShellError TestReport}

/-- Without a module, nothing is run. -/
theorem unread_eq {e : ShellError} (hread : readScript fs path = .error e)
    (h : b.executeFile fuel fs path verbose time = some (b', result)) :
    b'.session = b.session ∧ result = .error e := by
  simp only [executeFile, hread] at h
  obtain ⟨rfl, rfl⟩ := Prod.mk.inj (Option.some.inj h)
  exact ⟨rfl, rfl⟩

/-- What a module has left when its tests start. An exception marks the session. -/
structure Started (b : Bench) (o : Outcome Value) (started : Bench) : Prop where
  domain : started.domain = o.domain
  queue : started.session.queue = b.session.queue ++ registrations o.effects
  everFailed : started.session.everFailed = (b.session.everFailed || !o.result.isOk)

/-- A module is run, and the queue is drained from what it has left. -/
theorem read_eq {m : Module} (hread : readScript fs path = .ok m)
    (h : b.executeFile fuel fs path verbose time = some (b', result)) :
    result.isOk = true ∧ ∃ o started drained report, b.domain.execute fuel .application m = some o ∧
      b.Started o started ∧ drain fuel path verbose fuel 1 started {} = some (drained, report) ∧
      b'.domain = drained.domain ∧ b'.session = drained.session := by
  simp only [executeFile, hread] at h
  obtain ⟨o, ho, h⟩ := Option.bind_eq_some_iff.1 h
  obtain ⟨⟨ran, counted⟩, hran, h⟩ := Option.bind_eq_some_iff.1 h
  obtain ⟨rfl, rfl⟩ := Prod.mk.inj (Option.some.inj h)
  obtain ⟨⟨drained, report⟩, hdrained, hran⟩ := Option.bind_eq_some_iff.1 hran
  obtain ⟨rfl, -⟩ := Prod.mk.inj (Option.some.inj hran)
  refine ⟨rfl, o, _, drained, report, ho, ?_, hdrained, rfl, rfl⟩
  obtain ⟨hdomain, hqueue, hfailed⟩ := takeOver_eq
    { b with console := b.console.writeLine s!"Running test file: {path} ..." } ⟨path, .undefined, o⟩
  split
  · rename_i hresult
    refine ⟨hdomain, hqueue, ?_⟩
    rw [hresult]
    exact hfailed.trans (Bool.or_false _).symm
  · rename_i hresult
    refine ⟨hdomain, hqueue, ?_⟩
    rw [hresult]
    exact (Bool.or_true _).symm

/-- A module is run and the queue is drained, whether it throws or not. -/
theorem drained_of_read {m : Module} (hread : readScript fs path = .ok m)
    (h : b.executeFile fuel fs path verbose time = some (b', result)) :
    ∃ o made, b.domain.execute fuel .application m = some o ∧ Makes fuel o.domain made b'.domain ∧
      made.map Invocation.call = (rounds 1 (b.session.queue ++ registrations o.effects ++
        made.flatMap Invocation.registered)).flatMap Round.calls ∧
      b'.session.queue = [] := by
  obtain ⟨-, o, started, drained, report, ho, hstarted, hdrain, hdomain, hsession⟩ := read_eq hread h
  obtain ⟨made, hmade⟩ := exists_drained hdrain
  have hcalls := hmade.calls
  rw [hstarted.queue] at hcalls
  refine ⟨o, made, ho, ?_, hcalls, ?_⟩
  · rw [hdomain, ← hstarted.domain]
    exact hmade.makes
  · rw [hsession, hmade.queue]

end Bench

/-! ## Executed files -/

namespace Run

variable {fuel : Nat} {file : String} {s s' : Shell} {u : Unit}

theorem settle_eq_ok {x : Except ShellError α} {a : α} (h : settle x s = .ok a s') : x = .ok a ∧ s' = s := by
  cases x with
  | ok b =>
    cases h
    exact ⟨rfl, rfl⟩
  | error e => cases h

theorem fueled_eq_ok {x : Option α} {a : α} (h : fueled x s = .ok a s') : x = some a ∧ s' = s := by
  cases x with
  | some b =>
    cases h
    exact ⟨rfl, rfl⟩
  | none => cases h

theorem newDomain_eq_ok {use : Effects → ShellRun Unit} {d : Domain} (h : newDomain fuel use s = .ok d s') :
    ∃ booted used, s.bootstrap.run s.fileSystem fuel = some (booted, .ok d) ∧ use booted s = .ok () used ∧
      s' = { used with domainsCreated := used.domainsCreated + 1 } := by
  obtain ⟨_, _, hget, hafter⟩ := EStateM.bind_eq_ok.1 h
  obtain ⟨rfl, rfl⟩ := EStateM.get_eq_ok.1 hget
  obtain ⟨⟨booted, result⟩, booting, hbooted, hrest⟩ := EStateM.bind_eq_ok.1 hafter
  obtain ⟨hrun, rfl⟩ := fueled_eq_ok hbooted
  obtain ⟨_, used, huse, hend⟩ := EStateM.bind_eq_ok.1 hrest
  obtain ⟨_, _, hsettled, hlast⟩ := EStateM.bind_eq_ok.1 hend
  obtain ⟨hresult, rfl⟩ := settle_eq_ok hsettled
  cases result with
  | error e => cases hresult
  | ok d' =>
    cases hresult
    cases hlast
    exact ⟨booted, _, hrun, huse, rfl⟩

/-- A script runs on a bench with a new domain, and with what bootstrapping registers behind the queue. The session is
that of the bench, marked when the script was not read. -/
theorem executeScript_eq_ok (h : executeScript fuel file s = .ok u s') :
    ∃ (booted : Effects) (b b' : Bench) (result : Except ShellError TestReport),
      s.bootstrap.run s.fileSystem fuel = some (booted, .ok b.domain) ∧
      b.session.queue = s.session.queue ++ registrations booted ∧ b.session.everFailed = s.session.everFailed ∧
      b.executeFile fuel s.fileSystem file (s.options.has .verbose) s.stopwatch = some (b', result) ∧
      s'.session = { b'.session with everFailed := b'.session.everFailed || !result.isOk } := by
  obtain ⟨d, _, hdomain, hafter⟩ := EStateM.bind_eq_ok.1 h
  obtain ⟨booted, used, hboot, huse, rfl⟩ := newDomain_eq_ok hdomain
  obtain ⟨_, _, hget, hrest⟩ := EStateM.bind_eq_ok.1 hafter
  obtain ⟨rfl, rfl⟩ := EStateM.get_eq_ok.1 hget
  obtain ⟨⟨b', result⟩, _, hexecuted, hend⟩ := EStateM.bind_eq_ok.1 hrest
  obtain ⟨hran, rfl⟩ := fueled_eq_ok hexecuted
  cases huse
  obtain ⟨-, hqueue, hfailed⟩ := Bench.session_foldl_absorb ⟨s.session, {}, s.console⟩ booted.toList
  rw [Array.foldl_toList] at hqueue hfailed
  refine ⟨booted, ⟨_, d, _⟩, b', result, hboot, hqueue, hfailed, hran, ?_⟩
  -- An error marks the session and is reported.
  cases result with
  | ok report =>
    cases hend
    exact congrArg (Session.mk _) (Bool.or_false _).symm
  | error e =>
    cases hend
    exact congrArg (Session.mk _) (Bool.or_true _).symm

end Run

namespace Execution

/-- The module of a script, or why there is none. -/
def module (e : Execution) : Except ShellError Module :=
  Bench.readScript e.before.fileSystem e.file

/-- The entries of the queue that an execution leaves for the next script: those that bootstrapping the domain of an
unread script registers. -/
def stranded (e : Execution) (fuel : Nat) : List TestEntry :=
  if InputKind.ofPath? e.file = some .script then
    match e.module, e.before.bootstrap.run e.before.fileSystem fuel with
    | .error _, some (booted, _) => registrations booted
    | _, _ => []
  else []

/-- What the execution of a script does to the tests, when its domain is `d` after the effects `booted`. -/
structure Tested (fuel : Nat) (e : Execution) (booted : Effects) (d : Domain) : Prop where
  unread : ∀ {cause}, e.module = .error cause →
    e.after.session.queue = e.before.session.queue ++ registrations booted
  read : ∀ {m}, e.module = .ok m →
    e.after.session.queue = [] ∧ ∃ o made d', d.execute fuel .application m = some o ∧
      Makes fuel o.domain made d' ∧
      made.map Invocation.call = (rounds 1 (e.before.session.queue ++ registrations booted ++
        registrations o.effects ++ made.flatMap Invocation.registered)).flatMap Round.calls

variable {fuel : Nat} {e : Execution} {u : Unit}

theorem exists_tested (hscript : InputKind.ofPath? e.file = some .script)
    (h : Run.executeFile fuel e.file e.before = .ok u e.after) :
    ∃ booted d, e.before.bootstrap.run e.before.fileSystem fuel = some (booted, .ok d) ∧ Tested fuel e booted d := by
  rw [Run.executeFile, hscript] at h
  obtain ⟨booted, b, b', result, hboot, hstart, -, hran, hsession⟩ := Run.executeScript_eq_ok h
  have hend : e.after.session.queue = b'.session.queue := by rw [hsession]
  refine ⟨booted, b.domain, hboot, ?_, ?_⟩
  · intro cause hunread
    rw [hend, (Bench.unread_eq hunread hran).1, hstart]
  · intro m hread
    obtain ⟨o, made, ho, hmakes, hcalls, hempty⟩ := Bench.drained_of_read hread hran
    rw [hstart] at hcalls
    exact ⟨hend.trans hempty, o, made, _, ho, hmakes, hcalls⟩

/-- An empty queue stays empty if nothing is left behind. -/
theorem queue_after (h : Run.executeFile fuel e.file e.before = .ok u e.after)
    (hstranded : e.stranded fuel = []) (hqueue : e.before.session.queue = []) : e.after.session.queue = [] := by
  by_cases hscript : InputKind.ofPath? e.file = some .script
  · obtain ⟨booted, d, hboot, htested⟩ := exists_tested hscript h
    rw [stranded, if_pos hscript] at hstranded
    cases hread : e.module with
    | ok m => exact (htested.read hread).1
    | error cause =>
      rw [hread, hboot] at hstranded
      rw [htested.unread hread, hqueue]
      exact hstranded
  · rw [(Run.session_executeFile hscript fuel).of_ok h, hqueue]

end Execution

variable {fuel : Nat} {s : Shell} {files : List String} {e : Execution} {front back : List Execution}

theorem queue_before (h : executionsFrom fuel s files = front ++ e :: back) (hstart : s.session.queue = [])
    (hfront : ∀ x ∈ front, x.stranded fuel = []) : e.before.session.queue = [] := by
  induction front generalizing s files with
  | nil =>
    cases files with
    | nil => cases h
    | cons file files =>
      rw [executionsFrom] at h
      split at h
      · cases h
        exact hstart
      · cases h
  | cons x front ih =>
    cases files with
    | nil => cases h
    | cons file files =>
      rw [executionsFrom] at h
      split at h
      · rename_i hfile
        obtain ⟨rfl, hrest⟩ := List.cons.inj h
        obtain ⟨hfirst, hothers⟩ := List.forall_mem_cons.1 hfront
        exact ih hrest (Execution.queue_after (e := ⟨_, _, _⟩) hfile hfirst hstart) hothers
      · cases h

theorem queue_of_start {options : Options} {console : Console} {fileSystem : Files}
    (h : start options console fileSystem = .ok s) : s.session.queue = [] := by
  unfold start at h
  split at h
  · cases h
  · cases h
    rfl

/-- A script that is read leaves an empty queue, and its tests are invoked in its domain: those that bootstrapping the
domain registers, its own, and those that tests register. A script that is not read leaves the first of these to the
next script; as long as there are none, nobody finds tests of another domain in the queue. Other files do not touch it.
-/
theorem scripts_drain_their_tests {options : Options} {console : Console} {fileSystem : Files} (fuel : Nat)
    (hstart : start options console fileSystem = .ok s) :
    (∀ left verdict, s.run fuel = some (left, .ok verdict) →
      (s.executions fuel).map Execution.file = s.planned) ∧
    ∀ front e back, s.executions fuel = front ++ e :: back →
      ((∀ x ∈ front, x.stranded fuel = []) → e.before.session.queue = []) ∧
      (InputKind.ofPath? e.file ≠ some .script → e.after.session = e.before.session) ∧
      (InputKind.ofPath? e.file = some .script →
        ∃ booted d, e.before.bootstrap.run e.before.fileSystem fuel = some (booted, .ok d) ∧
          e.Tested fuel booted d) := by
  refine ⟨fun _ _ hrun => executions_of_run hrun, fun front e back hexecutions => ?_⟩
  unfold executions at hexecutions
  split at hexecutions
  · rename_i ready hready
    have hqueue : ready.session.queue = [] := by
      rw [(Run.session_prepare s).of_ok hready, queue_of_start hstart]
    obtain ⟨u, hran⟩ := executeFile_of_mem (hexecutions ▸ List.mem_append_right front List.mem_cons_self)
    refine ⟨queue_before hexecutions hqueue, fun hother => ?_, fun hscript => Execution.exists_tested hscript hran⟩
    exact (Run.session_executeFile hother fuel).of_ok hran
  · cases front <;> cases hexecutions

/-- Its initializer registers its first method as a test. -/
def registrar : Module where
  label := ""
  minorVersion := supportedMinor
  majorVersion := supportedMajor
  constants := #[.string "probe", .string "boot", .string "pushUnitTest"]
  methods := #[
    { name := 0, params := 0, locals := 0, code := #[.returnVoid] },
    { name := 1, params := 0, locals := 0, code := #[.getGlobal 2, .newFunction 0, .call 1, .pop, .returnVoid] }]
  definitions := []
  init := 1

/-- Every domain has a test of its own. -/
def registrarFiles : Files where
  entries := [(["b.abc"], .file registrar.encode), (["t.js"], .file ".method m\n.end\n.init m".toUTF8.toList)]
  rooted := true

def registrarOptions (files : List String) : Options where
  flags := [.execute]
  files
  places := [(.builtin, "b.abc")]

/-- The file, what is left behind, and the queues before and after. -/
def Execution.tests (e : Execution) : String × List TestEntry × List TestEntry × List TestEntry :=
  (e.file, e.stranded 20, e.before.session.queue, e.after.session.queue)

def registrarTests (files : List String) : Option (List (String × List TestEntry × List TestEntry × List TestEntry)) :=
  (start (registrarOptions files) {} registrarFiles).toOption.map fun s => (s.executions 20).map Execution.tests

theorem exists_registrar_executions {files : List String}
    {first second : String × List TestEntry × List TestEntry × List TestEntry}
    (h : registrarTests files = some [first, second]) :
    ∃ s e e', start (registrarOptions files) {} registrarFiles = .ok s ∧ s.executions 20 = [e, e'] ∧
      e.tests = first ∧ e'.tests = second := by
  obtain ⟨s, hstart, hexecutions⟩ := Option.map_eq_some_iff.1 h
  obtain ⟨e, rest, hlist, rfl, hrest⟩ := List.map_eq_cons_iff.1 hexecutions
  obtain ⟨e', last, rfl, rfl, hlast⟩ := List.map_eq_cons_iff.1 hrest
  obtain rfl := List.map_eq_nil_iff.1 hlast
  refine ⟨s, e, e', ?_, hlist, rfl, rfl⟩
  cases hresult : start (registrarOptions files) {} registrarFiles with
  | error cause =>
    rw [hresult] at hstart
    cases hstart
  | ok s' =>
    rw [hresult] at hstart
    exact congrArg Except.ok (Option.some.inj hstart)

theorem registrar_drains_tests :
    ∃ s left first second, start (registrarOptions ["t.js", "missing.js"]) {} registrarFiles = .ok s ∧
      s.run 20 = some (left, .ok .testsFailed) ∧ s.executions 20 = [first, second] ∧
      (s.executions 20).map Execution.file = s.planned ∧ second.before.session.queue = [] ∧
      ∃ booted d, second.before.bootstrap.run second.before.fileSystem 20 = some (booted, .ok d) ∧
        second.Tested 20 booted d := by
  have htests : registrarTests ["t.js", "missing.js"] = some [("t.js", [], [], []),
      ("missing.js", [.test "probe" (.function ⟨0, 0⟩)], [], [.test "probe" (.function ⟨0, 0⟩)])] := by
    decide +kernel
  have hverdict : ((start (registrarOptions ["t.js", "missing.js"]) {} registrarFiles).toOption.bind fun s =>
      (s.run 20).map fun ran => ran.2.toOption) = some (some .testsFailed) := by decide +kernel
  obtain ⟨s, first, second, hstart, hexecutions, hfirst, hsecond⟩ := exists_registrar_executions htests
  simp only [Execution.tests, Prod.mk.injEq] at hfirst hsecond
  rw [hstart] at hverdict
  obtain ⟨⟨left, result⟩, hrun, hresult⟩ := Option.map_eq_some_iff.1 hverdict
  cases result with
  | error e => cases hresult
  | ok verdict =>
    obtain rfl := Option.some.inj hresult
    have hscript : InputKind.ofPath? second.file = some .script := by
      rw [hsecond.1]
      decide +kernel
    obtain ⟨hplanned, hscripts⟩ := scripts_drain_their_tests 20 hstart
    obtain ⟨hqueue, -, htested⟩ := hscripts [first] second [] hexecutions
    refine ⟨s, left, first, second, hstart, hrun, hexecutions, hplanned left _ hrun, hqueue ?_, htested hscript⟩
    intro x hx
    obtain rfl := List.mem_singleton.1 hx
    exact hfirst.2.1

/-- The test that is registered for the domain of an unread script is left to the next one. -/
theorem registrar_strands_test :
    ∃ s first second, start (registrarOptions ["missing.js", "t.js"]) {} registrarFiles = .ok s ∧
      s.executions 20 = [first, second] ∧ InputKind.ofPath? first.file = some .script ∧
      first.after.session.queue ≠ [] ∧ second.before.session.queue = first.after.session.queue ∧
      second.after.session.queue = [] := by
  have htests : registrarTests ["missing.js", "t.js"] = some [
      ("missing.js", [.test "probe" (.function ⟨0, 0⟩)], [], [.test "probe" (.function ⟨0, 0⟩)]),
      ("t.js", [], [.test "probe" (.function ⟨0, 0⟩)], [])] := by decide +kernel
  obtain ⟨s, first, second, hstart, hexecutions, hfirst, hsecond⟩ := exists_registrar_executions htests
  simp only [Execution.tests, Prod.mk.injEq] at hfirst hsecond
  obtain ⟨hfile, -, -, hleft⟩ := hfirst
  obtain ⟨-, -, hfound, hdrained⟩ := hsecond
  refine ⟨s, first, second, hstart, hexecutions, ?_, ?_, hfound.trans hleft.symm, hdrained⟩
  · rw [hfile]
    decide +kernel
  · rw [hleft]
    exact List.cons_ne_nil _ _

end MovieVm.Shell
