import MovieVm.Shell.Session

/-!
# Draining the tests of a session

A queue of tests is read once from front to back, with the entries that are registered while it is drained behind
those that were there. What is read says which invocations are made and how often.
-/

namespace MovieVm.Shell

open Bytecode

/-! ## What the entries say -/

/-- A test with the count that holds for it. -/
structure Round where
  times : Nat
  name : String
  function : Value

/-- Reads the entries. A count holds for the next test only, and the last one given counts; without one a test is
run once. -/
def rounds (times : Nat) : List TestEntry → List Round
  | [] => []
  | .repeatNext count :: entries => rounds count entries
  | .test name function :: entries => ⟨times, name, function⟩ :: rounds 1 entries

/-- The calls that a round stands for. -/
def Round.calls (r : Round) : List (String × Value) :=
  List.replicate r.times (r.name, r.function)

/-- The sum of the counts. -/
def totalTimes : List Round → Nat
  | [] => 0
  | r :: rounds => r.times + totalTimes rounds

/-! ## Invocations -/

def entry? : Effect → Option TestEntry
  | .register entry => some entry
  | _ => none

structure Invocation where
  name : String
  function : Value
  outcome : Outcome Value

namespace Invocation

def call (i : Invocation) : String × Value :=
  (i.name, i.function)

def threw (i : Invocation) : Bool :=
  match i.outcome.result with
  | .ok _ => false
  | .error _ => true

/-- The entries that were registered, in their order. -/
def registered (i : Invocation) : List TestEntry :=
  i.outcome.effects.toList.filterMap entry?

end Invocation

/-- The invocations are made one after the other, each in the domain that the one before has left. -/
def Makes (fuel : Nat) : Domain → List Invocation → Domain → Prop
  | d, [], d' => d' = d
  | d, i :: made, d' => d.invoke fuel i.function [] = some i.outcome ∧ Makes fuel i.outcome.domain made d'

theorem Makes.append {fuel : Nat} {d d' d'' : Domain} {first second : List Invocation}
    (h : Makes fuel d first d') (h' : Makes fuel d' second d'') : Makes fuel d (first ++ second) d'' := by
  induction first generalizing d with
  | nil => exact h ▸ h'
  | cons i first ih => exact ⟨h.1, ih h.2⟩

namespace Bench

variable {b b' : Bench} {fuel steps times : Nat} {file name : String} {verbose : Bool} {function : Value}

/-! ## Effects -/

/-- What a session takes over of some effects: the entries that they register. -/
theorem session_foldl_absorb (b : Bench) (effects : List Effect) :
    (effects.foldl absorb b).domain = b.domain ∧
      (effects.foldl absorb b).session.queue = b.session.queue ++ effects.filterMap entry? ∧
      (effects.foldl absorb b).session.everFailed = b.session.everFailed := by
  induction effects generalizing b with
  | nil => exact ⟨rfl, (List.append_nil _).symm, rfl⟩
  | cons effect effects ih =>
    obtain ⟨hdomain, hqueue, hfailed⟩ := ih (b.absorb effect)
    rw [List.foldl_cons, hdomain, hqueue, hfailed]
    cases effect with
    | register entry => exact ⟨rfl, List.append_assoc .., rfl⟩
    | _ => exact ⟨rfl, rfl, rfl⟩

theorem takeOver_eq (b : Bench) (i : Invocation) :
    (b.takeOver i.outcome).domain = i.outcome.domain ∧
      (b.takeOver i.outcome).session.queue = b.session.queue ++ i.registered ∧
      (b.takeOver i.outcome).session.everFailed = b.session.everFailed := by
  rw [takeOver, ← Array.foldl_toList]
  exact session_foldl_absorb _ _

/-! ## Repetitions -/

/-- What invocations leave behind: the domain, the entries that they registered, and whether one of them threw. -/
structure Made (fuel : Nat) (b b' : Bench) (made : List Invocation) : Prop where
  makes : Makes fuel b.domain made b'.domain
  queue : b'.session.queue = b.session.queue ++ made.flatMap Invocation.registered
  everFailed : b'.session.everFailed = (b.session.everFailed || made.any Invocation.threw)

theorem Made.append {first second : List Invocation} {b'' : Bench} (h : Made fuel b b' first)
    (h' : Made fuel b' b'' second) : Made fuel b b'' (first ++ second) where
  makes := h.makes.append h'.makes
  queue := by
    rw [h'.queue, h.queue, List.flatMap_append, List.append_assoc]
  everFailed := by
    rw [h'.everFailed, h.everFailed, List.any_append, Bool.or_assoc]

/-- The first of some invocations, and the bench on which the others are made. -/
theorem invoke_succ {failures : Nat} (h : invoke fuel file name function (times + 1) b = some (b', failures)) :
    ∃ i next more, i.call = (name, function) ∧ Made fuel b next [i] ∧
      invoke fuel file name function times next = some (b', more) ∧ failures = more + i.threw.toNat := by
  obtain ⟨o, ho, h⟩ := Option.bind_eq_some_iff.1 h
  let i : Invocation := ⟨name, function, o⟩
  obtain ⟨hdomain, hqueue, hfailed⟩ := b.takeOver_eq i
  have hregistered : b.session.queue ++ i.registered =
      b.session.queue ++ [i].flatMap Invocation.registered := by
    rw [List.flatMap_singleton]
  cases hresult : o.result with
  | ok v =>
    have hthrew : i.threw = false := by
      rw [Invocation.threw, hresult]
    simp only [hresult] at h
    refine ⟨i, b.takeOver o, failures, rfl, ⟨⟨ho, hdomain⟩, hqueue.trans hregistered, ?_⟩, h, ?_⟩
    · rw [hfailed, List.any_cons, hthrew]
      exact (Bool.or_false _).symm
    · rw [hthrew]
      rfl
  | error e =>
    have hthrew : i.threw = true := by
      rw [Invocation.threw, hresult]
    simp only [hresult] at h
    obtain ⟨⟨last, more⟩, hmore, h⟩ := Option.bind_eq_some_iff.1 h
    obtain ⟨rfl, rfl⟩ := Prod.mk.inj (Option.some.inj h)
    refine ⟨i, _, more, rfl, ?_, hmore, ?_⟩
    · refine ⟨⟨ho, hdomain⟩, hqueue.trans hregistered, ?_⟩
      rw [List.any_cons, hthrew, Bool.true_or, Bool.or_true]
      rfl
    · rw [hthrew]
      rfl

/-- A test is invoked as often as it says, whether it throws or not. -/
theorem exists_made_of_invoke {failures : Nat}
    (h : invoke fuel file name function times b = some (b', failures)) :
    ∃ made, Made fuel b b' made ∧ made.map Invocation.call = List.replicate times (name, function) ∧
      failures = made.countP Invocation.threw := by
  induction times generalizing b failures with
  | zero =>
    obtain ⟨rfl, rfl⟩ := Prod.mk.inj (Option.some.inj h)
    exact ⟨[], ⟨rfl, (List.append_nil _).symm, (Bool.or_false _).symm⟩, rfl, rfl⟩
  | succ times ih =>
    obtain ⟨i, next, more, hcall, hfirst, hnext, rfl⟩ := invoke_succ h
    obtain ⟨made, hmade, hcalls, rfl⟩ := ih hnext
    refine ⟨i :: made, hfirst.append hmade, ?_, ?_⟩
    · rw [List.map_cons, hcall, hcalls, List.replicate_succ]
    · rw [List.countP_cons]
      cases i.threw <;> rfl

/-! ## The drain -/

/-- What draining makes of a bench when `times` holds for the first test: all entries are read, those that are
registered meanwhile too, and what they say is counted. -/
structure Drained (fuel times : Nat) (b b' : Bench) (made : List Invocation) (report report' : TestReport) : Prop where
  makes : Makes fuel b.domain made b'.domain
  calls : made.map Invocation.call =
    (rounds times (b.session.queue ++ made.flatMap Invocation.registered)).flatMap Round.calls
  tests : report'.tests = report.tests +
    totalTimes (rounds times (b.session.queue ++ made.flatMap Invocation.registered))
  failures : report'.failures = report.failures + made.countP Invocation.threw
  queue : b'.session.queue = []
  everFailed : b'.session.everFailed = (b.session.everFailed || made.any Invocation.threw)

/-- An empty queue ends the drain. -/
theorem Drained.nil (h : b.session.queue = []) (report : TestReport) : Drained fuel times b b [] report report where
  makes := rfl
  calls := by
    rw [h]
    rfl
  tests := by
    rw [h]
    rfl
  failures := rfl
  queue := h
  everFailed := (Bool.or_false _).symm

/-- A count replaces the one that held before. -/
theorem Drained.count {count : Nat} {queue : List TestEntry} {made : List Invocation} {report report' : TestReport}
    (hqueue : b.session.queue = .repeatNext count :: queue)
    (h : Drained fuel count { b with session := { b.session with queue } } b' made report report') :
    Drained fuel times b b' made report report' where
  makes := h.makes
  calls := by
    rw [hqueue]
    exact h.calls
  tests := by
    rw [hqueue]
    exact h.tests
  failures := h.failures
  queue := h.queue
  everFailed := h.everFailed

/-- A test is invoked, and what it registers stands behind the rest of the queue. -/
theorem Drained.test {queue : List TestEntry} {first made : List Invocation} {report report' : TestReport}
    {announced next : Bench} (hqueue : b.session.queue = .test name function :: queue)
    (hannounced : announced.domain = b.domain ∧ announced.session = { b.session with queue })
    (hfirst : Made fuel announced next first)
    (hcalls : first.map Invocation.call = List.replicate times (name, function))
    (h : Drained fuel 1 next b' made
      ⟨report.tests + times, report.failures + first.countP Invocation.threw⟩ report') :
    Drained fuel times b b' (first ++ made) report report' := by
  obtain ⟨hdomain, hsession⟩ := hannounced
  have hentries : b.session.queue ++ (first ++ made).flatMap Invocation.registered =
      .test name function :: (next.session.queue ++ made.flatMap Invocation.registered) := by
    rw [hqueue, hfirst.queue, hsession, List.flatMap_append, List.cons_append, List.append_assoc]
  refine ⟨hdomain ▸ hfirst.makes.append h.makes, ?_, ?_, ?_, h.queue, ?_⟩
  · rw [hentries, rounds, List.flatMap_cons, List.map_append, hcalls, h.calls]
    rfl
  · rw [hentries, rounds, totalTimes, h.tests, Nat.add_assoc]
  · rw [h.failures, List.countP_append, Nat.add_assoc]
  · rw [h.everFailed, hfirst.everFailed, hsession, List.any_append, Bool.or_assoc]

theorem exists_drained {report report' : TestReport}
    (h : drain fuel file verbose steps times b report = some (b', report')) :
    ∃ made, Drained fuel times b b' made report report' := by
  induction steps generalizing times b report with
  | zero =>
    rw [drain] at h
    split at h
    · rename_i hempty
      obtain ⟨rfl, rfl⟩ := Prod.mk.inj (Option.some.inj h)
      exact ⟨[], .nil (List.isEmpty_iff.1 hempty) report⟩
    · cases h
  | succ steps ih =>
    rw [drain] at h
    split at h
    · rename_i hqueue
      obtain ⟨rfl, rfl⟩ := Prod.mk.inj (Option.some.inj h)
      exact ⟨[], .nil hqueue report⟩
    · rename_i count queue hqueue
      obtain ⟨made, hmade⟩ := ih h
      exact ⟨made, hmade.count hqueue⟩
    · rename_i name function queue hqueue
      obtain ⟨⟨next, failures⟩, hinvoke, h⟩ := Option.bind_eq_some_iff.1 h
      obtain ⟨first, hfirst, hcalls, rfl⟩ := exists_made_of_invoke hinvoke
      obtain ⟨made, hmade⟩ := ih h
      refine ⟨first ++ made, .test hqueue ?_ hfirst hcalls hmade⟩
      -- Announcing a test writes a line and nothing else.
      split <;> exact ⟨rfl, rfl⟩

/-- Whatever the tests do, if all of them end then the entries of the queue, with those that the invocations
register behind them, say which invocations are made and how often; the report counts them and those that threw,
nothing is left in the queue, and the session has failed if it had before or if an invocation threw. -/
theorem runTests_reads_entries {time : Double} {report : TestReport}
    (hrun : b.runTests fuel file verbose time = some (b', report)) :
    ∃ made entries, Makes fuel b.domain made b'.domain ∧
      entries = b.session.queue ++ made.flatMap Invocation.registered ∧
      made.map Invocation.call = (rounds 1 entries).flatMap Round.calls ∧
      report.tests = totalTimes (rounds 1 entries) ∧
      report.failures = made.countP Invocation.threw ∧
      b'.session.queue = [] ∧
      b'.session.everFailed = (b.session.everFailed || made.any Invocation.threw) := by
  obtain ⟨⟨last, counted⟩, hdrain, hrun⟩ := Option.bind_eq_some_iff.1 hrun
  obtain ⟨rfl, rfl⟩ := Prod.mk.inj (Option.some.inj hrun)
  obtain ⟨made, h⟩ := exists_drained hdrain
  refine ⟨made, _, h.makes, rfl, h.calls, ?_, ?_, h.queue, h.everFailed⟩
  · exact h.tests.trans (Nat.zero_add _)
  · exact h.failures.trans (Nat.zero_add _)

/-- A script whose first test registers its second one, which throws. -/
def scriptModule : Module where
  label := "t"
  minorVersion := supportedMinor
  majorVersion := supportedMajor
  constants := #[.string "registers", .string "throws", .string "pushUnitTest", .string "boom"]
  methods := #[
    { name := 0, params := 0, locals := 0, code := #[.getGlobal 2, .newFunction 1, .call 1, .returnValue] },
    { name := 1, params := 0, locals := 0, code := #[.pushString 3, .throw] }]
  definitions := []
  init := 0

/-- The second count replaces the first, and the test in the middle is skipped. -/
def scriptBench : Bench where
  session := { queue := [.repeatNext 5, .repeatNext 2, .test "registers" (.function ⟨0, 0⟩), .repeatNext 0,
    .test "throws" (.function ⟨0, 1⟩), .test "trace" (.native "trace"), .repeatNext 3] }
  domain := { Domain.install {} with modules := #[⟨scriptModule, .application⟩] }
  console := {}

theorem scriptBench_reads_entries :
    ∃ b report, scriptBench.runTests 20 "t.js" false .zero = some (b, report) ∧ report = ⟨7, 4⟩ ∧
      ∃ made entries, Makes 20 scriptBench.domain made b.domain ∧
        entries = scriptBench.session.queue ++ made.flatMap Invocation.registered ∧
        made.map Invocation.call = (rounds 1 entries).flatMap Round.calls ∧
        report.tests = totalTimes (rounds 1 entries) ∧
        report.failures = made.countP Invocation.threw ∧
        b.session.queue = [] ∧
        b.session.everFailed = (scriptBench.session.everFailed || made.any Invocation.threw) := by
  have hcounts : (scriptBench.runTests 20 "t.js" false .zero).map (·.2) = some ⟨7, 4⟩ := by decide +kernel
  obtain ⟨⟨b, report⟩, hrun, hreport⟩ := Option.map_eq_some_iff.1 hcounts
  obtain rfl : report = ⟨7, 4⟩ := hreport
  exact ⟨b, _, hrun, rfl, runTests_reads_entries hrun⟩

end Bench

end MovieVm.Shell
