import MovieVm.Proofs.PlaybackTwins
import MovieVm.Proofs.ShellRuns
import MovieVm.Proofs.UnitTests

/-!
# Shells that show more or less

Options decide what a shell does and what it shows of it. Two shells whose options differ only in what is shown do the
same, on whatever console: every part of a run ends alike in both, and so does the whole run.
-/

namespace MovieVm.Shell

open Bytecode

/-! ## Options -/

/-- The options select the same work. What is shown of it may differ: verbose lines, the silence of porcelain, and the
traces of domains. -/
structure Options.SameWork (w w' : Options) : Prop where
  flags : ∀ flag, flag ≠ .verbose → flag ≠ .porcelain → w'.has flag = w.has flag
  same : w' = { w with flags := w'.flags, writers := w'.writers }

variable {w w' : Options}

theorem Options.SameWork.artifact (h : w.SameWork w') (p : Place) (default : String) :
    w'.artifact p default = w.artifact p default := by
  rw [h.same]
  rfl

theorem Options.SameWork.release (h : w.SameWork w') : w.domainOptions.release = w'.domainOptions.release :=
  (h.flags .release nofun nofun).symm

theorem Options.SameWork.inputs (h : w.SameWork w') : w'.inputs = w.inputs := by
  rw [h.same]
  rfl

/-! ## Benches -/

namespace Bench

variable {o o' : DomainOptions}

/-- The sessions are the same; the consoles do not matter. -/
structure Twins (o o' : DomainOptions) (b b' : Bench) : Prop where
  session : b'.session = b.session
  domain : b.domain.Twins o o' b'.domain

variable {b b' : Bench}

/-- Tests are registered by events of the host. -/
theorem filterMap_entry? {effects effects' : Effects} (h : effects.Twins o o' effects') :
    effects'.toList.filterMap entry? = effects.toList.filterMap entry? := by
  have hevents : ∀ effects : List Effect,
      effects.filterMap entry? = (effects.filter Effect.isHostEvent).filterMap entry? := by
    intro effects
    rw [List.filterMap_filter]
    congr
    funext e
    cases e <;> rfl
  rw [hevents, hevents effects.toList]
  exact congrArg (List.filterMap entry?) h.events

theorem session_eq {s s' : Session} (hqueue : s'.queue = s.queue) (hfailed : s'.everFailed = s.everFailed) :
    s' = s := by
  cases s
  cases s'
  exact congrArg₂ Session.mk hqueue hfailed

theorem session_foldl {effects effects' : Effects} (heffects : effects.Twins o o' effects')
    (hsession : b'.session = b.session) :
    (effects'.foldl absorb b').session = (effects.foldl absorb b).session := by
  obtain ⟨-, hqueue, hfailed⟩ := session_foldl_absorb b effects.toList
  obtain ⟨-, hqueue', hfailed'⟩ := session_foldl_absorb b' effects'.toList
  rw [Array.foldl_toList] at hqueue hfailed hqueue' hfailed'
  apply session_eq
  · rw [hqueue, hqueue', filterMap_entry? heffects, hsession]
  · rw [hfailed, hfailed', hsession]

theorem Twins.takeOver (h : b.Twins o o' b') {x x' : Outcome Value} (hx : x.Twins o o' x') :
    (b.takeOver x).Twins o o' (b'.takeOver x') := by
  obtain ⟨hdomain, -, -⟩ := b.takeOver_eq ⟨"", .undefined, x⟩
  obtain ⟨hdomain', -, -⟩ := b'.takeOver_eq ⟨"", .undefined, x'⟩
  refine ⟨session_foldl hx.effects h.session, ?_⟩
  rw [hdomain, hdomain']
  exact hx.domain

/-- A failure marks the session; what is written about it does not matter. -/
theorem Twins.fail (h : b.Twins o o' b') (line line' : String) (e e' : VmError) :
    (b.markFailed.reportError line e).Twins o o' (b'.markFailed.reportError line' e') :=
  ⟨congrArg Session.markFailed h.session, h.domain⟩

theorem Twins.withSession (h : b.Twins o o' b') (session : Session) (console console' : Console) :
    Twins o o' ⟨session, b.domain, console⟩ ⟨session, b'.domain, console'⟩ :=
  ⟨rfl, h.domain⟩

theorem Twins.withConsole (h : b.Twins o o' b') (console console' : Console) :
    Twins o o' { b with console } { b' with console := console' } :=
  ⟨h.session, h.domain⟩

section

variable (hsame : o.release = o'.release)
include hsame

theorem Twins.invoke (h : b.Twins o o' b') (fuel : Nat) (file name : String) (function : Value) (times : Nat) :
    Option.Rel (fun r r' => r.1.Twins o o' r'.1 ∧ r'.2 = r.2) (invoke fuel file name function times b)
      (invoke fuel file name function times b') := by
  induction times generalizing b b' with
  | zero => exact .some ⟨h, rfl⟩
  | succ times ih =>
    refine rel_bind (h.domain.run hsame fuel (.invoke function [])) fun x x' hx => ?_
    have htaken := h.takeOver hx
    simp only [hx.result]
    cases x.result with
    | ok v => exact ih htaken
    | error e =>
      refine rel_bind (ih (htaken.fail _ _ e e)) ?_
      rintro ⟨c, failures⟩ ⟨c', _⟩ ⟨hc, rfl⟩
      exact .some ⟨hc, rfl⟩

theorem Twins.drain (h : b.Twins o o' b') (fuel : Nat) (file : String) (verbose verbose' : Bool) (steps times : Nat)
    (report : TestReport) :
    Option.Rel (fun r r' => r.1.Twins o o' r'.1 ∧ r'.2 = r.2) (drain fuel file verbose steps times b report)
      (drain fuel file verbose' steps times b' report) := by
  induction steps generalizing b b' times report with
  | zero =>
    unfold Bench.drain
    rw [h.session]
    split
    · exact .some ⟨h, rfl⟩
    · exact .none
  | succ steps ih =>
    unfold Bench.drain
    rw [h.session]
    split
    · exact .some ⟨h, rfl⟩
    · exact ih (h.withSession _ _ _) _ report
    · rename_i name function queue _
      -- The name of the test is written or not.
      refine rel_bind (Twins.invoke hsame ?_ fuel file name function times) ?_
      · split <;> split <;> exact h.withSession _ _ _
      · rintro ⟨c, failures⟩ ⟨c', _⟩ ⟨hc, rfl⟩
        exact ih hc 1 _

theorem Twins.runTests (h : b.Twins o o' b') (fuel : Nat) (file : String) (verbose verbose' : Bool) (time : Double) :
    Option.Rel (fun r r' => r.1.Twins o o' r'.1 ∧ r'.2 = r.2) (b.runTests fuel file verbose time)
      (b'.runTests fuel file verbose' time) := by
  refine rel_bind (h.drain hsame fuel file verbose verbose' fuel 1 {}) ?_
  rintro ⟨c, report⟩ ⟨c', _⟩ ⟨hc, rfl⟩
  exact .some ⟨hc.withConsole _ _, rfl⟩

theorem Twins.executeFile (h : b.Twins o o' b') (fuel : Nat) (fs : Files) (path : String) (verbose verbose' : Bool)
    (time : Double) :
    Option.Rel (fun r r' => r.1.Twins o o' r'.1 ∧ r'.2 = r.2) (b.executeFile fuel fs path verbose time)
      (b'.executeFile fuel fs path verbose' time) := by
  unfold Bench.executeFile
  simp only
  split
  · exact .some ⟨h.withConsole _ _, rfl⟩
  · rename_i m _
    refine rel_bind (h.domain.execute hsame fuel .application m) fun x x' hx => ?_
    have htaken : Twins o o'
        (Bench.takeOver { b with console := b.console.writeLine s!"Running test file: {path} ..." } x)
        (Bench.takeOver { b' with console := b'.console.writeLine s!"Running test file: {path} ..." } x') :=
      (h.withConsole _ _).takeOver hx
    refine rel_bind (Twins.runTests hsame ?_ fuel path verbose verbose' time) ?_
    · rw [hx.result]
      cases x.result with
      | ok v => exact htaken
      | error e => exact htaken.fail _ _ e e
    · rintro ⟨c, report⟩ ⟨c', _⟩ ⟨hc, rfl⟩
      exact .some ⟨hc, rfl⟩

end

end Bench

/-! ## Shells -/

/-- The shells differ in their options and consoles only. -/
structure Twins (w w' : Options) (s s' : Shell) : Prop where
  options : s.options = w
  same : s' = { s with options := w', console := s'.console }

variable {s s' : Shell}

theorem Twins.withConsole (h : s.Twins w w' s') (console console' : Console) :
    Twins w w' { s with console } { s' with console := console' } := by
  obtain ⟨rfl, hsame⟩ := h
  refine ⟨rfl, ?_⟩
  rw [hsame]

/-- The bootstraps differ in what they trace. -/
theorem Twins.bootstrap (h : s.Twins w w' s') (hw : w.SameWork w') :
    s'.bootstrap = { s.bootstrap with options := w'.domainOptions } := by
  obtain ⟨rfl, hsame⟩ := h
  have hshell : w'.has .shell = s.options.has .shell := hw.flags _ nofun nofun
  have hplayer : w'.has .playerGlobal = s.options.has .playerGlobal := hw.flags _ nofun nofun
  rw [hsame]
  simp only [Shell.bootstrap, Shell.loadsCatalog, Options.builtinPath, Options.libraryPath?, Options.catalogPaths,
    hshell, hplayer, hw.artifact]
  rfl

/-- The console is all that an action changes. -/
def Silent (x : ShellRun Unit) : Prop :=
  ∀ s, ∃ console, x s = .ok () { s with console }

namespace Run

/-- Silent actions agree, whatever they write. -/
theorem agree_silent {x x' : ShellRun Unit} (hx : Silent x) (hx' : Silent x') : Agree (Twins w w') Eq x x' := by
  intro s s' hs
  obtain ⟨console, hconsole⟩ := hx s
  obtain ⟨console', hconsole'⟩ := hx' s'
  rw [hconsole, hconsole']
  exact .ok rfl (hs.withConsole console console')

theorem silent_write (f : Console → Console) : Silent (write f) :=
  fun s => ⟨f s.console, rfl⟩

theorem silent_selected {x : ShellRun Unit} (hx : Silent x) (b : Bool) : Silent (selected b x) := by
  cases b with
  | false => exact fun s => ⟨s.console, rfl⟩
  | true => exact hx

theorem agree_write (f f' : Console → Console) : Agree (Twins w w') Eq (write f) (write f') :=
  agree_silent (silent_write f) (silent_write f')

theorem agree_settle {α : Type} {R : α → α → Prop} {x x' : Except ShellError α} (h : AnswersAlike R x x') :
    Agree (Twins w w') R (settle x) (settle x') := by
  cases h with
  | error => exact .throw _
  | ok h => exact .pure h

theorem agree_fueled {α : Type} {R : α → α → Prop} {x x' : Option α} (h : Option.Rel R x x') :
    Agree (Twins w w') R (fueled x) (fueled x') := by
  cases h with
  | none => exact .throw none
  | some h => exact .pure h

theorem agree_readModule (file : String) : Agree (Twins w w') Eq (readModule file) (readModule file) := by
  refine Agree.get.bind fun s s' hs => ?_
  have hfiles : s'.fileSystem = s.fileSystem := by rw [hs.same]
  rw [hfiles]
  split
  · exact .pure rfl
  · split <;> exact .pure rfl

theorem agree_present (effects effects' : Effects) : Agree (Twins w w') Eq (present effects) (present effects') :=
  agree_write _ _

section

variable (hw : w.SameWork w')
include hw

/-- A new domain comes alike, if what is done with the effects of its bootstrap agrees. -/
theorem agree_newDomain (fuel : Nat) {use use' : Effects → ShellRun Unit}
    (huse : ∀ effects effects', effects.Twins w.domainOptions w'.domainOptions effects' →
      Agree (Twins w w') Eq (use effects) (use' effects')) :
    Agree (Twins w w') (Domain.Twins w.domainOptions w'.domainOptions) (newDomain fuel use) (newDomain fuel use') := by
  refine Agree.get.bind fun s s' hs => ?_
  have hboot := hs.bootstrap hw
  have hfiles : s'.fileSystem = s.fileSystem := by rw [hs.same]
  have hruns : Option.Rel (Bootstrap.Boots w.domainOptions w'.domainOptions) (s.bootstrap.run s.fileSystem fuel)
      (s'.bootstrap.run s'.fileSystem fuel) := by
    have hoptions : s.bootstrap.options = w.domainOptions := congrArg Options.domainOptions hs.options
    rw [hboot, hfiles, ← hoptions]
    exact s.bootstrap.rel_run (hoptions ▸ hw.release) s.fileSystem fuel
  refine (agree_fueled hruns).bind ?_
  rintro ⟨effects, result⟩ ⟨effects', result'⟩ ⟨heffects, hresult⟩
  refine (huse _ _ heffects).bind_eq fun _ => (agree_settle (hresult.mapError _)).bind fun d d' hd => ?_
  refine Agree.bind_eq (.modify ?_) fun _ => .pure hd
  intro t t' ht
  refine ⟨ht.options, ?_⟩
  rw [ht.same]

theorem agree_executeScript (fuel : Nat) (file : String) :
    Agree (Twins w w') Eq (executeScript fuel file) (executeScript fuel file) := by
  refine (agree_newDomain hw fuel fun effects effects' heffects => ?_).bind fun d d' hd => ?_
  · refine .modify fun s s' hs => ⟨hs.options, ?_⟩
    have hsession : (⟨s'.session, {}, s'.console⟩ : Bench).session = (⟨s.session, {}, s.console⟩ : Bench).session := by
      rw [hs.same]
    have habsorbed := Bench.session_foldl heffects hsession
    simp only [habsorbed]
    rw [hs.same]
  refine Agree.get.bind fun s s' hs => ?_
  have hfiles : s'.fileSystem = s.fileSystem := by rw [hs.same]
  have hwatch : s'.stopwatch = s.stopwatch := by rw [hs.same]
  have hbench : Bench.Twins w.domainOptions w'.domainOptions ⟨s.session, d, s.console⟩ ⟨s'.session, d', s'.console⟩ :=
    ⟨by rw [hs.same], hd⟩
  have hran := hbench.executeFile hw.release fuel s.fileSystem file (s.options.has .verbose) (s'.options.has .verbose)
    s.stopwatch
  nth_rewrite 2 [← hfiles, ← hwatch] at hran
  refine (agree_fueled hran).bind ?_
  rintro ⟨b, _⟩ ⟨b', result⟩ ⟨hb, rfl⟩
  have hset : Twins w w' { s with session := b.session, console := b.console }
      { s' with session := b'.session, console := b'.console } := by
    have hsession : b'.session = b.session := hb.session
    refine ⟨hs.options, ?_⟩
    rw [hs.same, hsession]
  refine (Agree.set hset).bind_eq fun _ => ?_
  cases result with
  | ok report => exact .pure rfl
  | error e =>
    refine (agree_write _ _).bind_eq fun _ => .modify fun t t' ht => ⟨ht.options, ?_⟩
    rw [ht.same]

theorem agree_executeModule (fuel : Nat) (file : String) :
    Agree (Twins w w') Eq (executeModule fuel file) (executeModule fuel file) := by
  refine (agree_readModule file).bind_eq fun read => ?_
  cases read with
  | error e => exact agree_write _ _
  | ok m =>
    refine (agree_newDomain hw fuel fun effects effects' _ => agree_present effects effects').bind fun d d' hd => ?_
    refine (agree_fueled (hd.execute hw.release fuel .application m)).bind fun x x' hx => ?_
    refine (agree_present _ _).bind_eq fun _ => ?_
    have hresult : AnswersAlike Eq x.result x'.result := hx.result ▸ .refl _
    exact (agree_settle (hresult.mapError _)).bind_eq fun _ => .pure rfl

theorem agree_executeMovie (fuel : Nat) (file : String) :
    Agree (Twins w w') Eq (executeMovie fuel file) (executeMovie fuel file) := by
  refine (agree_newDomain hw fuel fun effects effects' _ => agree_present effects effects').bind fun d d' hd => ?_
  refine Agree.get.bind fun s s' hs => ?_
  have hfiles : s'.fileSystem = s.fileSystem := by rw [hs.same]
  have hschedule : s'.schedule = s.schedule := by rw [hs.same]
  have hlimits : ({ duration := s'.options.duration, count := s'.options.count, elapsed := s'.elapsed } : RunLimits) =
      { duration := s.options.duration, count := s.options.count, elapsed := s.elapsed } := by
    rw [hs.same, hs.options, hw.same]
  have hstage : Player.Stage.Twins w.domainOptions w'.domainOptions { domain := d } { domain := d' } := ⟨d', hd, rfl⟩
  have hloaded := Player.loadFile_twins hstage s.schedule s.fileSystem file
  nth_rewrite 2 [← hfiles, ← hschedule] at hloaded
  generalize Player.loadFile s.schedule { domain := d } s.fileSystem file = r,
    Player.loadFile s'.schedule { domain := d' } s'.fileSystem file = r' at hloaded
  cases hloaded with
  | error => exact agree_write _ _
  | @ok r r' h =>
    obtain ⟨_, _, stage⟩ := r
    obtain ⟨id, schedule, stage'⟩ := r'
    obtain ⟨rfl, rfl, hbegun⟩ := h
    refine (agree_write _ _).bind_eq fun _ => ?_
    simp only [hlimits]
    have hplayback : Player.Playback.Twins w.domainOptions w'.domainOptions { stage } { stage := stage' } :=
      ⟨hbegun, rfl⟩
    refine (agree_fueled (Schedule.rel_run (Player.rel_behaviour hw.release fuel) schedule _ true fuel hplayback)).bind
      fun ran ran' hran => ?_
    refine Agree.bind_eq (.modify fun t t' ht => ⟨ht.options, ?_⟩) fun _ => (agree_write _ _).bind_eq fun _ => ?_
    · rw [ht.same, hran.schedule]
    have hresult : AnswersAlike Eq ran.result ran'.result := hran.result ▸ .refl _
    exact (agree_settle (hresult.mapError _)).bind_eq fun _ => agree_write _ _

theorem agree_executeFile (fuel : Nat) (file : String) :
    Agree (Twins w w') Eq (executeFile fuel file) (executeFile fuel file) := by
  unfold executeFile
  split
  · exact agree_executeScript hw fuel file
  · exact agree_executeModule hw fuel file
  · exact agree_executeMovie hw fuel file
  · exact .pure rfl

end

/-! ## Preparing -/

theorem silent_parse : Silent parse :=
  fun _ => ⟨_, rfl⟩

/-- Writes a file for the mill and describes it. -/
def describeFile (bytes : List UInt8) (path : String) (fs : Files) (c : Console) (writer : Writer) :
    Files × Console × Except ShellError Mill.Milled :=
  match fs.write path bytes with
  | .error fault => (fs, c, .error (.unreadable path fault))
  | .ok fs =>
    let d := ({} : Movie.Loader).load bytes
    match d.result, d.loader.file? with
    | .error fault, _ => (fs, c, .error (.unparsable path (.movie fault)))
    | .ok (), none => (fs, c, .error (.unparsable path (.movie (.incomplete bytes.length bytes.length))))
    | .ok (), some file =>
      let m : Mill.Milled := ⟨file.header, bytes.length, file.tags.toList⟩
      (fs, m.describe path c writer, .ok m)

theorem mill_eq_describeFile (seed : Nat) (path : String) (fs : Files) (c : Console) (writer : Writer) :
    Mill.run seed path fs c writer = describeFile (Mill.draft.run seed).1.encode path fs c writer :=
  rfl

/-- What is written and described does not depend on the console. -/
theorem describeFile_eq (bytes : List UInt8) (path : String) (fs : Files) (c c' : Console) (writer writer' : Writer) :
    (describeFile bytes path fs c writer).1 = (describeFile bytes path fs c' writer').1 ∧
      (describeFile bytes path fs c writer).2.2 = (describeFile bytes path fs c' writer').2.2 := by
  unfold describeFile
  split
  · exact ⟨rfl, rfl⟩
  · simp only
    split <;> exact ⟨rfl, rfl⟩

theorem run_mill_eq (seed : Nat) (path : String) (fs : Files) (c c' : Console) (writer writer' : Writer) :
    (Mill.run seed path fs c writer).1 = (Mill.run seed path fs c' writer').1 ∧
      (Mill.run seed path fs c writer).2.2 = (Mill.run seed path fs c' writer').2.2 := by
  rw [mill_eq_describeFile, mill_eq_describeFile]
  exact describeFile_eq _ path fs c c' writer writer'

theorem agree_mill (path : String) : Agree (Twins w w') Eq (mill path) (mill path) := by
  refine Agree.get_bind fun s s' hs => ?_
  have hseed : s'.seed = s.seed := by rw [hs.same]
  have hfileSystem : s'.fileSystem = s.fileSystem := by rw [hs.same]
  generalize s.console.fork = forked, s'.console.fork = forked'
  obtain ⟨writer, console⟩ := forked
  obtain ⟨writer', console'⟩ := forked'
  have hmilled := run_mill_eq s.seed path s.fileSystem console console' writer writer'
  nth_rewrite 2 [← hseed, ← hfileSystem] at hmilled
  nth_rewrite 3 [← hseed, ← hfileSystem] at hmilled
  simp only
  generalize Mill.run s.seed path s.fileSystem console writer = r,
    Mill.run s'.seed path s'.fileSystem console' writer' = r' at hmilled
  obtain ⟨fs, described, result⟩ := r
  obtain ⟨_, described', _⟩ := r'
  obtain ⟨rfl, rfl⟩ := hmilled
  have hset : Twins w w' { s with fileSystem := fs, console := described }
      { s' with fileSystem := fs, console := described' } := by
    refine ⟨hs.options, ?_⟩
    rw [hs.same]
  exact (Agree.set hset).bind_eq (fun _ => (agree_settle (.refl result)).bind_eq fun _ => .pure rfl) s s' hs

theorem agree_buffers (file : String) : Agree (Twins w w') Eq (buffers file) (buffers file) := by
  unfold buffers
  split
  · refine Agree.get.bind fun s s' hs => ?_
    have hfiles : s'.fileSystem = s.fileSystem := by rw [hs.same]
    rw [hfiles]
    exact (agree_settle (.refl _)).bind_eq fun bytes => .pure rfl
  · refine Agree.get.bind fun s s' hs => ?_
    have hfiles : s'.fileSystem = s.fileSystem := by rw [hs.same]
    rw [hfiles]
    refine (agree_settle (.refl _)).bind_eq fun bytes => Agree.get.bind fun t t' _ => ?_
    have hblocks : (Movie.extract t'.console bytes).1 = (Movie.extract t.console bytes).1 := by
      unfold Movie.extract
      split <;> rfl
    simp only [hblocks]
    exact (agree_write _ _).bind_eq fun _ => .pure rfl
  · exact .pure rfl

theorem agree_compile : Agree (Twins w w') Eq compile compile := by
  refine Agree.get.bind fun s s' hs => ?_
  have hfiles : s'.files = s.files := by rw [hs.same]
  rw [hfiles]
  refine (Agree.mapM agree_buffers s.files).bind_eq fun found => ?_
  refine Agree.bind_eq (.modify fun t t' ht => ⟨ht.options, ?_⟩) fun _ => (agree_settle (.refl _)).bind_eq fun _ => ?_
  · rw [ht.same]
  refine agree_silent ?_ ?_
  all_goals
    intro t
    simp only [EStateM.bind_apply, EStateM.get_apply]
    split
    · exact ⟨_, rfl⟩
    · exact ⟨_, rfl⟩

theorem silent_disassembleFile (file : String) : Silent (disassembleFile file) := by
  intro s
  obtain ⟨read, hread⟩ := exists_readModule s file
  rw [disassembleFile, EStateM.bind_of_ok (hread s.console)]
  cases read with
  | error e => exact ⟨_, rfl⟩
  | ok m => exact ⟨_, rfl⟩

/-! ## A whole run -/

theorem agree_selected {x x' : ShellRun Unit} (h : Agree (Twins w w') Eq x x') (b : Bool) :
    Agree (Twins w w') Eq (selected b x) (selected b x') := by
  cases b with
  | false => exact .pure rfl
  | true => exact h

theorem agree_repeatedly {x x' : ShellRun Unit} (h : Agree (Twins w w') Eq x x') (times : Nat) :
    Agree (Twins w w') Eq (repeatedly x times) (repeatedly x' times) := by
  induction times with
  | zero => exact .pure rfl
  | succ times ih => exact h.bind_eq fun _ => ih

theorem agree_judge : Agree (Twins w w') Eq judge judge := by
  refine Agree.get.bind fun s s' hs => ?_
  have hfailed : s'.session.everFailed = s.session.everFailed := by rw [hs.same]
  rw [hfailed]
  split
  · exact (agree_write _ _).bind_eq fun _ => .pure rfl
  · exact .pure rfl

section

variable (hw : w.SameWork w')
include hw

theorem has_eq (hs : s.Twins w w' s') {flag : Flag} (hverbose : flag ≠ .verbose) (hporcelain : flag ≠ .porcelain) :
    s'.options.has flag = s.options.has flag := by
  rw [hs.same, hs.options]
  exact hw.flags flag hverbose hporcelain

theorem agree_prepare (hs : s.Twins w w' s') : Agree (Twins w w') Eq (prepare s) (prepare s') := by
  have hfuzz : s'.options.place? .fuzz = s.options.place? .fuzz := by
    rw [hs.same, hs.options, hw.same]
    rfl
  have hcompile : s'.options.has .compile = s.options.has .compile := has_eq hw hs nofun nofun
  have hparse : s'.options.has .parse = s.options.has .parse := has_eq hw hs nofun nofun
  unfold prepare
  rw [hfuzz, hcompile, hparse]
  refine (agree_silent (silent_selected (silent_write _) _) (silent_selected (silent_write _) _)).bind_eq fun _ => ?_
  refine Agree.bind_eq ?_ fun _ => (agree_selected agree_compile _).bind_eq fun _ => ?_
  · cases s.options.place? .fuzz with
    | none => exact .pure rfl
    | some path => exact agree_mill path
  · exact agree_selected (agree_silent silent_parse silent_parse) _

theorem agree_handle (fuel : Nat) (hs : s.Twins w w' s') : Agree (Twins w w') Eq (handle fuel s) (handle fuel s') := by
  have hexecute : s'.options.has .execute = s.options.has .execute := has_eq hw hs nofun nofun
  have hdisassemble : s'.options.has .disassemble = s.options.has .disassemble := has_eq hw hs nofun nofun
  have hfiles : s'.files = s.files := by rw [hs.same]
  have htimes : s'.options.repetitions = s.options.repetitions := by
    rw [hs.same, hs.options, hw.same]
  unfold handle
  rw [hexecute, hdisassemble, hfiles, htimes]
  split
  · exact .forM (fun file => agree_repeatedly (agree_executeFile hw fuel file) _) s.files
  · refine agree_selected (.forM (fun file => ?_) _) _
    exact agree_silent (silent_disassembleFile file) (silent_disassembleFile file)

theorem agree_whole (fuel : Nat) : Agree (Twins w w') Eq (whole fuel) (whole fuel) := by
  rw [whole_eq]
  refine Agree.get.bind fun s s' hs => ?_
  exact (agree_prepare hw hs).bind_eq fun _ => (agree_handle hw fuel hs).bind_eq fun _ => agree_judge

end

end Run

/-- Shells that show more or less end their runs alike. -/
theorem Twins.run (h : s.Twins w w' s') (hw : w.SameWork w') (fuel : Nat) :
    (s'.run fuel).map (·.2) = (s.run fuel).map (·.2) := by
  have hwhole := Run.agree_whole hw fuel s s' h
  unfold Shell.run
  generalize Run.whole fuel s = r, Run.whole fuel s' = r' at hwhole
  cases hwhole with
  | ok hverdict => exact congrArg (fun verdict => some (Except.ok verdict)) hverdict.symm
  | @error e =>
    cases e with
    | none => rfl
    | some e => rfl

end MovieVm.Shell
