import MovieVm.Proofs.Success
import MovieVm.Shell.Basic

/-!
# The executions of a shell

A run of a shell prepares, then executes or disassembles its files, and gives its verdict. The executions that it gets
through can be listed, each with the shell before it and after it. Only those of scripts change the session.
-/

namespace MovieVm.Shell

open Bytecode

/-! ## What an action leaves alone -/

/-- The shell after an action, whether it ends well or not. -/
def ShellRun.left (x : ShellRun α) (s : Shell) : Shell :=
  match x s with
  | .ok _ s' => s'
  | .error _ s' => s'

/-- An action after which something about the shell is as it was. -/
def Keeps (of : Shell → β) (x : ShellRun α) : Prop :=
  ∀ s, of (x.left s) = of s

namespace Keeps

variable {of : Shell → δ} {x : ShellRun α} {s s' : Shell} {a : α}

theorem of_ok (h : Keeps of x) (hx : x s = .ok a s') : of s' = of s := by
  have hkept := h s
  rwa [ShellRun.left, hx] at hkept

theorem pure (a : α) : Keeps of (Pure.pure a : ShellRun α) :=
  fun _ => rfl

theorem throw (e : Option ShellError) : Keeps of (MonadExcept.throw e : ShellRun α) :=
  fun _ => rfl

theorem bind {f : α → ShellRun β} (hx : Keeps of x) (hf : ∀ a, Keeps of (f a)) : Keeps of (x >>= f) := by
  intro s
  have hfirst := hx s
  simp only [ShellRun.left, EStateM.bind_apply] at hfirst ⊢
  cases hstep : x s with
  | error e s' =>
    rw [hstep] at hfirst
    exact hfirst
  | ok a s' =>
    rw [hstep] at hfirst
    exact (hf a s').trans hfirst

/-- An action that looks at the shell first. -/
theorem get_bind {f : Shell → ShellRun α} (h : ∀ s, of ((f s).left s) = of s) : Keeps of (get >>= f) :=
  h

theorem get : Keeps of (MonadState.get : ShellRun Shell) :=
  fun _ => rfl

theorem modify {f : Shell → Shell} (h : ∀ s, of (f s) = of s) : Keeps of (modify f : ShellRun Unit) :=
  h

theorem ite {p : Prop} [Decidable p] {y : ShellRun α} (hx : Keeps of x) (hy : Keeps of y) :
    Keeps of (if p then x else y) := by
  split
  · exact hx
  · exact hy

theorem forM {f : α → ShellRun Unit} (h : ∀ a, Keeps of (f a)) (items : List α) : Keeps of (items.forM f) := by
  induction items with
  | nil => exact pure ()
  | cons a items ih => exact (h a).bind fun _ => ih

theorem mapM {f : α → ShellRun β} (h : ∀ a, Keeps of (f a)) (items : List α) : Keeps of (items.mapM f) := by
  induction items with
  | nil => exact pure []
  | cons a items ih =>
    rw [List.mapM_cons]
    exact (h a).bind fun b => ih.bind fun bs => pure (b :: bs)

end Keeps

namespace Run

theorem keeps_settle {of : Shell → δ} (x : Except ShellError α) : Keeps of (settle x) := by
  cases x with
  | ok a => exact .pure a
  | error e => exact .throw (some e)

theorem keeps_fueled {of : Shell → δ} (x : Option α) : Keeps of (fueled x) := by
  cases x with
  | some a => exact .pure a
  | none => exact .throw none

/-- What does not look at the console is kept when something is written. -/
theorem keeps_write {of : Shell → δ} (h : ∀ s console, of { s with console } = of s) (f : Console → Console) :
    Keeps of (write f) :=
  .modify fun s => h s _

/-! ## Actions that keep the session -/

theorem session_write (f : Console → Console) : Keeps Shell.session (write f) :=
  keeps_write (fun _ _ => rfl) f

theorem session_report (e : ShellError) : Keeps Shell.session (report e) :=
  session_write _

theorem session_present (effects : Effects) : Keeps Shell.session (present effects) :=
  session_write _

theorem session_newDomain {fuel : Nat} {use : Effects → ShellRun Unit}
    (huse : ∀ effects, Keeps Shell.session (use effects)) : Keeps Shell.session (newDomain fuel use) := by
  refine Keeps.get.bind fun s => (keeps_fueled _).bind fun booted => ?_
  refine (huse booted.1).bind fun _ => (keeps_settle _).bind fun d => Keeps.bind ?_ fun _ => .pure d
  exact fun _ => rfl

theorem session_buffers (file : String) : Keeps Shell.session (buffers file) := by
  unfold buffers
  split
  · exact Keeps.get.bind fun s => (keeps_settle _).bind fun bytes => .pure _
  · exact Keeps.get.bind fun s => (keeps_settle _).bind fun bytes => Keeps.get.bind fun s' =>
      (session_write _).bind fun _ => .pure _
  · exact .pure []

theorem session_compile : Keeps Shell.session compile := by
  refine Keeps.get.bind fun s => (Keeps.mapM session_buffers s.files).bind fun found => Keeps.bind ?_ fun _ => ?_
  · exact fun _ => rfl
  refine (keeps_settle _).bind fun _ => Keeps.get.bind fun s' => .ite ((session_write _).bind fun _ => ?_) ?_
  all_goals exact Keeps.get.bind fun _ => session_write _

theorem session_parse : Keeps Shell.session parse :=
  Keeps.get.bind fun _ => session_write _

theorem session_mill (path : String) : Keeps Shell.session (mill path) := by
  unfold mill
  refine Keeps.get_bind fun s => ?_
  split
  split
  rename_i result _
  cases result <;> rfl

theorem session_readModule (file : String) : Keeps Shell.session (readModule file) := by
  refine Keeps.get.bind fun s => ?_
  split
  · exact .pure _
  · split <;> exact .pure _

/-- What is read of a file does not depend on the console. -/
theorem exists_readModule (s : Shell) (file : String) :
    ∃ read, ∀ console, readModule file { s with console } = .ok read { s with console } := by
  simp only [readModule, EStateM.bind_apply, EStateM.get_apply]
  cases Analysis.readFile s.fileSystem file with
  | error e => exact ⟨_, fun _ => rfl⟩
  | ok bytes =>
    dsimp only
    cases Module.decode bytes file with
    | error cause => exact ⟨_, fun _ => rfl⟩
    | ok m => exact ⟨_, fun _ => rfl⟩

theorem session_executeModule (fuel : Nat) (file : String) : Keeps Shell.session (executeModule fuel file) := by
  refine (session_readModule file).bind fun read => ?_
  split
  · exact session_report _
  · refine (session_newDomain session_present).bind fun d => (keeps_fueled _).bind fun o => ?_
    exact (session_present _).bind fun _ => (keeps_settle _).bind fun _ => .pure ()

theorem session_executeMovie (fuel : Nat) (file : String) : Keeps Shell.session (executeMovie fuel file) := by
  refine (session_newDomain session_present).bind fun d => Keeps.get.bind fun s => ?_
  split
  · exact session_report _
  · refine (session_write _).bind fun _ => (keeps_fueled _).bind fun ran => ?_
    refine Keeps.bind ?_ fun _ => (session_write _).bind fun _ => (keeps_settle _).bind fun summary => session_write _
    exact fun _ => rfl

/-- Only scripts change the session. -/
theorem session_executeFile {file : String} (h : InputKind.ofPath? file ≠ some .script) (fuel : Nat) :
    Keeps Shell.session (executeFile fuel file) := by
  unfold executeFile
  split
  · exact absurd ‹_› h
  · exact session_executeModule fuel file
  · exact session_executeMovie fuel file
  · exact .pure ()

/-! ## The parts of a run -/

/-- Does what is selected. -/
def selected (b : Bool) (x : ShellRun Unit) : ShellRun Unit :=
  if b then x else pure ()

theorem selected_bind (b : Bool) (x : ShellRun Unit) (f : Unit → ShellRun α) :
    selected b x >>= f = if b then x >>= f else f () := by
  cases b <;> rfl

def fuzz : Option String → ShellRun Unit
  | some path => mill path
  | none => pure ()

/-- What a run does before it executes or disassembles. -/
def prepare (s : Shell) : ShellRun Unit := do
  selected (s.options.has .verbose) (write s.options.trace)
  fuzz (s.options.place? .fuzz)
  selected (s.options.has .compile) compile
  selected (s.options.has .parse) parse

/-- What a run executes or disassembles. -/
def handle (fuel : Nat) (s : Shell) : ShellRun Unit :=
  if s.options.has .execute then
    s.files.forM fun file => repeatedly (executeFile fuel file) s.options.repetitions
  else
    selected (s.options.has .disassemble) (disassemble s.files)

def judge : ShellRun Verdict := do
  if (← get).session.everFailed then
    write (·.errorLine "Some unit tests failed")
    return .testsFailed
  return .passed

theorem handle_bind (fuel : Nat) (s : Shell) (f : Unit → ShellRun α) :
    handle fuel s >>= f =
      if s.options.has .execute then
        (s.files.forM fun file => repeatedly (executeFile fuel file) s.options.repetitions) >>= f
      else if s.options.has .disassemble then disassemble s.files >>= f
      else f () := by
  unfold handle
  split
  · rfl
  · exact selected_bind ..

theorem whole_eq (fuel : Nat) :
    whole fuel = (get >>= fun s => prepare s >>= fun _ => handle fuel s >>= fun _ => judge) := by
  refine congrArg (MonadState.get >>= ·) (funext fun s => ?_)
  simp only [prepare, bind_assoc]
  simp only [selected_bind, handle_bind]
  cases s.options.place? .fuzz <;> rfl

theorem session_selected {x : ShellRun Unit} (h : Keeps Shell.session x) (b : Bool) :
    Keeps Shell.session (selected b x) :=
  .ite h (.pure ())

theorem session_prepare (s : Shell) : Keeps Shell.session (prepare s) := by
  have hfuzz : ∀ path?, Keeps Shell.session (fuzz path?)
    | some path => session_mill path
    | none => .pure ()
  refine (session_selected (session_write _) _).bind fun _ => (hfuzz _).bind fun _ => ?_
  exact (session_selected session_compile _).bind fun _ => session_selected session_parse _

theorem repeatedly_eq (fuel : Nat) (file : String) (times : Nat) :
    repeatedly (executeFile fuel file) times = (List.replicate times file).forM (executeFile fuel) := by
  induction times with
  | zero => rfl
  | succ times ih => exact congrArg (executeFile fuel file >>= ·) (funext fun _ => ih)

end Run

/-! ## The executions -/

/-- The files that a run executes, in their order. -/
def planned (s : Shell) : List String :=
  if s.options.has .execute then s.files.flatMap (List.replicate s.options.repetitions ·) else []

/-- An execution that does not end the run. -/
structure Execution where
  file : String
  before : Shell
  after : Shell

/-- Executes files until one of them ends the run. -/
def executionsFrom (fuel : Nat) (s : Shell) : List String → List Execution
  | [] => []
  | file :: files =>
    match Run.executeFile fuel file s with
    | .ok _ s' => ⟨file, s, s'⟩ :: executionsFrom fuel s' files
    | .error _ _ => []

/-- The executions of a run. -/
def executions (s : Shell) (fuel : Nat) : List Execution :=
  match Run.prepare s s with
  | .ok _ s' => executionsFrom fuel s' s.planned
  | .error _ _ => []

variable {fuel : Nat} {s s' : Shell} {files : List String} {e : Execution}

theorem handle_eq (h : s.options.has .execute) : Run.handle fuel s = s.planned.forM (Run.executeFile fuel) := by
  have hflatten : ∀ files : List String,
      (files.forM fun file => Run.repeatedly (Run.executeFile fuel file) s.options.repetitions) =
        (files.flatMap (List.replicate s.options.repetitions ·)).forM (Run.executeFile fuel) := by
    intro files
    induction files with
    | nil => rfl
    | cons file files ih =>
      rw [List.flatMap_cons, List.forM_eq_forM, List.forM_append, List.forM_cons, Run.repeatedly_eq]
      rw [List.forM_eq_forM] at ih ⊢
      rw [ih]
  rw [Run.handle, if_pos h, planned, if_pos h, hflatten]

theorem executionsFrom_of_ok {u : Unit} (h : files.forM (Run.executeFile fuel) s = .ok u s') :
    (executionsFrom fuel s files).map Execution.file = files := by
  induction files generalizing s with
  | nil => rfl
  | cons file files ih =>
    obtain ⟨_, next, hfile, hfiles⟩ := EStateM.bind_eq_ok.1 h
    rw [executionsFrom, hfile]
    exact congrArg (file :: ·) (ih hfiles)

theorem whole_of_run {verdict : Verdict} (h : s.run fuel = some (s', .ok verdict)) :
    Run.whole fuel s = .ok verdict s' := by
  unfold run at h
  split at h <;> cases h
  assumption

/-- A run that does not fail has executed all that it plans. -/
theorem executions_of_run {verdict : Verdict} (h : s.run fuel = some (s', .ok verdict)) :
    (s.executions fuel).map Execution.file = s.planned := by
  have hwhole := whole_of_run h
  rw [Run.whole_eq] at hwhole
  obtain ⟨_, _, hget, hwhole⟩ := EStateM.bind_eq_ok.1 hwhole
  obtain ⟨rfl, rfl⟩ := EStateM.get_eq_ok.1 hget
  obtain ⟨_, ready, hprepare, hwhole⟩ := EStateM.bind_eq_ok.1 hwhole
  obtain ⟨_, handled, hhandle, -⟩ := EStateM.bind_eq_ok.1 hwhole
  rw [executions, hprepare]
  by_cases hexecute : s.options.has .execute
  · rw [handle_eq hexecute] at hhandle
    exact executionsFrom_of_ok hhandle
  · rw [planned, if_neg hexecute]
    rfl

/-- Every execution of the list is one of its file. -/
theorem executeFile_of_mem (h : e ∈ executionsFrom fuel s files) :
    ∃ u, Run.executeFile fuel e.file e.before = .ok u e.after := by
  induction files generalizing s with
  | nil => cases h
  | cons file files ih =>
    rw [executionsFrom] at h
    split at h
    · rename_i u next hfile
      obtain rfl | h := List.mem_cons.1 h
      · exact ⟨u, hfile⟩
      · exact ih h
    · cases h

end MovieVm.Shell
