import MovieVm.Proofs.Frames
import MovieVm.Proofs.StackDepth

/-!
# Runs of verified methods

The frame of a verified method stands, whenever it fetches an instruction, at the depth that verification
found for it. This holds at any depth of calls, over any suspended frames and in any state of the domain, so
nothing that the frame itself does can fail but a throw.
-/

namespace MovieVm

open Bytecode Verifier

/-- A module whose references and methods pass their checks. -/
structure Bytecode.Module.Verified (m : Module) : Prop where
  references : m.checkReferences = .ok ()
  methods : m.verify = .ok ()

/-- What the checks of a module establish for one of its methods, surveyed as `s`. -/
structure Bytecode.Certified (module : Module) (method : Method) (s : Survey) : Prop where
  resolves : ∀ i ∈ method.code, module.Resolves i
  slot : ∀ i ∈ method.code, ∀ slot, i.local? = some slot → slot < method.locals
  flows : Flows method.code s []
  start : s.DepthAt 0 0
  locals : method.locals ≤ maxLocals

theorem Bytecode.Module.Verified.certified {module : Module} (h : module.Verified) {method : Method}
    (hmethod : method ∈ module.methods) :
    ∃ s, survey method = .ok s ∧ Certified module method s ∧
      ∀ name, method.verify name = .ok s.deepest := by
  obtain ⟨deepest, hcheck⟩ := Module.verify_eq_ok h.methods hmethod
  obtain ⟨_, hlocals, hslots, s, hsurvey, rfl⟩ := Verifier.checkMethod_eq_ok hcheck
  obtain ⟨hflows, hstart⟩ := survey_flows hsurvey
  refine ⟨s, hsurvey, ?_, fun name => Method.verify_eq_ok.2 hcheck⟩
  exact {
    resolves := (Module.checkReferences_eq_ok.1 h.references).code method hmethod
    slot := hslots
    flows := hflows
    start := hstart
    locals := hlocals }

/-! ## Activations -/

/-- An activation of a certified method that has the right depth once it receives the `owed` values that it
waits for. -/
structure Activation.Keeps (a : Activation) (module : Module) (function : FunctionRef) (method : Method)
    (s : Survey) (owed : Nat) : Prop where
  sameModule : a.module = module
  sameFunction : a.function = function
  sameMethod : a.method = method
  locals : a.locals.size = method.locals
  depth : s.DepthAt a.next (a.stack.length + owed)

section

variable {module : Module} {function : FunctionRef} {method : Method} {s : Survey}
variable {a a' : Activation} {i : Instruction}

theorem Activation.size_initialLocals (method : Method) (args : List Value) :
    (initialLocals method args).size = method.locals := by
  -- There may be more arguments than locals; then some of them are cut off.
  have hle : ((args.take method.params).take method.locals).length ≤ method.locals := by
    simp only [List.length_take]
    omega
  simp only [initialLocals, List.size_toArray, List.length_append, List.length_replicate]
  omega

theorem Activation.enter_eq (hmethod : module.method function.method = .ok method)
    (hlocals : method.locals ≤ maxLocals) (args : List Value) :
    enter module function args =
      .ok { module, function, method, locals := initialLocals method args } := by
  simp [enter, hmethod, Nat.not_lt.2 hlocals]

variable (hc : Certified module method s)

include hc

/-- A frame that waits for nothing finds its next instruction, and whatever that instruction needs. -/
theorem Activation.Keeps.next_instruction (h : a.Keeps module function method s 0) :
    ∃ i, method.code[a.next]? = some i ∧ a.stack.length ≤ s.deepest ∧
      ({ a with next := a.next + 1 } : Activation).Meets i := by
  obtain ⟨i, hi, hpops, hdeep, _⟩ := hc.flows.effect _ _ h.depth
  have hmem : i ∈ method.code := Array.mem_of_getElem? hi
  refine ⟨i, hi, hdeep, hpops, ?_, fun slot hslot => ?_⟩
  · rw [h.sameModule]
    exact hc.resolves i hmem
  · rw [h.locals]
    exact hc.slot i hmem slot hslot

/-- An instruction leaves the activation at the depth of the one that follows. -/
theorem Activation.Keeps.execute (h : a.Keeps module function method s 0)
    (hi : method.code[a.next]? = some i) {request : Request}
    (hexecute : Activation.execute i { a with next := a.next + 1 } = .ok request a')
    (hfinish : ¬ request.IsFinish) : a'.Keeps module function method s request.owed := by
  obtain ⟨j, hj, _, hmeets⟩ := h.next_instruction hc
  obtain rfl : i = j := by simpa [hi] using hj
  -- The instruction was carried out, so it is not the throw, which fails.
  rcases Activation.execute_of_meets rfl hmeets with ⟨_, _, hok, heffect⟩ | ⟨_, _, _, _, herror⟩
  · rw [hexecute] at hok
    obtain ⟨rfl, rfl⟩ := EStateM.Result.ok.inj hok
    rcases heffect.next with hfinish' | hnext
    · exact absurd hfinish' hfinish
    · exact {
        sameModule := heffect.module.trans h.sameModule
        sameFunction := heffect.function.trans h.sameFunction
        sameMethod := heffect.method.trans h.sameMethod
        locals := heffect.locals.trans h.locals
        depth := heffect.depth ▸ hc.flows.successor h.depth hi hnext }
  · rw [hexecute] at herror
    cases herror

omit hc in
theorem Activation.Keeps.receive (h : a.Keeps module function method s 1) (v : Value) :
    ({ a with stack := v :: a.stack } : Activation).Keeps module function method s 0 :=
  { h with }

/-! ## Frames -/

/-- Among the frames stands one of the method, right above the frames `below`; it waits for a value while
others stand above it. -/
def Holds (module : Module) (function : FunctionRef) (method : Method) (s : Survey)
    (below frames : List Frame) : Prop :=
  ∃ above f, frames = above ++ f :: below ∧
    f.activation.Keeps module function method s (if above = [] then 0 else 1)

variable {below rest : List Frame} {f : Frame} {m' : Machine}

omit hc in
/-- A value that a frame receives belongs to the frame of the method when no other stands above it. -/
theorem Holds.receive {above : List Frame} {g : Frame} (v : Value)
    (hframes : g :: rest = above ++ f :: below) (hkeeps : f.activation.Keeps module function method s 1) :
    Holds module function method s below (g.receive v :: rest) := by
  cases above with
  | nil =>
    obtain ⟨rfl, rfl⟩ := List.cons.inj hframes
    exact ⟨[], g.receive v, rfl, hkeeps.receive v⟩
  | cons t above =>
    obtain ⟨rfl, rfl⟩ := List.cons.inj hframes
    exact ⟨g.receive v :: above, f, rfl, hkeeps⟩

omit hc in
theorem Holds.serves (above : List Frame) (hserves : Machine.Serves rest m')
    (hframes : rest = above ++ f :: below) (hkeeps : f.activation.Keeps module function method s 1) :
    Holds module function method s below m'.frames := by
  cases hserves with
  | answered g lower v h hafter =>
    rw [hafter]
    exact .receive v (h ▸ hframes) hkeeps
  | entered g _ hafter => exact ⟨g :: above, f, by simp [hafter, hframes], hkeeps⟩

/-- A step keeps the frame of the method at its depth, until that frame is done. -/
theorem Holds.step (h : Holds module function method s below (f :: rest))
    (hstep : Machine.Stepped f rest m') (hheight : below.length < m'.frames.length) :
    Holds module function method s below m'.frames := by
  obtain ⟨above, g, hframes, hkeeps⟩ := h
  -- Either the frame of the method is the one that runs, or it waits below the one that does.
  cases above with
  | nil =>
    obtain ⟨rfl, rfl⟩ := List.cons.inj hframes
    cases hstep with
    | advanced i request a hfetch hexecute howed hfinish hafter =>
      have hkeeps' := hkeeps.execute hc (hkeeps.sameMethod ▸ hfetch) hexecute hfinish
      exact ⟨[], { f with activation := a }, hafter, howed ▸ hkeeps'⟩
    | served i request a hfetch hexecute howed hfinish hserves =>
      have hkeeps' := hkeeps.execute hc (hkeeps.sameMethod ▸ hfetch) hexecute hfinish
      exact .serves [] hserves rfl (howed ▸ hkeeps')
    | returned g lower v hrest hafter =>
      -- The frame of the method is done, which the height excludes.
      simp [hrest, hafter] at hheight
  | cons t above =>
    obtain ⟨rfl, rfl⟩ := List.cons.inj hframes
    cases hstep with
    | advanced i request a hfetch hexecute howed hfinish hafter =>
      exact ⟨{ f with activation := a } :: above, g, hafter, hkeeps⟩
    | served i request a hfetch hexecute howed hfinish hserves =>
      exact .serves ({ f with activation := a } :: above) hserves rfl hkeeps
    | returned r lower v hrest hafter =>
      rw [hafter]
      exact .receive v hrest.symm hkeeps

end

/-! ## Runs -/

/-- A machine gets from one state to another in any number of steps, with more than `height` frames all
the way. -/
inductive Machine.Reaches (height : Nat) : Machine → Machine → Prop where
  | refl (m : Machine) : Reaches height m m
  | step {m m' m'' : Machine} (h : Reaches height m m') (hstep : m'.step = .running m'')
    (hheight : height < m''.frames.length) : Reaches height m m''

theorem Machine.Reaches.holds {module : Module} {function : FunctionRef} {method : Method} {s : Survey}
    (hc : Certified module method s) {below : List Frame} {m m' : Machine}
    (hreaches : Machine.Reaches below.length m m')
    (h : Holds module function method s below m.frames) :
    Holds module function method s below m'.frames := by
  -- Every state on the way has more frames than those below, so the frame of the method stands.
  induction hreaches with
  | refl => exact h
  | @step m' m'' _ hstep hheight ih =>
    cases hframes : m'.frames with
    | nil =>
      obtain ⟨above, f, hholds, _⟩ := ih
      simp [hframes] at hholds
    | cons f rest => exact (hframes ▸ ih).step hc (Machine.step_running hframes hstep) hheight

/-- The activation is about to fetch an instruction, at the depth that the survey assigns to it. It finds
one, and only a throw keeps it from being carried out. -/
structure Activation.FetchesAsSurveyed (a : Activation) (s : Survey) : Prop where
  depth : s.DepthAt a.next a.stack.length
  bounded : a.stack.length ≤ s.deepest
  executes : ∃ i fetched, fetch a = .ok (some i) fetched ∧ a.method.code[a.next]? = some i ∧
    ((∃ request a', execute i fetched = .ok request a') ∨
      i = .throw ∧ ∃ (v : Value) (a' : Activation), execute i fetched = .error { kind := .error, message := v.text } a')

theorem Activation.Keeps.fetchesAsSurveyed {module : Module} {function : FunctionRef} {method : Method}
    {s : Survey} {a : Activation} (hc : Certified module method s)
    (h : a.Keeps module function method s 0) : a.FetchesAsSurveyed s := by
  obtain ⟨i, hi, hdeep, hmeets⟩ := h.next_instruction hc
  have hcode : a.method.code[a.next]? = some i := h.sameMethod ▸ hi
  refine ⟨h.depth, hdeep, i, _, fetch_of_some hcode, hcode, ?_⟩
  rcases execute_of_meets rfl hmeets with ⟨request, a', hok, _⟩ | ⟨hthrow, v, rest, _, herror⟩
  · exact .inl ⟨request, a', hok⟩
  · exact .inr ⟨hthrow, v, _, herror⟩

/-- A method of a verified module can be entered in any state of a machine that has room for one more frame.
As long as its frame stands, each instruction that the frame fetches is fetched at the depth found by
verification. -/
theorem verified_frame_fetches_as_surveyed (m : Machine) (purpose : Purpose) (function : FunctionRef)
    (args : List Value) (loaded : LoadedModule) (method : Method)
    (hloaded : m.domain.loaded function.module = .ok loaded) (hverified : loaded.module.Verified)
    (hmethod : loaded.module.method function.method = .ok method) (hroom : m.depth < maxCallDepth) :
    ∃ s entered, survey method = .ok s ∧ (∀ name, method.verify name = .ok s.deepest) ∧
      m.enter purpose function args = .running entered ∧
      ∀ m', entered.Reaches m.frames.length m' →
        ∃ above f, m'.frames = above ++ f :: m.frames ∧ f.activation.module = loaded.module ∧
          f.activation.function = function ∧ f.activation.method = method ∧
          (above = [] → f.activation.FetchesAsSurveyed s) := by
  have hmem : method ∈ loaded.module.methods := by
    unfold Module.method at hmethod
    split at hmethod
    · rename_i found hfound
      obtain rfl := Except.ok.inj hmethod
      exact Array.mem_of_getElem? hfound
    · cases hmethod
  obtain ⟨s, hsurvey, hc, hverify⟩ := hverified.certified hmem
  let a : Activation :=
    { module := loaded.module, function, method, locals := Activation.initialLocals method args }
  -- A new frame has an empty stack, and the survey starts at depth zero.
  have hkeeps : a.Keeps loaded.module function method s 0 := {
    sameModule := rfl
    sameFunction := rfl
    sameMethod := rfl
    locals := Activation.size_initialLocals method args
    depth := hc.start }
  have henter : m.enter purpose function args =
      .running { m with frames := ⟨a, loaded.scope, purpose, m.depth⟩ :: m.frames } := by
    simp [Machine.enter, Nat.not_le.2 hroom, hloaded, Activation.enter_eq hmethod hc.locals, a]
  refine ⟨s, _, hsurvey, hverify, henter, fun m' hreaches => ?_⟩
  obtain ⟨above, f, hframes, hholds⟩ := hreaches.holds hc ⟨[], _, rfl, hkeeps⟩
  refine ⟨above, f, hframes, hholds.sameModule, hholds.sameFunction, hholds.sameMethod, ?_⟩
  rintro rfl
  exact hholds.fetchesAsSurveyed hc

/-- Counts its argument down in a loop, traces each number, and then calls itself. -/
def countdownMethod : Method where
  name := 0
  params := 1
  locals := 2
  code := #[.getLocal 0, .ifFalse 13, .getGlobal 1, .getLocal 0, .call 1, .pop, .getLocal 0, .pushInt 2,
    .subtract, .dup, .setLocal 0, .pop, .jump 0, .newFunction 0, .getLocal 0, .call 1, .returnValue]

def countdown : Module where
  label := "countdown"
  minorVersion := supportedMinor
  majorVersion := supportedMajor
  constants := #[.string "count", .string "trace", .int 1]
  methods := #[countdownMethod]
  definitions := [⟨0, .method 0⟩]
  init := 0

/-- The countdown is loaded, and one frame of it is suspended already. -/
def countdownMachine : Machine where
  domain := { modules := #[⟨countdown, .system⟩] }
  frames := [⟨{ module := countdown, function := ⟨0, 0⟩, method := countdownMethod, locals := #[] },
    .system, .call, 0⟩]

theorem countdown_fetches_as_surveyed :
    countdownMachine.domain.loaded 0 = .ok ⟨countdown, .system⟩ ∧ countdown.Verified ∧
      countdown.method 0 = .ok countdownMethod ∧ countdownMachine.depth < maxCallDepth ∧
      ∃ s entered, survey countdownMethod = .ok s ∧
        (∀ name, countdownMethod.verify name = .ok s.deepest) ∧
        countdownMachine.enter .call ⟨0, 0⟩ [.int 3] = .running entered ∧
        ∀ m', entered.Reaches countdownMachine.frames.length m' →
          ∃ above f, m'.frames = above ++ f :: countdownMachine.frames ∧
            f.activation.module = countdown ∧ f.activation.function = ⟨0, 0⟩ ∧
            f.activation.method = countdownMethod ∧ (above = [] → f.activation.FetchesAsSurveyed s) := by
  have hverified : countdown.Verified := ⟨rfl, by cbv⟩
  exact ⟨rfl, hverified, rfl, by decide,
    verified_frame_fetches_as_surveyed countdownMachine .call ⟨0, 0⟩ [.int 3] ⟨countdown, .system⟩
      countdownMethod rfl hverified rfl (by decide)⟩

end MovieVm
