import MovieVm.Proofs.Lives

/-!
# The call stack

A frame is entered one deeper than the frame that asks for it, be it for a call or for a global whose catalog entry has
to be initialized first. So at every moment of a run the depth of a frame is the number of frames that it stands on, and
the limit on the depth limits how many frames there are.
-/

namespace MovieVm

open Bytecode

/-! ## Moments of a run -/

/-- The first turn has come to the second by a step of each of the machines, the latest of them first. Time may pass in
between. -/
inductive Turn.Passes (t : Turn) : List Machine → Turn → Prop where
  | start : Passes t [] t
  | step {past : List Machine} {m : Machine} (h : Passes t past (.running m)) : Passes t (m :: past) m.step
  | wait {past : List Machine} {t' : Turn} (h : Passes t past t') (elapsed : Nat) : Passes t past (t'.aged elapsed)

theorem Turn.Passes.run {t t' : Turn} {past : List Machine} (h : t.Passes past t') {fuel : Nat} {o : Outcome Value}
    (hrun : t'.run fuel = some o) : ∃ past, t.Passes past (.finished o) := by
  induction fuel generalizing t' past with
  | zero =>
    cases t' with
    | running m => cases hrun
    | finished o' =>
      obtain rfl := Option.some.inj hrun
      exact ⟨past, h⟩
  | succ fuel ih =>
    cases t' with
    | running m => exact ih h.step hrun
    | finished o' =>
      obtain rfl := Option.some.inj hrun
      exact ⟨past, h⟩

/-- A run comes to its outcome step by step. -/
theorem Turn.passes_of_run {t : Turn} {fuel : Nat} {o : Outcome Value} (h : t.run fuel = some o) :
    ∃ past, t.Passes past (.finished o) :=
  Passes.start.run h

/-- What is kept holds at every moment of a run. -/
theorem Kept.passes {P : Domain → List Purpose → List Event → Prop} (kept : Kept P) {d : Domain} {demand : Demand}
    {past : List Machine} {t : Turn} (h : (demand.start d).Passes past t) (hnew : P d [] []) :
    ∃ record, P t.domain t.purposes record := by
  induction h with
  | start => exact ⟨_, kept.leaves (kept.replay hnew (demand.lawful_events d [])) (demand.start_leaves d)⟩
  | @step past m _ ih =>
    obtain ⟨record, hbefore⟩ := ih
    exact ⟨_, kept.leaves (kept.replay hbefore m.lawful_events) m.step_leaves⟩
  | wait _ elapsed ih =>
    obtain ⟨record, hbefore⟩ := ih
    rw [Turn.domain_aged, Turn.purposes_aged]
    exact ⟨_, kept.event hbefore (.aged elapsed) trivial⟩

/-! ## Nested frames -/

/-- Every frame is as deep as the number of frames that it stands on, counted from `base`. -/
inductive Nested (base : Nat) : List Frame → Prop where
  | nil : Nested base []
  | cons {f : Frame} {rest : List Frame} (hdepth : f.depth = base + rest.length) (hroom : f.depth < maxCallDepth)
    (hrest : Nested base rest) : Nested base (f :: rest)

namespace Nested

variable {base : Nat} {f g : Frame} {above below rest : List Frame} {m' : Machine} {d : Domain}

theorem depth_head (h : Nested base (f :: rest)) : f.depth = base + rest.length := by
  cases h with
  | cons hdepth _ _ => exact hdepth

theorem depth_eq (h : Nested base (above ++ f :: below)) : f.depth = base + below.length := by
  induction above with
  | nil => exact h.depth_head
  | cons g above ih =>
    cases h with
    | cons _ _ hrest => exact ih hrest

theorem length_le (h : Nested base (f :: rest)) : base + (f :: rest).length ≤ maxCallDepth := by
  cases h with
  | cons hdepth hroom _ =>
    rw [List.length_cons]
    omega

/-- Only the depth of the innermost frame counts. -/
theorem same (h : Nested base (f :: rest)) (hdepth : g.depth = f.depth) : Nested base (g :: rest) := by
  cases h with
  | cons hf hroom hrest => exact .cons (hdepth.trans hf) (hdepth ▸ hroom) hrest

theorem entered (h : Nested base (f :: rest)) (hg : g.Entered (f :: rest) d) : Nested base (g :: f :: rest) := by
  refine .cons ?_ hg.room h
  have hbelow : f.depth = base + rest.length := h.depth_head
  rw [hg.depth rfl, List.length_cons]
  omega

theorem serves (h : Nested base (f :: rest)) (hserves : Machine.Serves (f :: rest) m') :
    m'.frames ≠ [] ∧ Nested base m'.frames := by
  cases hserves with
  | answered g below v hsame hframes =>
    obtain ⟨rfl, rfl⟩ := List.cons.inj hsame
    rw [hframes]
    exact ⟨List.cons_ne_nil _ _, h.same rfl⟩
  | entered g hg hframes =>
    rw [hframes]
    exact ⟨List.cons_ne_nil _ _, h.entered hg⟩

/-- A step of the innermost frame keeps the frames nested. -/
theorem stepped (h : Nested base (f :: rest)) (hstep : Machine.Stepped f rest m') :
    m'.frames ≠ [] ∧ Nested base m'.frames := by
  cases hstep with
  | advanced i request a hfetch hexecute howed hfinish hframes =>
    rw [hframes]
    exact ⟨List.cons_ne_nil _ _, h.same rfl⟩
  | served i request a hfetch hexecute howed hfinish hserves =>
    have hwaiting : Nested base ({ f with activation := a } :: rest) := h.same rfl
    exact hwaiting.serves hserves
  | returned g below v hrest hframes =>
    subst hrest
    rw [hframes]
    cases h with
    | cons _ _ hbelow => exact ⟨List.cons_ne_nil _ _, hbelow.same rfl⟩

end Nested

/-! ## Depths of a run -/

/-- The depth of the outermost frame. A lookup from outside says how deep it is made. -/
def Demand.base : Demand → Nat
  | .resolve _ _ depth => depth
  | .invoke .. | .execute _ => 0

theorem Machine.enter_first {m m' : Machine} {purpose : Purpose} {function : FunctionRef} {args : List Value}
    (hframes : m.frames = []) (h : m.enter purpose function args = .running m') :
    ∃ g, m'.frames = [g] ∧ g.depth = m.base ∧ g.Entered [] m'.domain := by
  obtain ⟨g, hg, hdepth, rfl⟩ := enter_running h
  rw [hframes] at hg
  refine ⟨g, by rw [hframes], ?_, hg⟩
  simp only [hdepth, depth, hframes]

/-- Without frames there is none to go on with a result. -/
theorem Machine.deliver_ne_running {m m' : Machine} {result : Except VmError Value} (hframes : m.frames = []) :
    m.deliver result ≠ .running m' := by
  intro h
  obtain ⟨_, f, rest, _, hsome, _⟩ := deliver_running h
  cases hframes.symm.trans hsome

/-- A run begins with one frame. -/
theorem Demand.start_running {d : Domain} {demand : Demand} {m : Machine} (h : demand.start d = .running m) :
    ∃ g, m.frames = [g] ∧ g.depth = demand.base ∧ g.Entered [] m.domain := by
  cases demand with
  | invoke function args =>
    cases function with
    | function f => exact Machine.enter_first (m := { domain := d }) rfl h
    | native name => exact absurd h (Machine.deliver_ne_running rfl)
    | _ => exact absurd h (Machine.deliver_ne_running rfl)
  | execute id =>
    simp only [start] at h
    split at h
    · cases h
    · split at h
      · cases h
      · exact Machine.enter_first (m := { domain := d }) rfl h
  | resolve scope name depth =>
    simp only [start] at h
    cases hwanted : d.wanted? scope name with
    | none =>
      rw [Machine.resolve_of_not_wanted hwanted] at h
      exact absurd h (Machine.deliver_ne_running rfl)
    | some entry =>
      obtain ⟨catalog, _, hresolve⟩ := Machine.resolve_of_wanted (m := { domain := d, base := depth }) hwanted
      rw [hresolve] at h
      obtain ⟨effects, loaded, function, hentered⟩ := Machine.loadEntry_running h
      exact Machine.enter_first (m := { domain := loaded, effects, base := depth }) rfl hentered

/-- At every moment of a run there is a frame, and all frames are nested. -/
theorem Turn.Passes.nested {d : Domain} {demand : Demand} {past : List Machine} {t : Turn}
    (h : (demand.start d).Passes past t) {m : Machine} (hm : t = .running m) :
    m.frames ≠ [] ∧ Nested demand.base m.frames := by
  induction h generalizing m with
  | start =>
    obtain ⟨g, hframes, hdepth, hg⟩ := Demand.start_running hm
    rw [hframes]
    exact ⟨List.cons_ne_nil _ _, .cons hdepth hg.room .nil⟩
  | @step past earlier _ ih =>
    obtain ⟨hsome, hnested⟩ := ih rfl
    cases hframes : earlier.frames with
    | nil => exact absurd hframes hsome
    | cons f rest =>
      rw [hframes] at hnested
      exact hnested.stepped (Machine.step_running hframes hm)
  | @wait past t' _ elapsed ih =>
    cases t' with
    | finished o => cases hm
    | running earlier =>
      obtain rfl := Turn.running.inj hm
      have hbefore := ih (m := earlier) rfl
      exact hbefore

/-! ## Attempts to enter a frame -/

/-- The error with a stack frame for each frame that it leaves. -/
def VmError.traced (e : VmError) (frames : List Frame) : VmError :=
  { e with stack := e.stack ++ frames.map (·.activation.frame) }

theorem VmError.traced_nil (e : VmError) : e.traced [] = e := by
  simp [traced]

theorem VmError.traced_cons (e : VmError) (f : Frame) (rest : List Frame) :
    e.traced (f :: rest) = (e.withFrame f.activation.frame).traced rest := by
  simp [traced, withFrame]

theorem VmError.getLastD_through (e : VmError) (frames : List Frame) : (e.through frames).getLastD e = e.traced frames := by
  induction frames generalizing e with
  | nil => exact e.traced_nil.symm
  | cons f rest ih => rw [through, List.getLastD_cons, ih, traced_cons]

namespace Machine

variable {m : Machine} {d : Domain} {purpose : Purpose} {function : FunctionRef} {args : List Value}

theorem deliver_error (m : Machine) (e : VmError) :
    ∃ d, m.deliver (.error e) = .finished ⟨d, m.effects, .error (e.traced m.frames)⟩ := by
  rw [deliver, deliverTo_error_eq, VmError.getLastD_through]
  exact ⟨_, rfl⟩

/-- The next step asks for a frame of a function in a domain: a call does, and a lookup for the initializer of an entry
that it has just loaded. -/
inductive Attempts (m : Machine) : Domain → FunctionRef → List Value → Prop where
  | call {f : Frame} {function : FunctionRef} {args : List Value}
    (h : m.asks? = some (f, .call (.function function) args)) : Attempts m m.domain function args
  | initializer {f : Frame} {name : String} {entry id : Nat} {module : Module} {d : Domain}
    (h : m.asks? = some (f, .readGlobal name)) (hwanted : m.domain.wanted? f.scope name = some entry)
    (hmodule : m.domain.entryModule? entry = some module)
    (hload : ((m.domain.setMark entry .loaded).load .system module).2 = .ok (id, d)) : Attempts m d ⟨id, module.init⟩ []

/-- A step serves what it asks for. -/
theorem step_of_asks? {f : Frame} {request : Activation.Request} (h : m.asks? = some (f, request)) :
    ∃ g rest effects, m.frames = g :: rest ∧ f.depth = g.depth ∧ m.step = serve { m with effects } f rest request := by
  obtain ⟨d, effects, frames, base⟩ := m
  cases frames with
  | nil => cases h
  | cons g rest =>
    simp only [asks?] at h
    simp only [step]
    cases hfetch : Activation.fetch g.activation with
    | error e a =>
      rw [hfetch] at h
      cases h
    | ok fetched a =>
      rw [hfetch] at h
      cases fetched with
      | none =>
        cases h
        exact ⟨_, rest, effects, rfl, rfl, rfl⟩
      | some i =>
        cases hexecute : Activation.execute i a with
        | error e a => simp [hexecute] at h
        | ok request a =>
          simp only [hexecute] at h ⊢
          cases h
          exact ⟨g, rest, _, rfl, rfl, rfl⟩

/-- A machine that asks for a frame stands as deep as before. -/
theorem Attempts.step_eq (h : m.Attempts d function args) :
    ∃ (asking : Machine) (purpose : Purpose), m.step = asking.enter purpose function args ∧ asking.domain = d ∧
      asking.depth = m.depth ∧ asking.frames.length = m.frames.length := by
  cases h with
  | call h =>
    obtain ⟨g, rest, effects, hframes, hdepth, hstep⟩ := step_of_asks? h
    refine ⟨_, _, hstep, rfl, ?_, ?_⟩
    · simp only [depth, hframes, hdepth]
    · rw [hframes, List.length_cons, List.length_cons]
  | @initializer f name entry id module d h hwanted hmodule hload =>
    obtain ⟨g, rest, effects, hframes, hdepth, hstep⟩ := step_of_asks? h
    obtain ⟨catalog, hcatalog, hresolve⟩ := resolve_of_wanted (m := { m with effects, frames := f :: rest }) hwanted
    have hloaded : catalog.load entry = .ok module := by
      rw [Domain.entryModule?, hcatalog, Option.bind_some] at hmodule
      cases hload : catalog.load entry with
      | error e =>
        rw [hload] at hmodule
        cases hmodule
      | ok found =>
        rw [hload] at hmodule
        exact congrArg _ (Option.some.inj hmodule)
    rw [serve, hresolve, loadEntry_of_ok hloaded] at hstep
    simp only [boot, addEffects, hload] at hstep
    refine ⟨_, _, hstep, rfl, ?_, ?_⟩
    · simp only [depth, hframes, hdepth]
    · rw [hframes, List.length_cons, List.length_cons]

/-- Without room a frame is refused, and the error leaves those that there are. -/
theorem enter_of_full (h : maxCallDepth ≤ m.depth) :
    ∃ o, m.enter purpose function args = .finished o ∧ o.result = .error (callStackExceeded.traced m.frames) := by
  obtain ⟨d, hdeliver⟩ := deliver_error { m with domain := purpose.failed m.domain callStackExceeded } callStackExceeded
  rw [enter, if_pos h, refuse, hdeliver]
  exact ⟨_, rfl, rfl⟩

theorem enter_of_room {loaded : LoadedModule} {a : Activation} (h : m.depth < maxCallDepth)
    (hloaded : m.domain.loaded function.module = .ok loaded) (ha : Activation.enter loaded.module function args = .ok a) :
    m.enter purpose function args =
      .running { m with frames := ⟨a, loaded.scope, purpose, m.depth⟩ :: m.frames } := by
  simp only [enter, Nat.not_le.2 h, if_false, hloaded, ha]

end Machine

/-! ## The limit -/

/-- At every moment of a run each frame has been entered with as many frames below it as its depth says, those of
initializers included, and there are at most 256. An attempt to enter one more fails with a `RangeError`, which leaves
the frames that there are and no other; below the limit there is room for a frame. -/
theorem call_nesting_is_bounded {d : Domain} {demand : Demand} {past : List Machine} {m : Machine}
    (h : (demand.start d).Passes past (.running m)) :
    (∀ above f below, m.frames = above ++ f :: below → f.depth = demand.base + below.length) ∧
      demand.base + m.frames.length ≤ 256 ∧
      ∀ attempted function args, m.Attempts attempted function args →
        (demand.base + m.frames.length = 256 →
          ∃ o e, m.step = .finished o ∧ o.result = .error e ∧ e.kind = .rangeError ∧
            e.message = "Maximum call stack size exceeded" ∧ e.stack.length = m.frames.length) ∧
        (demand.base + m.frames.length < 256 → ∀ loaded a, attempted.loaded function.module = .ok loaded →
          Activation.enter loaded.module function args = .ok a →
          ∃ m', m.step = .running m' ∧ m'.frames.length = m.frames.length + 1) := by
  obtain ⟨hsome, hnested⟩ := h.nested rfl
  obtain ⟨f, rest, hframes⟩ := List.exists_cons_of_ne_nil hsome
  have hdepth : m.depth = demand.base + m.frames.length := by
    have hinnermost : f.depth = demand.base + rest.length := (hframes ▸ hnested).depth_head
    simp only [Machine.depth, hframes, hinnermost, List.length_cons, Nat.add_assoc]
  refine ⟨fun above g below hsplit => (hsplit ▸ hnested).depth_eq, ?_, fun attempted function args hattempt => ?_⟩
  · rw [hframes] at hnested ⊢
    exact hnested.length_le
  · obtain ⟨asking, purpose, hstep, rfl, hasking, hlength⟩ := hattempt.step_eq
    rw [hdepth] at hasking
    rw [hstep, ← hlength]
    rw [← hlength] at hasking
    refine ⟨fun hfull => ?_, fun hroom loaded a hloaded ha => ?_⟩
    · obtain ⟨o, hfinished, hresult⟩ := Machine.enter_of_full (Nat.le_of_eq (hasking.trans hfull).symm)
      refine ⟨o, _, hfinished, hresult, rfl, rfl, ?_⟩
      rw [VmError.traced, callStackExceeded, List.nil_append, List.length_map]
    · exact ⟨_, Machine.enter_of_room (hasking ▸ hroom) hloaded ha, rfl⟩

/-! A method that calls itself without end comes to the limit. -/

def endlessMethod : Method where
  name := 0
  params := 0
  locals := 0
  code := #[.newFunction 0, .call 0, .returnVoid]

def endless : Module where
  label := "endless"
  minorVersion := supportedMinor
  majorVersion := supportedMajor
  constants := #[.string "again"]
  methods := #[endlessMethod]
  definitions := []
  init := 0

namespace Endless

def domain : Domain :=
  { modules := #[⟨endless, .system⟩] }

/-- A frame of the method with this depth. -/
def frame (depth next : Nat) (stack : List Value) : Frame :=
  ⟨{ module := endless, function := ⟨0, 0⟩, method := endlessMethod, locals := #[], stack, next }, .system, .call, depth⟩

/-- The frames that wait for their calls. -/
def waiting : Nat → List Frame
  | 0 => []
  | depth + 1 => frame depth 2 [] :: waiting depth

def machine (depth next : Nat) (stack : List Value) : Machine :=
  { domain, frames := frame depth next stack :: waiting depth }

theorem length_waiting (depth : Nat) : (waiting depth).length = depth := by
  induction depth with
  | zero => rfl
  | succ depth ih => rw [waiting, List.length_cons, ih]

theorem step_entered (depth : Nat) : (machine depth 0 []).step = .running (machine depth 1 [.function ⟨0, 0⟩]) :=
  rfl

theorem asks_again (depth : Nat) :
    (machine depth 1 [.function ⟨0, 0⟩]).asks? = some (frame depth 2 [], .call (.function ⟨0, 0⟩) []) :=
  rfl

theorem step_calling {depth : Nat} (h : depth + 1 < maxCallDepth) :
    (machine depth 1 [.function ⟨0, 0⟩]).step = .running (machine (depth + 1) 0 []) := by
  have hcall : (machine depth 1 [.function ⟨0, 0⟩]).step =
      Machine.enter { domain, frames := waiting (depth + 1) } .call ⟨0, 0⟩ [] := rfl
  have hroom : Machine.depth { domain, frames := waiting (depth + 1) } < maxCallDepth := h
  rw [hcall, Machine.enter_of_room hroom rfl rfl]
  rfl

theorem passes {depth : Nat} (h : depth < maxCallDepth) :
    ∃ past, ((Demand.invoke (.function ⟨0, 0⟩) []).start domain).Passes past
      (.running (machine depth 1 [.function ⟨0, 0⟩])) := by
  induction depth with
  | zero =>
    have hstart : ((Demand.invoke (.function ⟨0, 0⟩) []).start domain).Passes [] (.running (machine 0 0 [])) := .start
    exact ⟨_, step_entered 0 ▸ hstart.step⟩
  | succ depth ih =>
    obtain ⟨past, hpast⟩ := ih (Nat.lt_of_succ_lt h)
    have hentered := hpast.step
    rw [step_calling h] at hentered
    exact ⟨_, step_entered (depth + 1) ▸ hentered.step⟩

end Endless

theorem endless_nesting_is_bounded :
    ∃ past m, ((Demand.invoke (.function ⟨0, 0⟩) []).start Endless.domain).Passes past (.running m) ∧
      m.frames.length = 256 ∧ m.Attempts m.domain ⟨0, 0⟩ [] ∧
      ∃ o e, m.step = .finished o ∧ o.result = .error e ∧ e.kind = .rangeError ∧ e.stack.length = 256 := by
  have hroom : 255 < maxCallDepth := by decide
  obtain ⟨past, hpast⟩ := Endless.passes hroom
  have hlength : (Endless.machine 255 1 [.function ⟨0, 0⟩]).frames.length = 256 := by
    rw [Endless.machine, List.length_cons, Endless.length_waiting]
  have hattempt : (Endless.machine 255 1 [.function ⟨0, 0⟩]).Attempts Endless.domain ⟨0, 0⟩ [] :=
    .call (Endless.asks_again 255)
  obtain ⟨_, _, hattempts⟩ := call_nesting_is_bounded hpast
  obtain ⟨hfull, _⟩ := hattempts _ _ _ hattempt
  rw [Demand.base, Nat.zero_add] at hfull
  obtain ⟨o, e, hstep, hresult, hkind, _, hstack⟩ := hfull hlength
  exact ⟨past, _, hpast, hlength, hattempt, o, e, hstep, hresult, hkind, hstack.trans hlength⟩

end MovieVm
