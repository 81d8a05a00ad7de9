import MovieVm.Domain.Machine
import MovieVm.Proofs.Execution

/-!
# What a step does to the frames

A machine that is still running after a step has changed its innermost frame only: the frame went on, a new
one was entered above it, it received the value it had asked for, or it is done and the frame below received
its value.
-/

namespace MovieVm

open Bytecode

/-- The frame after a value has come onto its stack. -/
def Frame.receive (f : Frame) (v : Value) : Frame :=
  { f with activation := { f.activation with stack := v :: f.activation.stack } }

/-- A frame that there was room for, whose module is a module of the domain. If it stands on other frames, it is one
deeper than the innermost of them. -/
structure Frame.Entered (g : Frame) (frames : List Frame) (d : Domain) : Prop where
  depth : ∀ {f rest}, frames = f :: rest → g.depth = f.depth + 1
  room : g.depth < maxCallDepth
  loaded : d.loaded g.activation.function.module = .ok ⟨g.activation.module, g.scope⟩

/-- A new activation is one of the function, in its module. -/
theorem Activation.enter_eq_ok {module : Module} {function : FunctionRef} {args : List Value} {a : Activation}
    (h : enter module function args = .ok a) : a.module = module ∧ a.function = function := by
  unfold enter at h
  split at h
  · cases h
  · split at h
    · cases h
    · cases h
      exact ⟨rfl, rfl⟩

namespace Machine

variable {m m' : Machine} {f g : Frame} {rest frames : List Frame}

/-! ## Results -/

/-- An error leaves all frames, so the run is over. -/
theorem deliverTo_error (m : Machine) (e : VmError) (frames : List Frame) :
    ∃ o, m.deliverTo (.error e) frames = .finished o := by
  induction frames generalizing m e with
  | nil => exact ⟨_, rfl⟩
  | cons f rest ih => exact ih _ _

theorem deliver_running {result : Except VmError Value} (h : m.deliver result = .running m') :
    ∃ v f rest, result = .ok v ∧ m.frames = f :: rest ∧
      m' = { m with frames := f.receive v :: rest } := by
  cases result with
  | error e =>
    obtain ⟨o, ho⟩ := deliverTo_error m e m.frames
    rw [deliver, ho] at h
    cases h
  | ok v =>
    cases hframes : m.frames with
    | nil => simp [deliver, deliverTo, hframes] at h
    | cons f rest =>
      refine ⟨v, f, rest, rfl, rfl, ?_⟩
      simpa [deliver, deliverTo, hframes, Frame.receive] using h.symm

theorem refuse_running {purpose : Purpose} {e : VmError} : m.refuse purpose e ≠ .running m' := by
  intro h
  obtain ⟨v, _, _, hresult, _⟩ := deliver_running h
  cases hresult

/-! ## Requests -/

/-- How a request for a value is served: at once, or by a new frame. -/
inductive Serves (frames : List Frame) (m' : Machine) : Prop where
  | answered (f : Frame) (rest : List Frame) (v : Value) (h : frames = f :: rest)
    (hframes : m'.frames = f.receive v :: rest) : Serves frames m'
  | entered (g : Frame) (h : g.Entered frames m'.domain) (hframes : m'.frames = g :: frames) : Serves frames m'

theorem Serves.of_deliver {result : Except VmError Value} (h : m.deliver result = .running m') :
    Serves m.frames m' := by
  obtain ⟨v, f, rest, _, hframes, rfl⟩ := deliver_running h
  exact .answered f rest v hframes rfl

theorem enter_running {purpose : Purpose} {function : FunctionRef} {args : List Value}
    (h : m.enter purpose function args = .running m') :
    ∃ g, g.Entered m.frames m.domain ∧ g.depth = m.depth ∧ m' = { m with frames := g :: m.frames } := by
  unfold enter at h
  split at h
  · exact absurd h refuse_running
  · rename_i hroom
    split at h
    · exact absurd h refuse_running
    · rename_i loaded hloaded
      split at h
      · exact absurd h refuse_running
      · rename_i a ha
        obtain ⟨hmodule, hfunction⟩ := Activation.enter_eq_ok ha
        refine ⟨⟨a, loaded.scope, purpose, m.depth⟩, ⟨?_, Nat.lt_of_not_le hroom, ?_⟩, rfl, (Turn.running.inj h).symm⟩
        · intro f rest hframes
          simp only [depth, hframes]
        · rw [hfunction, hmodule]
          exact hloaded

theorem Serves.of_enter {purpose : Purpose} {function : FunctionRef} {args : List Value}
    (h : m.enter purpose function args = .running m') : Serves m.frames m' := by
  obtain ⟨g, hg, _, rfl⟩ := enter_running h
  exact .entered g hg rfl

theorem Serves.of_call {callee : Value} {args : List Value} (h : m.call callee args = .running m') :
    Serves m.frames m' := by
  cases callee with
  | function function => exact .of_enter h
  | native name => exact .of_deliver (m := m.addEffects _) h
  | _ => exact .of_deliver h

/-- A load that goes on has entered the initializer over the frames that were there. -/
theorem loadEntry_running {catalog : Catalog} {entry : Nat} {symbol : String} {requester : Scope}
    (h : m.loadEntry catalog entry symbol requester = .running m') :
    ∃ effects domain function,
      enter { m with domain, effects } (.catalogEntry entry symbol requester) function [] = .running m' := by
  unfold loadEntry at h
  cases hload : catalog.load entry with
  | error e =>
    simp only [hload] at h
    exact absurd h refuse_running
  | ok module =>
    simp only [hload] at h
    split at h
    · exact absurd h refuse_running
    · exact ⟨_, _, _, h⟩

theorem Serves.of_loadEntry {catalog : Catalog} {entry : Nat} {symbol : String} {requester : Scope}
    (h : m.loadEntry catalog entry symbol requester = .running m') : Serves m.frames m' := by
  obtain ⟨effects, domain, function, hentered⟩ := loadEntry_running h
  have hserves := Serves.of_enter hentered
  exact hserves

theorem Serves.of_resolve {scope : Scope} {name : String} (h : m.resolve scope name = .running m') :
    Serves m.frames m' := by
  unfold resolve at h
  split at h
  · exact .of_deliver h
  · split at h
    · split at h
      · exact .of_deliver h
      · exact .of_deliver h
      · exact .of_loadEntry h
    · exact .of_deliver h

/-! ## Steps -/

/-- The machine after a step of frame `f` over the frames `rest`. -/
inductive Stepped (f : Frame) (rest : List Frame) (m' : Machine) : Prop where
  | advanced (i : Instruction) (request : Activation.Request) (a : Activation)
    (hfetch : f.activation.method.code[f.activation.next]? = some i)
    (hexecute : Activation.execute i { f.activation with next := f.activation.next + 1 } = .ok request a)
    (howed : request.owed = 0) (hfinish : ¬ request.IsFinish)
    (hframes : m'.frames = { f with activation := a } :: rest) : Stepped f rest m'
  | served (i : Instruction) (request : Activation.Request) (a : Activation)
    (hfetch : f.activation.method.code[f.activation.next]? = some i)
    (hexecute : Activation.execute i { f.activation with next := f.activation.next + 1 } = .ok request a)
    (howed : request.owed = 1) (hfinish : ¬ request.IsFinish)
    (hserves : Serves ({ f with activation := a } :: rest) m') : Stepped f rest m'
  | returned (g : Frame) (below : List Frame) (v : Value) (h : rest = g :: below)
    (hframes : m'.frames = g.receive v :: below) : Stepped f rest m'

theorem fetch_of_none {a : Activation} (h : a.method.code[a.next]? = none) :
    Activation.fetch a = .ok none a := by
  simp [Activation.fetch, EStateM.bind_apply, h]

/-- A frame that finishes hands its value to the frame below. -/
theorem Stepped.of_finish {v : Value} (h : m.serve f rest (.finish v) = .running m') :
    Stepped g rest m' := by
  obtain ⟨w, r, below, _, hrest, rfl⟩ := deliver_running h
  exact .returned r below w hrest rfl

theorem step_running (hframes : m.frames = f :: rest) (h : m.step = .running m') :
    Stepped f rest m' := by
  unfold step at h
  simp only [hframes] at h
  cases hcode : f.activation.method.code[f.activation.next]? with
  | none =>
    -- Past its end the code returns.
    rw [fetch_of_none hcode] at h
    exact .of_finish h
  | some i =>
    rw [Activation.fetch_of_some hcode] at h
    simp only at h
    cases hexecute : Activation.execute i { f.activation with next := f.activation.next + 1 } with
    -- A failure leaves every frame, so the machine would not run on.
    | error e a =>
      simp only [hexecute] at h
      obtain ⟨v, _, _, hresult, _⟩ := deliver_running h
      cases hresult
    | ok request a =>
      simp only [hexecute] at h
      cases request with
      | proceed =>
        obtain rfl : _ = m' := Turn.running.inj h
        exact .advanced i _ a hcode hexecute rfl id rfl
      | writeGlobal name v =>
        obtain rfl : _ = m' := Turn.running.inj h
        exact .advanced i _ a hcode hexecute rfl id rfl
      | readGlobal name => exact .served i _ a hcode hexecute rfl id (.of_resolve h)
      | call callee args => exact .served i _ a hcode hexecute rfl id (.of_call h)
      | finish v => exact .of_finish h

end Machine

end MovieVm
