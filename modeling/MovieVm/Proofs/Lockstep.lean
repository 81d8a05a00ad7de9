import MovieVm.Domain.Execution
import MovieVm.Proofs.Alike
import MovieVm.Proofs.Frames
import MovieVm.Proofs.RoundTrip

/-!
# Runs in lockstep

Two domains whose modules are alike answer every invocation alike. Each step of one machine is a step of the
other: frames that wait are in step, and the innermost ones may differ in where past the end they are.
-/

namespace MovieVm

open Bytecode

/-! ## Domains -/

/-- What a loaded module says, and where. -/
def LoadedModule.content (l : LoadedModule) : ModuleContent × Scope :=
  (l.module.clamped.content, l.scope)

namespace Domain

/-- The domains differ only in modules, which are alike. -/
structure Alike (traced : Bool) (d d' : Domain) : Prop where
  same : d' = { d with modules := d'.modules }
  modules : d.modules.map LoadedModule.content = d'.modules.map LoadedModule.content
  options : d.options.traceInterpreter = traced

variable {traced : Bool} {d d' : Domain}

theorem Alike.size (h : d.Alike traced d') : d'.modules.size = d.modules.size := by
  simpa using (congrArg Array.size h.modules).symm

/-- The same numbers are taken, by modules that are alike. -/
theorem Alike.modules_getElem? (h : d.Alike traced d') (id : Nat) :
    d.modules[id]? = none ∧ d'.modules[id]? = none ∨
      ∃ l l', d.modules[id]? = some l ∧ d'.modules[id]? = some l' ∧ l.module.Alike l'.module ∧
        l'.scope = l.scope := by
  have hid := congrArg (·[id]?) h.modules
  simp only [Array.getElem?_map] at hid
  cases hleft : d.modules[id]? <;> cases hright : d'.modules[id]? <;>
    simp only [hleft, hright, Option.map_some, Option.map_none, reduceCtorEq] at hid
  · exact .inl ⟨rfl, rfl⟩
  · obtain ⟨hcontent, hscope⟩ := Prod.mk.inj (Option.some.inj hid)
    exact .inr ⟨_, _, rfl, rfl, hcontent, hscope.symm⟩

theorem Alike.functionName (h : d.Alike traced d') : d'.functionName = d.functionName := by
  funext v
  cases v with
  | function f =>
    simp only [Domain.functionName, Domain.module?]
    rcases h.modules_getElem? f.module with ⟨hleft, hright⟩ | ⟨l, l', hleft, hright, halike, _⟩
    · rw [hleft, hright]
    · rw [hleft, hright]
      exact (halike.methodName f.method).symm
  | _ => rfl

theorem Alike.getGlobal? (h : d.Alike traced d') : d'.getGlobal? = d.getGlobal? := by
  rw [h.same]
  rfl

/-- Natives cannot tell the domains apart. -/
theorem Alike.call (h : d.Alike traced d') (name : String) (args : List Value) :
    Natives.call d' name args = Natives.call d name args := by
  have htimer : Natives.timer d' = Natives.timer d := by
    rw [h.same]
    rfl
  simp only [Natives.call, Natives.testEntry, h.functionName, htimer]

theorem Alike.setGlobal (h : d.Alike traced d') (scope : Scope) (name : String) (v : Value) :
    (d.setGlobal scope name v).Alike traced (d'.setGlobal scope name v) := by
  obtain ⟨hsame, hmodules, hoptions⟩ := h
  generalize d'.modules = modules at hsame hmodules
  subst hsame
  cases scope <;> exact ⟨rfl, hmodules, hoptions⟩

theorem Alike.setMark (h : d.Alike traced d') (entry : Nat) (mark : EntryMark) :
    (d.setMark entry mark).Alike traced (d'.setMark entry mark) := by
  obtain ⟨hsame, hmodules, hoptions⟩ := h
  generalize d'.modules = modules at hsame hmodules
  subst hsame
  cases mark <;> exact ⟨rfl, hmodules, hoptions⟩

theorem Alike.failed (h : d.Alike traced d') (purpose : Purpose) (e : VmError) :
    (purpose.failed d e).Alike traced (purpose.failed d' e) := by
  cases purpose with
  | call => exact h
  | catalogEntry entry symbol requester => exact h.setMark entry (.failed e)

/-- What a frame returns is the same in both. -/
theorem Alike.result (h : d.Alike traced d') (purpose : Purpose) (v : Value) :
    purpose.result d' v = purpose.result d v := by
  cases purpose with
  | call => rfl
  | catalogEntry entry symbol requester => simp only [Purpose.result, h.getGlobal?]

/-- A module that is loaded into both leaves them alike. -/
theorem Alike.bind (h : d.Alike traced d') (scope : Scope) (m : Module) (values : List (String × Value)) :
    (d.bind scope m values).Alike traced (d'.bind scope m values) := by
  have hsize := h.size
  obtain ⟨hsame, hmodules, hoptions⟩ := h
  -- The domains are the same but for their modules, and stay so when both get one more.
  generalize d'.modules = modules at hsame hmodules hsize
  subst hsame
  cases scope <;> refine ⟨?_, ?_, hoptions⟩ <;>
    simp only [Domain.bind, Domain.updateScope, hsize, Array.map_push, hmodules]

/-- Loading a module fails alike, or leaves the domains alike; the lines it writes are the same. -/
theorem Alike.load (h : d.Alike traced d') (scope : Scope) (m : Module) :
    ∃ effects, (∃ e, d.load scope m = (effects, .error e) ∧ d'.load scope m = (effects, .error e)) ∨
      ∃ id e e', d.load scope m = (effects, .ok (id, e)) ∧ d'.load scope m = (effects, .ok (id, e')) ∧
        e.Alike traced e' := by
  have hoptions : d'.options = d.options := by rw [h.same]
  have htrace : d'.loadTrace scope m = d.loadTrace scope m := by
    simp only [loadTrace, hoptions, h.size]
  unfold Domain.load
  rw [hoptions, htrace, h.size]
  split
  · exact ⟨_, .inl ⟨_, rfl, rfl⟩⟩
  · simp only
    cases hbindings : bindings m d.modules.size m.definitions with
    | error e => exact ⟨_, .inl ⟨e, rfl, rfl⟩⟩
    | ok values => exact ⟨_, .inr ⟨_, _, _, rfl, rfl, h.bind scope m values⟩⟩

end Domain

/-! ## Effects -/

/-- Calls of the host, which the lines of a trace are not. -/
def Effect.isHostEvent : Effect → Bool
  | .line _ => false
  | _ => true

def Effects.hostEvents (effects : Effects) : List Effect :=
  effects.toList.filter Effect.isHostEvent

/-- The same events for the host, and the same lines as well unless instructions are traced. -/
structure Effects.Alike (traced : Bool) (effects effects' : Effects) : Prop where
  events : effects.hostEvents = effects'.hostEvents
  untraced : traced = false → effects = effects'

namespace Effects

variable {traced : Bool} {effects effects' : Effects}

theorem Alike.refl (effects : Effects) : Alike traced effects effects :=
  ⟨rfl, fun _ => rfl⟩

theorem Alike.append {more more' : Effects} (h : Alike traced effects effects')
    (hmore : Alike traced more more') : Alike traced (effects ++ more) (effects' ++ more') where
  events := by
    have hevents := h.events
    have hmoreEvents := hmore.events
    simp only [hostEvents, Array.toList_append, List.filter_append] at hevents hmoreEvents ⊢
    rw [hevents, hmoreEvents]
  untraced htraced := by rw [h.untraced htraced, hmore.untraced htraced]

end Effects

/-! ## Machines -/

/-- Frames that wait for a value at the same instruction. -/
structure Frame.InStep (f f' : Frame) : Prop where
  activation : ∃ c, Counterparts.InStep c f.activation f'.activation
  scope : f'.scope = f.scope
  purpose : f'.purpose = f.purpose
  depth : f'.depth = f.depth

/-- Frames at the same instruction, or both past the end of the code. -/
structure Frame.Level (f f' : Frame) : Prop where
  activation : ∃ c, Counterparts.Level c f.activation f'.activation
  scope : f'.scope = f.scope
  purpose : f'.purpose = f.purpose
  depth : f'.depth = f.depth

theorem Frame.InStep.level {f f' : Frame} (h : f.InStep f') : f.Level f' := by
  obtain ⟨⟨c, hc⟩, hscope, hpurpose, hdepth⟩ := h
  exact ⟨⟨c, hc.level⟩, hscope, hpurpose, hdepth⟩

theorem Frame.InStep.receive {f f' : Frame} (h : f.InStep f') (v : Value) :
    (f.receive v).InStep (f'.receive v) := by
  obtain ⟨⟨c, hmodule, hmethod, hsame⟩, hscope, hpurpose, hdepth⟩ := h
  refine ⟨⟨c, hmodule, hmethod, ?_⟩, hscope, hpurpose, hdepth⟩
  simp only [Frame.receive, hsame]

/-- Frames that all wait. -/
inductive Waiting : List Frame → List Frame → Prop where
  | nil : Waiting [] []
  | cons {f f' : Frame} {rest rest' : List Frame} (h : f.InStep f') (hrest : Waiting rest rest') :
    Waiting (f :: rest) (f' :: rest')

/-- Frames of which all wait but the innermost. -/
inductive AtWork : List Frame → List Frame → Prop where
  | nil : AtWork [] []
  | cons {f f' : Frame} {rest rest' : List Frame} (h : f.Level f') (hrest : Waiting rest rest') :
    AtWork (f :: rest) (f' :: rest')

/-- The machines agree on everything but their frames, which are as `R` says. -/
structure Machine.Alike (traced : Bool) (R : List Frame → List Frame → Prop) (m m' : Machine) : Prop where
  domain : m.domain.Alike traced m'.domain
  effects : Effects.Alike traced m.effects m'.effects
  frames : R m.frames m'.frames
  base : m'.base = m.base

structure Outcome.Alike (traced : Bool) (o o' : Outcome Value) : Prop where
  domain : o.domain.Alike traced o'.domain
  effects : Effects.Alike traced o.effects o'.effects
  result : o'.result = o.result

inductive Turn.Alike (traced : Bool) : Turn → Turn → Prop where
  | running {m m' : Machine} (h : m.Alike traced AtWork m') : Alike traced (.running m) (.running m')
  | finished {o o' : Outcome Value} (h : o.Alike traced o') : Alike traced (.finished o) (.finished o')

namespace Machine

variable {traced : Bool} {R : List Frame → List Frame → Prop} {m m' : Machine}

theorem Alike.addEffects (h : m.Alike traced R m') {effects effects' : Effects}
    (heffects : effects.Alike traced effects') :
    (m.addEffects effects).Alike traced R (m'.addEffects effects') :=
  { h with effects := h.effects.append heffects }

theorem Alike.options (h : m.Alike traced R m') : m'.domain.options = m.domain.options := by
  rw [h.domain.same]

theorem Alike.withDomain (h : m.Alike traced R m') {d d' : Domain} (hd : d.Alike traced d') :
    Machine.Alike traced R { m with domain := d } { m' with domain := d' } :=
  { h with domain := hd }

/-- A result goes the same way through frames that wait. -/
theorem Alike.deliverTo (h : m.Alike traced R m') {frames frames' : List Frame}
    (hframes : Waiting frames frames') (result : Except VmError Value) :
    Turn.Alike traced (m.deliverTo result frames) (m'.deliverTo result frames') := by
  -- An error leaves the frames one by one, and each adds itself to the error.
  induction hframes generalizing m m' result R with
  | nil => exact .finished ⟨h.domain, h.effects, rfl⟩
  | @cons f f' rest rest' hf hrest ih =>
    cases result with
    | ok v =>
      exact .running {
        domain := h.domain
        effects := h.effects
        frames := .cons (hf.receive v).level hrest
        base := h.base }
    | error e =>
      obtain ⟨⟨c, hc⟩, _, hpurpose, _⟩ := hf
      simp only [Machine.deliverTo, ← hc.frame, hpurpose]
      exact ih (h.withDomain (h.domain.failed f.purpose _)) _

theorem Alike.deliver (h : m.Alike traced Waiting m') (result : Except VmError Value) :
    Turn.Alike traced (m.deliver result) (m'.deliver result) :=
  h.deliverTo h.frames result

theorem Alike.refuse (h : m.Alike traced Waiting m') (purpose : Purpose) (e : VmError) :
    Turn.Alike traced (m.refuse purpose e) (m'.refuse purpose e) :=
  (h.withDomain (h.domain.failed purpose e)).deliver _

/-! ## Calls and globals -/

theorem Alike.depth (h : m.Alike traced Waiting m') : m'.depth = m.depth := by
  have hframes := h.frames
  unfold Machine.depth
  generalize m.frames = frames, m'.frames = frames' at hframes
  cases hframes with
  | nil => exact h.base
  | cons hf _ => exact congrArg (· + 1) hf.depth

theorem Alike.enter (h : m.Alike traced Waiting m') (purpose : Purpose) (function : FunctionRef)
    (args : List Value) :
    Turn.Alike traced (m.enter purpose function args) (m'.enter purpose function args) := by
  -- Both have room for one more frame or neither has.
  unfold Machine.enter Domain.loaded
  rw [h.depth]
  split
  · exact h.refuse purpose _
  · rcases h.domain.modules_getElem? function.module with
      ⟨hleft, hright⟩ | ⟨l, l', hleft, hright, halike, hscope⟩
    · rw [hleft, hright]
      exact h.refuse purpose _
    · rw [hleft, hright]
      simp only
      rcases halike.enter function args with ⟨e, hfails, hfails'⟩ | ⟨c, a, a', henters, henters', hstep⟩
      · rw [hfails, hfails']
        exact h.refuse purpose _
      · rw [henters, henters']
        exact .running { h with frames := .cons ⟨⟨c, hstep.level⟩, hscope, rfl, rfl⟩ h.frames }

theorem Alike.call (h : m.Alike traced Waiting m') (callee : Value) (args : List Value) :
    Turn.Alike traced (m.call callee args) (m'.call callee args) := by
  cases callee with
  | function f => exact h.enter .call f args
  | native name =>
    simp only [Machine.call, h.domain.call]
    exact (h.addEffects (.refl _)).deliver _
  | _ => exact h.deliver _

theorem catalogTrace_congr (h : m'.domain.options = m.domain.options) (symbol label : String) :
    m'.catalogTrace symbol label = m.catalogTrace symbol label := by
  rw [catalogTrace, catalogTrace, h]

theorem Alike.loadEntry (h : m.Alike traced Waiting m') (catalog : Catalog) (entry : Nat) (symbol : String)
    (requester : Scope) :
    Turn.Alike traced (m.loadEntry catalog entry symbol requester)
      (m'.loadEntry catalog entry symbol requester) := by
  have hmarked := h.withDomain (h.domain.setMark entry .loaded)
  unfold Machine.loadEntry
  -- The catalog is the same on both sides, and so is the module that comes from it.
  cases hload : catalog.load entry with
  | error e => exact hmarked.refuse _ _
  | ok module =>
    have htrace := catalogTrace_congr hmarked.options symbol module.label
    have hannounced := hmarked.addEffects
      (.refl (Machine.catalogTrace { m with domain := m.domain.setMark entry .loaded } symbol module.label))
    simp only [htrace]
    obtain ⟨effects, ⟨e, hfails, hfails'⟩ | ⟨id, d, d', hloads, hloads', hd⟩⟩ :=
      hannounced.domain.load .system module
    · simp only [hfails, hfails']
      exact (hannounced.addEffects (.refl effects)).refuse _ _
    · simp only [hloads, hloads']
      exact ((hannounced.addEffects (.refl effects)).withDomain hd).enter _ _ _

/-- A global is found in the same way, the catalog included. -/
theorem Alike.resolve (h : m.Alike traced Waiting m') (scope : Scope) (name : String) :
    Turn.Alike traced (m.resolve scope name) (m'.resolve scope name) := by
  have hcatalog : m'.domain.catalog = m.domain.catalog := by rw [h.domain.same]
  have hentry : m'.domain.entryFor? name = m.domain.entryFor? name := by
    rw [h.domain.same]
    rfl
  have hmark : m'.domain.mark? = m.domain.mark? := by
    rw [h.domain.same]
    rfl
  unfold Machine.resolve
  rw [h.domain.getGlobal?, hcatalog, hentry, hmark]
  split
  · exact h.deliver _
  · split
    · split
      · exact h.deliver _
      · exact h.deliver _
      · exact h.loadEntry _ _ _ _
    · exact h.deliver _

/-! ## Steps -/

theorem Alike.withFrames {S : List Frame → List Frame → Prop} (h : m.Alike traced R m')
    {frames frames' : List Frame} (hframes : S frames frames') :
    Machine.Alike traced S { m with frames } { m' with frames := frames' } :=
  { h with frames := hframes }

/-- A request of frames in step is served alike. -/
theorem Alike.serve (h : m.Alike traced R m') {f f' : Frame} {rest rest' : List Frame} (hf : f.InStep f')
    (hrest : Waiting rest rest') (request : Activation.Request) :
    Turn.Alike traced (m.serve f rest request) (m'.serve f' rest' request) := by
  have hwaiting := h.withFrames (Waiting.cons hf hrest)
  cases request with
  | proceed => exact .running (h.withFrames (.cons hf.level hrest))
  | readGlobal name =>
    rw [Machine.serve, Machine.serve, hf.scope]
    exact hwaiting.resolve f.scope name
  | writeGlobal name v =>
    rw [Machine.serve, Machine.serve, hf.scope]
    exact .running ((h.withFrames (AtWork.cons hf.level hrest)).withDomain (h.domain.setGlobal f.scope name v))
  | call callee args => exact hwaiting.call callee args
  | finish v =>
    rw [Machine.serve, Machine.serve, hf.purpose, h.domain.result]
    exact (h.withFrames hrest).deliver _

/-- The lines that trace the instructions are no events. -/
theorem Alike.instructionTrace (h : m.Alike traced R m') (a a' : Activation) (i i' : Instruction) :
    Effects.Alike traced (m.instructionTrace a i) (m'.instructionTrace a' i') := by
  have hlines : ∀ (s : Machine) a i, (s.instructionTrace a i).hostEvents = [] := by
    intro s a i
    unfold Machine.instructionTrace
    split <;> rfl
  have hnone : ∀ (s : Machine) a i, s.domain.options.traceInterpreter = false →
      s.instructionTrace a i = #[] := by
    intro s a i hs
    simp [Machine.instructionTrace, hs]
  refine ⟨by rw [hlines, hlines], fun htraced => ?_⟩
  have hleft : m.domain.options.traceInterpreter = false := h.domain.options.trans htraced
  rw [hnone m a i hleft, hnone m' a' i' (h.options ▸ hleft)]

/-- One step of machines that are alike leaves them alike. -/
theorem Alike.step (h : m.Alike traced AtWork m') : Turn.Alike traced m.step m'.step := by
  obtain ⟨hdomain, heffects, hframes, hbase⟩ := h
  unfold Machine.step
  generalize hleft : m.frames = frames, hright : m'.frames = frames' at hframes
  cases hframes with
  | nil =>
    refine Alike.deliver ⟨hdomain, heffects, ?_, hbase⟩ _
    rw [hleft, hright]
    exact .nil
  | @cons f f' rest rest' hf hrest =>
    have hm : m.Alike traced (fun _ _ => True) m' := ⟨hdomain, heffects, trivial, hbase⟩
    obtain ⟨⟨c, hc⟩, hscope, hpurpose, hdepth⟩ := hf
    simp only
    -- Past its end a frame returns, wherever past the end it is.
    rcases hc.next_instruction with ⟨hend, hend'⟩ | ⟨i, i', hi, hi', hmatches, hstep⟩
    · rw [fetch_of_none hend, fetch_of_none hend']
      simp only [Machine.serve, hpurpose, hdomain.result]
      exact (hm.withFrames hrest).deliver _
    · rw [Activation.fetch_of_some hi, Activation.fetch_of_some hi']
      have hm := hm.addEffects (hm.instructionTrace f.activation f'.activation i i')
      simp only
      -- Only a branch takes the frames out of step, and it asks for nothing.
      rcases Counterparts.execute_level hmatches hstep with hagree | ⟨b, b', hleft, hright, hlevel⟩
      · generalize Activation.execute i _ = r, Activation.execute i' _ = r' at hagree
        cases hagree with
        | @ok request b b' hb =>
          have hf : Frame.InStep { f with activation := b } { f' with activation := b' } :=
            ⟨⟨c, hb⟩, hscope, hpurpose, hdepth⟩
          exact hm.serve hf hrest request
        | @error e b b' hb =>
          have hf : Frame.InStep { f with activation := b } { f' with activation := b' } :=
            ⟨⟨c, hb⟩, hscope, hpurpose, hdepth⟩
          exact (hm.withFrames (Waiting.cons hf hrest)).deliver _
      · rw [hleft, hright]
        have hf : Frame.Level { f with activation := b } { f' with activation := b' } :=
          ⟨⟨c, hlevel⟩, hscope, hpurpose, hdepth⟩
        exact .running (hm.withFrames (AtWork.cons hf hrest))

end Machine

/-! ## Runs -/

/-- Both runs take the same number of steps, by induction on the steps that are left. -/
theorem Turn.Alike.run {traced : Bool} {t t' : Turn} (h : t.Alike traced t') (fuel : Nat) :
    Option.Rel (Outcome.Alike traced) (t.run fuel) (t'.run fuel) := by
  -- When the steps run out, they do so on both sides.
  induction fuel generalizing t t' with
  | zero =>
    cases h with
    | running h => exact .none
    | finished h => exact .some h
  | succ fuel ih =>
    cases h with
    | running h => exact ih h.step
    | finished h => exact .some h

/-- Domains that are alike answer an invocation alike. -/
theorem Domain.Alike.invoke {traced : Bool} {d d' : Domain} (h : d.Alike traced d') (fuel : Nat)
    (function : Value) (args : List Value) :
    Option.Rel (Outcome.Alike traced) (d.invoke fuel function args) (d'.invoke fuel function args) := by
  have hstart : Machine.Alike traced Waiting { domain := d } { domain := d' } :=
    ⟨h, .refl _, .nil, rfl⟩
  exact (hstart.call function args).run fuel

/-! ## Modules that were read back -/

/-- What a program around a domain sees of a run. -/
structure Observation where
  result : Except VmError Value
  events : List Effect
  system : Globals
  application : Globals

def Outcome.observation (o : Outcome Value) : Observation where
  result := o.result
  events := o.effects.hostEvents
  system := o.domain.system.globals
  application := o.domain.application.globals

theorem Outcome.Alike.observation {traced : Bool} {o o' : Outcome Value} (h : o.Alike traced o') :
    o'.observation = o.observation := by
  rw [Outcome.observation, Outcome.observation, h.result, h.effects.events, h.domain.same]

/-- The domain with another module in the place of the one with a number. -/
def Domain.replaceModule (d : Domain) (id : Nat) (m : Module) : Domain :=
  { d with modules := d.modules.modify id fun loaded => { loaded with module := m } }

theorem Domain.alike_replaceModule {d : Domain} {id : Nat} {m m' : Module} (hloaded : d.module? id = some m)
    (h : m.Alike m') : d.Alike d.options.traceInterpreter (d.replaceModule id m') where
  same := rfl
  modules := by
    obtain ⟨loaded, hid, rfl⟩ := Option.map_eq_some_iff.1 hloaded
    refine Array.ext_getElem? fun j => ?_
    rw [Array.getElem?_map, Array.getElem?_map, replaceModule, Array.getElem?_modify]
    split
    · rename_i hj
      subst hj
      rw [hid]
      exact congrArg (fun content => some (content, loaded.scope)) h
    · rfl
  options := rfl

/-- A module is alike to its canonical form. -/
theorem Bytecode.Module.Resolved.alike_canonical {m : Module} (h : m.Resolved) : m.Alike m.canonical := by
  have hagain := h.canonical.content_canonical
  rw [h.canonical_canonical, h.content_canonical] at hagain
  exact hagain

/-- A module that was read back from its text runs like the module itself: an invocation ends with the same
result, after the same events for the host and with the same globals, or goes on in both domains. Lines that
trace instructions may differ; without them all effects are the same. -/
theorem reassembled_module_runs_alike {d : Domain} {id : Nat} {m m' : Module} (hm : m.Printable)
    (hloaded : d.module? id = some m) (hassembled : Module.assemble m.disassemble m.label = .ok m')
    (fuel : Nat) (function : Value) (args : List Value) :
    ((d.replaceModule id m').invoke fuel function args).map Outcome.observation =
        (d.invoke fuel function args).map Outcome.observation ∧
      (d.options.traceInterpreter = false →
        ((d.replaceModule id m').invoke fuel function args).map Outcome.effects =
          (d.invoke fuel function args).map Outcome.effects) := by
  rw [Module.assemble_disassemble hm] at hassembled
  obtain rfl := Except.ok.inj hassembled
  -- What the assembler made is the canonical form, which says the same as the module.
  have halike := Domain.alike_replaceModule hloaded hm.resolved.alike_canonical
  have hruns := halike.invoke fuel function args
  generalize d.invoke fuel function args = run,
    (d.replaceModule id m.canonical).invoke fuel function args = run' at hruns
  cases hruns with
  | none => exact ⟨rfl, fun _ => rfl⟩
  | some h =>
    refine ⟨congrArg some h.observation, fun htraced => ?_⟩
    exact congrArg some (h.effects.untraced htraced).symm

/-- A domain into which the sample module is loaded. -/
def quotedNameDomain : Domain :=
  ({} : Domain).install.bind .application Module.quotedName
    [("a; b", .double ⟨0x3fb999999999999a⟩), ("main", .function ⟨0, 0⟩)]

theorem reassembled_quotedName_runs_alike :
    Module.quotedName.Printable ∧ quotedNameDomain.module? 0 = some Module.quotedName ∧
      ∃ m', Module.assemble Module.quotedName.disassemble Module.quotedName.label = .ok m' ∧
        ((quotedNameDomain.replaceModule 0 m').invoke 20 (.function ⟨0, 1⟩) []).map Outcome.observation =
            (quotedNameDomain.invoke 20 (.function ⟨0, 1⟩) []).map Outcome.observation ∧
          (quotedNameDomain.options.traceInterpreter = false →
            ((quotedNameDomain.replaceModule 0 m').invoke 20 (.function ⟨0, 1⟩) []).map Outcome.effects =
              (quotedNameDomain.invoke 20 (.function ⟨0, 1⟩) []).map Outcome.effects) := by
  have hassembled := Module.assemble_disassemble Module.printable_quotedName
  have hloaded : quotedNameDomain.module? 0 = some Module.quotedName := rfl
  exact ⟨Module.printable_quotedName, hloaded, _, hassembled,
    reassembled_module_runs_alike Module.printable_quotedName hloaded hassembled 20 (.function ⟨0, 1⟩) []⟩

end MovieVm
