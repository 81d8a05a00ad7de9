import Mathlib.Data.List.Basic
import MovieVm.Proofs.Lives
import MovieVm.Proofs.Lockstep

/-!
# Domains with other options

Two domains that differ only in their options run the same code in the same way. Tracing adds lines and nothing else.
A domain that verifies its modules goes the way of one that does not, unless a module is rejected, and then the
operation ends with that error.
-/

namespace MovieVm

open Bytecode

/-- Whatever the first options trace, the others trace as well. -/
def DomainOptions.TracesAtMost (o o' : DomainOptions) : Prop :=
  (o.traceRuntime = true → o'.traceRuntime = true) ∧ (o.traceInterpreter = true → o'.traceInterpreter = true)

/-- Modules are verified under the first options only. -/
def DomainOptions.Skips (o o' : DomainOptions) : Prop :=
  o.release = false ∧ o'.release = true

/-! ## Effects -/

/-- The same events for the host. The lines of the one are among those of the other when it traces at most as much. -/
structure Effects.Twins (o o' : DomainOptions) (effects effects' : Effects) : Prop where
  events : effects'.hostEvents = effects.hostEvents
  fewer : o.TracesAtMost o' → effects.toList.Sublist effects'.toList
  more : o'.TracesAtMost o → effects'.toList.Sublist effects.toList

variable {o o' : DomainOptions}

namespace Effects

variable {effects effects' more more' : Effects}

theorem Twins.refl (effects : Effects) : Twins o o' effects effects :=
  ⟨rfl, fun _ => .refl _, fun _ => .refl _⟩

theorem hostEvents_append (effects more : Effects) :
    hostEvents (effects ++ more) = effects.hostEvents ++ more.hostEvents := by
  rw [hostEvents, Array.toList_append, List.filter_append]
  rfl

theorem Twins.append (h : Twins o o' effects effects') (hmore : Twins o o' more more') :
    Twins o o' (effects ++ more) (effects' ++ more') where
  events := by rw [hostEvents_append, hostEvents_append, h.events, hmore.events]
  fewer htraces := by
    rw [Array.toList_append, Array.toList_append]
    exact (h.fewer htraces).append (hmore.fewer htraces)
  more htraces := by
    rw [Array.toList_append, Array.toList_append]
    exact (h.more htraces).append (hmore.more htraces)

/-- A line that each side writes when its options say so. -/
theorem Twins.line {traces traces' : Bool} (hfewer : o.TracesAtMost o' → traces = true → traces' = true)
    (hmore : o'.TracesAtMost o → traces' = true → traces = true) (text : String) :
    Twins o o' (if traces then #[.line text] else #[]) (if traces' then #[.line text] else #[]) where
  events := by cases traces <;> cases traces' <;> rfl
  fewer htraces := by
    cases traces with
    | false => exact List.nil_sublist _
    | true => rw [hfewer htraces rfl]
  more htraces := by
    cases traces' with
    | false => exact List.nil_sublist _
    | true => rw [hmore htraces rfl]

end Effects

/-! ## Domains -/

/-- Whether an operation ended because a module was rejected. -/
def Outcome.isRejection (x : Outcome Value) : Bool :=
  match x.result with
  | .ok _ => false
  | .error e => e.kind = .verifyError

namespace Domain

/-- The same domain under the options `o` and `o'`. -/
structure Twins (o o' : DomainOptions) (d d' : Domain) : Prop where
  options : d.options = o
  same : d' = { d with options := o' }

variable {d d' : Domain}

theorem Twins.setGlobal (h : Twins o o' d d') (scope : Scope) (name : String) (v : Value) :
    Twins o o' (d.setGlobal scope name v) (d'.setGlobal scope name v) := by
  obtain ⟨rfl, rfl⟩ := h
  cases scope <;> exact ⟨rfl, rfl⟩

theorem Twins.setMark (h : Twins o o' d d') (entry : Nat) (mark : EntryMark) :
    Twins o o' (d.setMark entry mark) (d'.setMark entry mark) := by
  obtain ⟨rfl, rfl⟩ := h
  cases mark <;> exact ⟨rfl, rfl⟩

theorem Twins.failed (h : Twins o o' d d') (purpose : Purpose) (e : VmError) :
    Twins o o' (purpose.failed d e) (purpose.failed d' e) := by
  cases purpose with
  | call => exact h
  | catalogEntry entry _ _ => exact h.setMark entry (.failed e)

theorem Twins.result (h : Twins o o' d d') (purpose : Purpose) (v : Value) :
    purpose.result d' v = purpose.result d v := by
  obtain ⟨rfl, rfl⟩ := h
  cases purpose <;> rfl

/-- Natives do not look at the options. -/
theorem Twins.call (h : Twins o o' d d') (name : String) (args : List Value) :
    Natives.call d' name args = Natives.call d name args := by
  obtain ⟨rfl, rfl⟩ := h
  rfl

theorem Twins.install (h : Twins o o' d d') : Twins o o' d.install d'.install := by
  obtain ⟨rfl, rfl⟩ := h
  unfold Domain.install
  split
  · exact ⟨rfl, rfl⟩
  · exact ⟨rfl, rfl⟩

theorem Twins.bind (h : Twins o o' d d') (scope : Scope) (m : Module) (values : List (String × Value)) :
    Twins o o' (d.bind scope m values) (d'.bind scope m values) := by
  obtain ⟨rfl, rfl⟩ := h
  cases scope <;> exact ⟨rfl, rfl⟩

theorem Twins.loadTrace (h : Twins o o' d d') (scope : Scope) (m : Module) :
    Effects.Twins o o' (d.loadTrace scope m) (d'.loadTrace scope m) := by
  obtain ⟨rfl, rfl⟩ := h
  exact .line (fun htraces => htraces.1) (fun htraces => htraces.1) _

/-- A module that is loaded into both: it is rejected where it is verified, or has no value for a definition, or
leaves the domains the same. -/
inductive Loads (o o' : DomainOptions) :
    Effects × Except VmError (Nat × Domain) → Effects × Except VmError (Nat × Domain) → Prop where
  | rejected {effects : Effects} {e : VmError} {answer : Effects × Except VmError (Nat × Domain)}
    (hskips : o.Skips o') (hkind : e.kind = .verifyError) : Loads o o' (effects, .error e) answer
  | failed {effects effects' : Effects} {e : VmError} (heffects : effects.Twins o o' effects') :
    Loads o o' (effects, .error e) (effects', .error e)
  | loaded {effects effects' : Effects} {id : Nat} {d d' : Domain} (heffects : effects.Twins o o' effects')
    (hd : d.Twins o o' d') : Loads o o' (effects, .ok (id, d)) (effects', .ok (id, d'))

/-- Behind the verifier both go on in the same way. -/
theorem Twins.loads_bindings (h : Twins o o' d d') (scope : Scope) (m : Module) :
    Loads o o' (d.loadTrace scope m, (bindings m d.modules.size m.definitions).map
        fun values => (d.modules.size, d.bind scope m values))
      (d'.loadTrace scope m, (bindings m d'.modules.size m.definitions).map
        fun values => (d'.modules.size, d'.bind scope m values)) := by
  have hsize : d'.modules.size = d.modules.size := by rw [h.same]
  rw [hsize]
  cases bindings m d.modules.size m.definitions with
  | error e => exact .failed (h.loadTrace scope m)
  | ok values => exact .loaded (h.loadTrace scope m) (h.bind scope m values)

theorem kind_of_verifyFault {m : Module} {e : VmError} (h : verifyFault m = some e) : e.kind = .verifyError := by
  unfold verifyFault at h
  split at h
  · cases h
  · cases h
    rfl

theorem Twins.load (h : Twins o o' d d') (hrelease : o.release = o'.release ∨ o.Skips o') (scope : Scope) (m : Module) :
    Loads o o' (d.load scope m) (d'.load scope m) := by
  have hbehind := h.loads_bindings scope m
  have hleft : d.options.release = o.release := by rw [h.options]
  have hright : d'.options.release = o'.release := by rw [h.same]
  unfold Domain.load
  rw [hleft, hright]
  rcases hrelease with hsame | hskips
  · rw [hsame]
    split
    · exact .failed (.refl _)
    · exact hbehind
  · rw [hskips.1, hskips.2]
    cases hfault : verifyFault m with
    | none => exact hbehind
    | some e => exact .rejected hskips (kind_of_verifyFault hfault)

end Domain

/-! ## Machines -/

/-- The machines agree on everything but the options and the lines. -/
structure Machine.Twins (o o' : DomainOptions) (m m' : Machine) : Prop where
  domain : m.domain.Twins o o' m'.domain
  effects : m.effects.Twins o o' m'.effects
  frames : m'.frames = m.frames
  base : m'.base = m.base

structure Outcome.Twins (o o' : DomainOptions) (x x' : Outcome Value) : Prop where
  domain : x.domain.Twins o o' x'.domain
  effects : x.effects.Twins o o' x'.effects
  result : x'.result = x.result

inductive Turn.Twins (o o' : DomainOptions) : Turn → Turn → Prop where
  | running {m m' : Machine} (h : m.Twins o o' m') : Twins o o' (.running m) (.running m')
  | finished {x x' : Outcome Value} (h : x.Twins o o' x') : Twins o o' (.finished x) (.finished x')

/-- Turns that agree, or the first has ended because of a module that the other does not look at. -/
inductive Turn.Tracks (o o' : DomainOptions) : Turn → Turn → Prop where
  | twins {t t' : Turn} (h : t.Twins o o' t') : Tracks o o' t t'
  | rejected {x : Outcome Value} {t : Turn} (hskips : o.Skips o') (h : x.isRejection = true) :
    Tracks o o' (.finished x) t

theorem Turn.Tracks.running {m m' : Machine} (h : m.Twins o o' m') : Turn.Tracks o o' (.running m) (.running m') :=
  .twins (.running h)

theorem Turn.Tracks.finished {x x' : Outcome Value} (h : x.Twins o o' x') :
    Turn.Tracks o o' (.finished x) (.finished x') :=
  .twins (.finished h)

namespace Machine

variable {m m' : Machine}

theorem Twins.addEffects (h : m.Twins o o' m') {effects effects' : Effects} (heffects : effects.Twins o o' effects') :
    (m.addEffects effects).Twins o o' (m'.addEffects effects') :=
  { h with effects := h.effects.append heffects }

theorem Twins.withDomain (h : m.Twins o o' m') {d d' : Domain} (hd : d.Twins o o' d') :
    Machine.Twins o o' { m with domain := d } { m' with domain := d' } :=
  { h with domain := hd }

theorem Twins.withFrames (h : m.Twins o o' m') (frames : List Frame) :
    Machine.Twins o o' { m with frames } { m' with frames } :=
  { h with frames := rfl }

theorem Twins.depth (h : m.Twins o o' m') : m'.depth = m.depth := by
  rw [Machine.depth, Machine.depth, h.base, h.frames]

/-- A result goes the same way through the frames. -/
theorem Twins.deliverTo (h : m.Twins o o' m') (result : Except VmError Value) (frames : List Frame) :
    Turn.Tracks o o' (m.deliverTo result frames) (m'.deliverTo result frames) := by
  induction frames generalizing m m' result with
  | nil => exact .finished ⟨h.domain, h.effects, rfl⟩
  | cons f rest ih =>
    cases result with
    | ok v => exact .running (h.withFrames _)
    | error e => exact ih (h.withDomain (h.domain.failed f.purpose _)) _

theorem Twins.deliver (h : m.Twins o o' m') (result : Except VmError Value) :
    Turn.Tracks o o' (m.deliver result) (m'.deliver result) := by
  rw [Machine.deliver, Machine.deliver, h.frames]
  exact h.deliverTo result m.frames

theorem Twins.refuse (h : m.Twins o o' m') (purpose : Purpose) (e : VmError) :
    Turn.Tracks o o' (m.refuse purpose e) (m'.refuse purpose e) :=
  (h.withDomain (h.domain.failed purpose e)).deliver _

/-- No frame stops an error, so a rejected module ends the operation. -/
theorem deliverTo_rejection {e : VmError} (hkind : e.kind = .verifyError) (m : Machine) (frames : List Frame) :
    ∃ x, m.deliverTo (.error e) frames = .finished x ∧ x.isRejection = true := by
  induction frames generalizing m e with
  | nil => exact ⟨_, rfl, decide_eq_true hkind⟩
  | cons f rest ih => exact ih (e := e.withFrame f.activation.frame) hkind _

theorem tracks_refuse (hskips : o.Skips o') {e : VmError} (hkind : e.kind = .verifyError) (m : Machine)
    (purpose : Purpose) (t : Turn) : Turn.Tracks o o' (m.refuse purpose e) t := by
  obtain ⟨x, hfinished, hx⟩ :=
    deliverTo_rejection hkind { m with domain := purpose.failed m.domain e } m.frames
  rw [refuse, deliver, hfinished]
  exact .rejected hskips hx

/-! ## Calls and globals -/

theorem Twins.enter (h : m.Twins o o' m') (purpose : Purpose) (function : FunctionRef) (args : List Value) :
    Turn.Tracks o o' (m.enter purpose function args) (m'.enter purpose function args) := by
  have hloaded : m'.domain.loaded function.module = m.domain.loaded function.module := by
    rw [h.domain.same]
    rfl
  unfold Machine.enter
  rw [h.depth, hloaded, h.frames]
  split
  · exact h.refuse purpose _
  · split
    · exact h.refuse purpose _
    · split
      · exact h.refuse purpose _
      · exact .running (h.withFrames _)

theorem Twins.call (h : m.Twins o o' m') (callee : Value) (args : List Value) :
    Turn.Tracks o o' (m.call callee args) (m'.call callee args) := by
  cases callee with
  | function f => exact h.enter .call f args
  | native name =>
    simp only [Machine.call, h.domain.call]
    exact (h.addEffects (.refl _)).deliver _
  | _ => exact h.deliver _

theorem Twins.catalogTrace (h : m.Twins o o' m') (symbol label : String) :
    Effects.Twins o o' (m.catalogTrace symbol label) (m'.catalogTrace symbol label) := by
  have hleft : m.domain.options.traceRuntime = o.traceRuntime := by rw [h.domain.options]
  have hright : m'.domain.options.traceRuntime = o'.traceRuntime := by rw [h.domain.same]
  rw [Machine.catalogTrace, Machine.catalogTrace, hleft, hright]
  exact .line (fun htraces => htraces.1) (fun htraces => htraces.1) _

section

variable (hrelease : o.release = o'.release ∨ o.Skips o')
include hrelease

theorem Twins.boot (h : m.Twins o o' m') (purpose : Purpose) (module : Module) :
    Turn.Tracks o o' (m.boot purpose module) (m'.boot purpose module) := by
  have hloads := h.domain.load hrelease .system module
  unfold Machine.boot
  generalize m.domain.load .system module = left, m'.domain.load .system module = right at hloads
  cases hloads with
  | rejected hskips hkind => exact tracks_refuse hskips hkind _ purpose _
  | failed heffects => exact (h.addEffects heffects).refuse purpose _
  | loaded heffects hd => exact ((h.addEffects heffects).withDomain hd).enter purpose _ _

theorem Twins.loadEntry (h : m.Twins o o' m') (catalog : Catalog) (entry : Nat) (symbol : String) (requester : Scope) :
    Turn.Tracks o o' (m.loadEntry catalog entry symbol requester) (m'.loadEntry catalog entry symbol requester) := by
  have hmarked := h.withDomain (h.domain.setMark entry .loaded)
  cases hload : catalog.load entry with
  | error e =>
    simp only [Machine.loadEntry, hload]
    exact hmarked.refuse _ _
  | ok module =>
    rw [loadEntry_of_ok hload, loadEntry_of_ok hload]
    exact (hmarked.addEffects (hmarked.catalogTrace symbol module.label)).boot hrelease _ module

theorem Twins.resolve (h : m.Twins o o' m') (scope : Scope) (name : String) :
    Turn.Tracks o o' (m.resolve scope name) (m'.resolve scope name) := by
  have hglobal : m'.domain.getGlobal? scope name = m.domain.getGlobal? scope name := by
    rw [h.domain.same]
    cases scope <;> rfl
  have hcatalog : m'.domain.catalog = m.domain.catalog := by rw [h.domain.same]
  have hentry : m'.domain.entryFor? name = m.domain.entryFor? name := by
    rw [h.domain.same]
    rfl
  have hmark : m'.domain.mark? = m.domain.mark? := by
    rw [h.domain.same]
    rfl
  unfold Machine.resolve
  rw [hglobal, hcatalog, hentry, hmark]
  split
  · exact h.deliver _
  · split
    · split
      · exact h.deliver _
      · exact h.deliver _
      · exact h.loadEntry hrelease _ _ _ _
    · exact h.deliver _

/-! ## Steps -/

theorem Twins.serve (h : m.Twins o o' m') (f : Frame) (rest : List Frame) (request : Activation.Request) :
    Turn.Tracks o o' (m.serve f rest request) (m'.serve f rest request) := by
  have hwaiting := h.withFrames (f :: rest)
  cases request with
  | proceed => exact .running hwaiting
  | readGlobal name => exact hwaiting.resolve hrelease f.scope name
  | writeGlobal name v => exact .running (hwaiting.withDomain (h.domain.setGlobal f.scope name v))
  | call callee args => exact hwaiting.call callee args
  | finish v =>
    rw [Machine.serve, Machine.serve, h.domain.result]
    exact (h.withFrames rest).deliver _

end

theorem Twins.instructionTrace (h : m.Twins o o' m') (a : Activation) (i : Instruction) :
    Effects.Twins o o' (m.instructionTrace a i) (m'.instructionTrace a i) := by
  have hleft : m.domain.options.traceInterpreter = o.traceInterpreter := by rw [h.domain.options]
  have hright : m'.domain.options.traceInterpreter = o'.traceInterpreter := by rw [h.domain.same]
  rw [Machine.instructionTrace, Machine.instructionTrace, hleft, hright]
  exact .line (fun htraces => htraces.2) (fun htraces => htraces.2) _

theorem Twins.step (h : m.Twins o o' m') (hrelease : o.release = o'.release ∨ o.Skips o') :
    Turn.Tracks o o' m.step m'.step := by
  unfold Machine.step
  rw [h.frames]
  cases m.frames with
  | nil => exact h.deliver _
  | cons f rest =>
    simp only
    cases Activation.fetch f.activation with
    | error e _ => exact h.deliver _
    | ok fetched a =>
      cases fetched with
      | none => exact h.serve hrelease f rest _
      | some i =>
        have htraced := h.addEffects (h.instructionTrace f.activation i)
        simp only
        cases Activation.execute i a with
        | ok request b => exact htraced.serve hrelease { f with activation := b } rest request
        | error e b => exact (htraced.withFrames ({ f with activation := b } :: rest)).deliver _

end Machine

/-! ## Demands -/

namespace Demand

variable {d d' : Domain}

theorem tracks (h : d.Twins o o' d') (hrelease : o.release = o'.release ∨ o.Skips o') (demand : Demand) :
    Turn.Tracks o o' (demand.start d) (demand.start d') := by
  have hstart : ∀ depth, Machine.Twins o o' { domain := d, base := depth } { domain := d', base := depth } :=
    fun _ => ⟨h, .refl _, rfl, rfl⟩
  cases demand with
  | invoke function args => exact (hstart 0).call function args
  | resolve scope name depth => exact (hstart depth).resolve hrelease scope name
  | execute id =>
    have hready : d'.isInitialized = d.isInitialized := by rw [h.same]
    have hmodule : d'.module? id = d.module? id := by
      rw [h.same]
      rfl
    simp only [start, hready, hmodule]
    split
    · exact .finished ⟨h, .refl _, rfl⟩
    · split
      · exact .finished ⟨h, .refl _, rfl⟩
      · exact (hstart 0).enter _ _ _

end Demand

/-! ## Runs of domains that both verify or both do not -/

theorem Turn.Tracks.twins_of_eq {t t' : Turn} (h : t.Tracks o o' t') (hsame : o.release = o'.release) :
    t.Twins o o' t' := by
  cases h with
  | twins h => exact h
  | rejected hskips =>
    rw [hskips.1, hskips.2] at hsame
    cases hsame

/-- Both runs take the same number of steps. -/
theorem Turn.Twins.run {t t' : Turn} (h : t.Twins o o' t') (hsame : o.release = o'.release) (fuel : Nat) :
    Option.Rel (Outcome.Twins o o') (t.run fuel) (t'.run fuel) := by
  induction fuel generalizing t t' with
  | zero =>
    cases h with
    | running h => exact .none
    | finished h => exact .some h
  | succ fuel ih =>
    cases h with
    | running h => exact ih ((h.step (.inl hsame)).twins_of_eq hsame)
    | finished h => exact .some h

namespace Domain

variable {d d' : Domain}

theorem Twins.run (h : d.Twins o o' d') (hsame : o.release = o'.release) (fuel : Nat) (demand : Demand) :
    Option.Rel (Outcome.Twins o o') (demand.run d fuel) (demand.run d' fuel) := by
  rw [demand.run_eq, demand.run_eq]
  exact ((demand.tracks h (.inl hsame)).twins_of_eq hsame).run hsame fuel

end Domain

end MovieVm
