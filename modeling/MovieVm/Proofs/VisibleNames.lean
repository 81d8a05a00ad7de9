import Mathlib.Tactic.Tauto
import MovieVm.Proofs.Globals
import MovieVm.Proofs.Lives

/-!
# Visible names

Nothing ever takes a global away. A name is visible to a scope exactly if it has been stored there or in the system
scope, a module that was loaded into one of them defines it, or it is one of the natives.
-/

namespace MovieVm

open Bytecode

/-- Code of a scope sees the globals of its own scope and those of the system. -/
def Scope.Sees (scope target : Scope) : Prop :=
  target = scope ∨ target = .system

instance (scope target : Scope) : Decidable (scope.Sees target) :=
  inferInstanceAs (Decidable (_ ∨ _))

namespace Event

/-- Whether the event stores the name in a scope that is seen. -/
def Stores (scope : Scope) (name : String) : Event → Prop
  | .stored target key _ => scope.Sees target ∧ name = key
  | _ => False

/-- Whether the event brings in a definition of the name: a native, or one of a module that is loaded into a scope that
is seen. -/
def Defines (scope : Scope) (name : String) : Event → Prop
  | .installed => name ∈ Domain.nativeNames
  | .loaded target m => scope.Sees target ∧ name ∈ m.definitionNames
  | _ => False

instance (scope : Scope) (name : String) : DecidablePred (Stores scope name)
  | .stored target key _ => inferInstanceAs (Decidable (scope.Sees target ∧ name = key))
  | .attached _ | .installed | .loaded .. | .attempted .. | .called _ | .returned _ | .aged _ =>
    inferInstanceAs (Decidable False)

instance (scope : Scope) (name : String) : DecidablePred (Defines scope name)
  | .installed => inferInstanceAs (Decidable (name ∈ Domain.nativeNames))
  | .loaded target m => inferInstanceAs (Decidable (scope.Sees target ∧ name ∈ m.definitionNames))
  | .attached _ | .stored .. | .attempted .. | .called _ | .returned _ | .aged _ =>
    inferInstanceAs (Decidable False)

def Binds (scope : Scope) (name : String) (event : Event) : Prop :=
  event.Stores scope name ∨ event.Defines scope name

end Event

/-! ## Globals -/

theorem Globals.isSome_set (g : Globals) (name : String) (v : Value) (key : String) :
    ((g.set name v).get? key).isSome ↔ key = name ∨ (g.get? key).isSome := by
  rw [get?_set]
  by_cases h : key = name <;> simp [h]

theorem Globals.isSome_foldl_set (g : Globals) (values : List (String × Value)) (key : String) :
    (Globals.get? (values.foldl (fun g (name, v) => Globals.set g name v) g) key).isSome ↔
      key ∈ values.map (·.1) ∨ (g.get? key).isSome := by
  induction values generalizing g with
  | nil => simp
  | cons value values ih =>
    rw [List.foldl_cons, ih, isSome_set, List.map_cons, List.mem_cons]
    tauto

namespace Domain

variable {d : Domain} {scope target : Scope} {name : String}

/-- A name becomes visible when a scope that is seen gets it. -/
theorem isSome_updateScope {f : Namespace → Namespace} {p : String → Prop}
    (hf : ∀ ns name, ((f ns).globals.get? name).isSome ↔ p name ∨ (ns.globals.get? name).isSome) :
    ((d.updateScope target f).getGlobal? scope name).isSome ↔
      scope.Sees target ∧ p name ∨ (d.getGlobal? scope name).isSome := by
  cases target <;> cases scope <;> simp [getGlobal?, updateScope, Scope.Sees, hf] <;> tauto

theorem isSome_setGlobal (v : Value) (key : String) :
    ((d.setGlobal target key v).getGlobal? scope name).isSome ↔
      scope.Sees target ∧ name = key ∨ (d.getGlobal? scope name).isSome :=
  isSome_updateScope (p := (· = key)) fun ns _ => ns.globals.isSome_set _ _ _

theorem isSome_install (h : d.isInitialized = false) :
    (d.install.getGlobal? scope name).isSome ↔ name ∈ nativeNames ∨ (d.getGlobal? scope name).isSome := by
  have hnatives : ∀ names : List String, ∀ d : Domain,
      ((names.foldl (fun d name => d.setGlobal .system name (.native name)) d).getGlobal? scope name).isSome ↔
        name ∈ names ∨ (d.getGlobal? scope name).isSome := by
    intro names
    induction names with
    | nil => simp
    | cons key names ih =>
      intro d
      rw [List.foldl_cons, ih, isSome_setGlobal, List.mem_cons]
      have hsees : scope.Sees .system := .inr rfl
      tauto
  rw [← hnatives nativeNames d, install, h]
  cases scope <;> rfl

/-- The names that a load binds are those of the definitions. -/
theorem names_of_bindings {m : Module} {id : Nat} {definitions : List Definition} {values : List (String × Value)}
    (h : bindings m id definitions = .ok values) :
    values.map (·.1) = definitions.filterMap fun definition => (m.stringConstant definition.name).toOption := by
  induction definitions generalizing values with
  | nil =>
    cases h
    rfl
  | cons definition rest ih =>
    unfold bindings at h
    split at h
    · cases h
    · rename_i name hname
      obtain ⟨v, _, h⟩ := Except.bind_eq_ok.1 h
      obtain ⟨more, hmore, h⟩ := Except.bind_eq_ok.1 h
      cases h
      rw [List.map_cons, ih hmore, List.filterMap_cons, hname]
      rfl

theorem isSome_withModule {m : Module} {values : List (String × Value)}
    (h : bindings m d.modules.size m.definitions = .ok values) :
    ((d.withModule target m).getGlobal? scope name).isSome ↔
      scope.Sees target ∧ name ∈ m.definitionNames ∨ (d.getGlobal? scope name).isSome := by
  have hnames : m.definitionNames = values.map (·.1) := (names_of_bindings h).symm
  rw [withModule, h, hnames]
  have hbound : ((d.updateScope target fun ns => { ns with
        globals := values.foldl (fun g (name, v) => g.set name v) ns.globals
        modules := ns.modules.push d.modules.size }).getGlobal? scope name).isSome ↔
      scope.Sees target ∧ name ∈ values.map (·.1) ∨ (d.getGlobal? scope name).isSome :=
    isSome_updateScope fun ns name => ns.globals.isSome_foldl_set values name
  rw [← hbound]
  cases target <;> cases scope <;> rfl

/-- An event makes the names visible that it binds, and hides none. -/
theorem isSome_apply {purposes : List Purpose} {event : Event} (hallowed : event.Allowed d purposes) :
    ((d.apply event).getGlobal? scope name).isSome ↔
      event.Binds scope name ∨ (d.getGlobal? scope name).isSome := by
  cases event with
  | installed => simpa [Event.Binds, Event.Stores, Event.Defines, apply] using isSome_install hallowed
  | stored target key v => simpa [Event.Binds, Event.Stores, Event.Defines, apply] using isSome_setGlobal v key
  | loaded target m =>
    obtain ⟨values, hvalues⟩ := hallowed
    simpa [Event.Binds, Event.Stores, Event.Defines, apply] using isSome_withModule hvalues
  | _ => cases scope <;> simp [Event.Binds, Event.Stores, Event.Defines, apply, getGlobal?, setMark]

theorem getGlobal?_failed (purpose : Purpose) (d : Domain) (e : VmError) :
    (purpose.failed d e).getGlobal? scope name = d.getGlobal? scope name := by
  cases purpose <;> cases scope <;> rfl

end Domain

/-! ## Lives -/

/-- The visible names are those that the record says were bound. -/
theorem kept_visible (scope : Scope) (name : String) : Kept fun d _ record =>
    (d.getGlobal? scope name).isSome ↔ ∃ event ∈ record, event.Binds scope name where
  event {d purposes record} h event hallowed := by
    rw [Domain.isSome_apply hallowed, h]
    simp only [List.mem_append, List.mem_singleton]
    constructor
    · rintro (hbinds | ⟨earlier, hmem, hbinds⟩)
      · exact ⟨event, .inr rfl, hbinds⟩
      · exact ⟨earlier, .inl hmem, hbinds⟩
    · rintro ⟨other, hmem | rfl, hbinds⟩
      · exact .inr ⟨other, hmem, hbinds⟩
      · exact .inl hbinds
  left {d purpose purposes record} h e := by
    rw [Domain.getGlobal?_failed]
    exact h

theorem Life.visible (options : DomainOptions) (acts : List Act) (scope : Scope) (name : String) :
    (((Life.new options).after acts).turn.domain.getGlobal? scope name).isSome ↔
      ∃ event ∈ ((Life.new options).after acts).record, event.Binds scope name := by
  refine (kept_visible scope name).holds ?_ acts
  cases scope <;> simp [Domain.getGlobal?, Globals.get?]

end MovieVm
