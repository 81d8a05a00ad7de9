import MovieVm.Proofs.Codec
import MovieVm.Proofs.Globals
import MovieVm.Proofs.Record
import MovieVm.Proofs.ValueFlow

/-!
# Domains without dangling references

The functions among the globals of a domain are methods of its modules. A load adds a module whose references have been
checked, and binds functions of that module only.
-/

namespace MovieVm

open Bytecode

/-! ## Domains -/

/-- All values of the globals are known. -/
def Globals.Known (modules : Array LoadedModule) (g : Globals) : Prop :=
  ∀ entry ∈ g, entry.2.Known modules

namespace Globals

variable {modules : Array LoadedModule} {g : Globals} {name : String} {v : Value}

theorem Known.get? (h : g.Known modules) (hget : g.get? name = some v) : v.Known modules :=
  h _ (mem_of_get? hget)

theorem Known.set (h : g.Known modules) (hv : v.Known modules) : (g.set name v).Known modules := by
  intro entry hentry
  obtain rfl | hold := mem_set hentry
  · exact hv
  · exact h entry hold

theorem Known.foldl_set {values : List (String × Value)} (h : g.Known modules)
    (hvalues : ∀ entry ∈ values, entry.2.Known modules) :
    Known modules (values.foldl (fun g (name, v) => Globals.set g name v) g) := by
  induction values generalizing g with
  | nil => exact h
  | cons value values ih =>
    obtain ⟨hvalue, hrest⟩ := List.forall_mem_cons.1 hvalues
    exact ih (h.set hvalue) hrest

theorem Known.push (h : g.Known modules) (loaded : LoadedModule) : g.Known (modules.push loaded) :=
  fun entry hentry => (h entry hentry).push loaded

end Globals

/-- The modules refer to what exists, the globals are known values, and no entry has failed because of a dangling
reference. -/
structure Domain.Grounded (d : Domain) : Prop where
  modules : ∀ loaded ∈ d.modules, loaded.module.Resolved
  system : d.system.globals.Known d.modules
  application : d.application.globals.Known d.modules
  failures : ∀ entry ∈ d.failedEntries, ¬ entry.2.Dangling

namespace Domain

variable {d : Domain} {scope : Scope} {name : String} {v : Value} {m : Module}

theorem grounded_new (options : DomainOptions) : Domain.Grounded { options } where
  modules := nofun
  system := nofun
  application := nofun
  failures := nofun

theorem Grounded.getGlobal? (h : d.Grounded) (hget : d.getGlobal? scope name = some v) : v.Known d.modules := by
  cases scope with
  | system => exact h.system.get? hget
  | application =>
    obtain happlication | ⟨_, hsystem⟩ := Option.or_eq_some_iff.1 hget
    · exact h.application.get? happlication
    · exact h.system.get? hsystem

theorem Grounded.lookup (h : d.Grounded) (scope : Scope) (name : String) :
    Answers d.modules (d.lookup scope name) := by
  unfold Domain.lookup
  cases hget : d.getGlobal? scope name with
  | some v => exact h.getGlobal? hget
  | none =>
    simp only
    split
    · rename_i e hmark
      obtain ⟨entry, _, hmark⟩ := Option.bind_eq_some_iff.1 hmark
      obtain ⟨before, after, hfailures, _⟩ := List.lookup_eq_some_iff.1 (mark?_eq_failed.1 hmark)
      exact h.failures (entry, e) (hfailures ▸ List.mem_append_right _ List.mem_cons_self)
    · exact VmError.not_dangling_of_kind nofun

theorem Grounded.setMark (h : d.Grounded) (entry : Nat) {mark : EntryMark}
    (hmark : ∀ e, mark = .failed e → ¬ e.Dangling) : (d.setMark entry mark).Grounded := by
  cases mark with
  | loaded => exact ⟨h.modules, h.system, h.application, h.failures⟩
  | failed e =>
    refine ⟨h.modules, h.system, h.application, List.forall_mem_cons.2 ⟨hmark e rfl, fun other hother => ?_⟩⟩
    exact h.failures other (List.mem_filter.1 hother).1

theorem Grounded.failed (h : d.Grounded) (purpose : Purpose) {e : VmError} (he : ¬ e.Dangling) :
    (purpose.failed d e).Grounded := by
  cases purpose with
  | call => exact h
  | catalogEntry entry symbol requester =>
    have hmark : ∀ e', EntryMark.failed e = .failed e' → ¬ e'.Dangling := fun e' he' => EntryMark.failed.inj he' ▸ he
    exact h.setMark entry hmark

theorem Grounded.attached (h : d.Grounded) (catalog : Catalog) : Grounded { d with catalog := some catalog } :=
  ⟨h.modules, h.system, h.application, h.failures⟩

theorem Grounded.aged (h : d.Grounded) (elapsed : Nat) : Grounded { d with elapsed } :=
  ⟨h.modules, h.system, h.application, h.failures⟩

/-- A scope whose globals get other known values. -/
theorem Grounded.updateScope (h : d.Grounded) {f : Namespace → Namespace}
    (hf : (f (d.scope scope)).globals.Known d.modules) : (d.updateScope scope f).Grounded := by
  cases scope with
  | system => exact ⟨h.modules, hf, h.application, h.failures⟩
  | application => exact ⟨h.modules, h.system, hf, h.failures⟩

theorem Grounded.known_scope (h : d.Grounded) (scope : Scope) : (d.scope scope).globals.Known d.modules := by
  cases scope with
  | system => exact h.system
  | application => exact h.application

theorem Grounded.setGlobal (h : d.Grounded) (hv : v.Known d.modules) : (d.setGlobal scope name v).Grounded :=
  h.updateScope ((h.known_scope scope).set hv)

/-- What holds of a domain and survives the binding of a native holds of the domain with all of them. -/
theorem install_induction {P : Domain → Prop} (h : P d)
    (hset : ∀ (d : Domain) (name : String), P d → P (d.setGlobal .system name (.native name)))
    (hready : ∀ d : Domain, P d → P { d with isInitialized := true }) : P d.install := by
  have hnatives : ∀ names : List String, ∀ d : Domain, P d →
      P (names.foldl (fun d name => d.setGlobal .system name (.native name)) d) := by
    intro names
    induction names with
    | nil => exact fun d h => h
    | cons name names ih => exact fun d h => ih _ (hset d name h)
  unfold Domain.install
  split
  · exact h
  · exact hready _ (hnatives nativeNames d h)

theorem Grounded.install (h : d.Grounded) : d.install.Grounded :=
  install_induction h (fun _ _ h => h.setGlobal trivial) fun _ h =>
    ⟨h.modules, h.system, h.application, h.failures⟩

/-! ## Loading modules -/

/-- A definition binds a method of the module itself. -/
theorem bindingValue_known {b : Binding} (hbinding : m.ResolvesBinding b)
    (hvalue : bindingValue m d.modules.size b = .ok v) : v.Known (d.modules.push ⟨m, scope⟩) := by
  cases b with
  | slot constant =>
    cases constant with
    | none =>
      cases hvalue
      trivial
    | some index =>
      simp only [bindingValue] at hvalue
      split at hvalue
      · cases hvalue
        exact Value.known_constant _
      · cases hvalue
  | method index =>
    cases hvalue
    exact ⟨⟨m, scope⟩, Array.getElem?_push_size, hbinding⟩

theorem bindings_known {definitions : List Definition} {values : List (String × Value)}
    (hdefinitions : ∀ definition ∈ definitions, m.ResolvesBinding definition.binding)
    (hvalues : bindings m d.modules.size definitions = .ok values) :
    ∀ entry ∈ values, entry.2.Known (d.modules.push ⟨m, scope⟩) := by
  induction definitions generalizing values with
  | nil =>
    cases hvalues
    exact nofun
  | cons definition rest ih =>
    obtain ⟨hdefinition, hrest⟩ := List.forall_mem_cons.1 hdefinitions
    unfold bindings at hvalues
    split at hvalues
    · cases hvalues
    · obtain ⟨v, hv, hvalues⟩ := Except.bind_eq_ok.1 hvalues
      obtain ⟨more, hmore, hvalues⟩ := Except.bind_eq_ok.1 hvalues
      cases hvalues
      exact List.forall_mem_cons.2 ⟨bindingValue_known hdefinition hv, ih hrest hmore⟩

theorem withModule_of_ok {values : List (String × Value)} (h : bindings m d.modules.size m.definitions = .ok values) :
    d.withModule scope m = d.bind scope m values := by
  rw [withModule, h]

theorem modules_bind (d : Domain) (scope : Scope) (m : Module) (values : List (String × Value)) :
    (d.bind scope m values).modules = d.modules.push ⟨m, scope⟩ := by
  cases scope <;> rfl

theorem Grounded.bind (h : d.Grounded) (hm : m.Resolved) {values : List (String × Value)}
    (hvalues : ∀ entry ∈ values, entry.2.Known (d.modules.push ⟨m, scope⟩)) : (d.bind scope m values).Grounded := by
  -- First the module is in the table, then the values come into its scope.
  have hpushed : Grounded { d with modules := d.modules.push ⟨m, scope⟩ } := by
    refine ⟨fun loaded hloaded => ?_, h.system.push _, h.application.push _, h.failures⟩
    obtain hold | rfl := Array.mem_push.1 hloaded
    · exact h.modules loaded hold
    · exact hm
  have hbound := hpushed.updateScope
    (f := fun ns => { ns with
      globals := values.foldl (fun g (name, v) => g.set name v) ns.globals
      modules := ns.modules.push d.modules.size })
    ((hpushed.known_scope scope).foldl_set hvalues)
  cases scope <;> exact hbound

/-- A module whose definitions have no value does not dangle for that. -/
theorem not_dangling_of_bindings {id : Nat} {definitions : List Definition} {e : VmError}
    (h : bindings m id definitions = .error e) : ¬ e.Dangling := by
  induction definitions with
  | nil => cases h
  | cons definition rest ih =>
    unfold bindings at h
    split at h
    · rename_i hname
      cases h
      exact Module.not_dangling_of_stringConstant hname
    · cases hvalue : bindingValue m id definition.binding with
      | error e' =>
        rw [hvalue] at h
        cases h
        unfold bindingValue at hvalue
        split at hvalue
        · cases hvalue
        · split at hvalue
          · cases hvalue
          · rename_i hconstant
            cases hvalue
            exact Module.not_dangling_of_constant hconstant
        · cases hvalue
      | ok v =>
        rw [hvalue, Except.ok_bind] at h
        cases hrest : bindings m id rest with
        | error e' =>
          rw [hrest] at h
          cases h
          exact ih hrest
        | ok more =>
          rw [hrest] at h
          cases h

/-- A load leaves a trace only, and fails or adds the module. -/
theorem Grounded.load (h : d.Grounded) (scope : Scope) (hm : (d.load scope m).2.isOk → m.checkReferences = .ok ()) :
    ∃ effects, (∀ modules, ∀ effect ∈ effects, Effect.Known modules effect) ∧
      ((∃ e, d.load scope m = (effects, .error e) ∧ ¬ e.Dangling) ∨
        d.load scope m = (effects, .ok (d.modules.size, d.withModule scope m)) ∧
          (d.withModule scope m).Grounded ∧ (d.withModule scope m).modules = d.modules.push ⟨m, scope⟩) := by
  unfold Domain.load at hm ⊢
  split
  · rename_i fault hfault
    refine ⟨#[], nofun, .inl ⟨fault, rfl, VmError.not_dangling_of_kind ?_⟩⟩
    split at hfault
    · cases hfault
    · unfold verifyFault at hfault
      split at hfault
      · cases hfault
      · cases hfault
        exact nofun
  · rename_i hfault
    rw [hfault] at hm
    refine ⟨d.loadTrace scope m, fun modules => Effect.known_trace, ?_⟩
    simp only at hm ⊢
    cases hbindings : bindings m d.modules.size m.definitions with
    | error e => exact .inl ⟨e, rfl, not_dangling_of_bindings hbindings⟩
    | ok values =>
      rw [hbindings] at hm
      have hresolved : m.Resolved := Module.checkReferences_eq_ok.1 (hm rfl)
      rw [withModule_of_ok hbindings]
      exact .inr ⟨rfl, h.bind hresolved (bindings_known hresolved.binding hbindings), d.modules_bind scope m values⟩

end Domain

theorem Bytecode.CatalogError.not_dangling (e : CatalogError) : ¬ (Activation.internalError e.message).Dangling := by
  cases e with
  | index =>
    exact VmError.not_dangling_of_head (c := 'i') (by rfl) (by decide) (by decide)
  | outOfRange name offset length size =>
    refine VmError.not_dangling_of_head (c := 'c') ?_ (by decide) (by decide)
    iterate 7 refine head?_append_of_eq_some ?_
    exact head?_append_of_eq_some rfl
  | module name cause =>
    refine VmError.not_dangling_of_head (c := 'c') ?_ (by decide) (by decide)
    iterate 2 refine head?_append_of_eq_some ?_
    exact head?_append_of_eq_some rfl

/-- A module of a catalog has been checked, and the failure to read it is no dangling reference. -/
theorem Bytecode.Catalog.load_grounded (catalog : Catalog) (entry : Nat) :
    match catalog.load entry with
    | .ok m => m.checkReferences = .ok ()
    | .error e => ¬ (Activation.internalError e.message).Dangling := by
  unfold load
  cases catalog.entries[entry]? with
  | none => exact CatalogError.not_dangling _
  | some e =>
    simp only
    cases hdecode : Module.decode ((catalog.bytes.drop e.offset).take e.length) e.name with
    | ok m => exact (Module.of_decode hdecode).1.references
    | error cause => exact CatalogError.not_dangling _

end MovieVm
