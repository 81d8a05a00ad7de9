import MovieVm.Proofs.Canonical
import MovieVm.Proofs.FunctionValues
import MovieVm.Proofs.Globals
import MovieVm.Proofs.ScopeStores

/-!
# The table of modules

A load either leaves both scopes and the table of modules alone, or files one more module: the table gets
it as its last one, its scope lists the new number and sees the definitions, and the other scope sees
nothing of it. So in all of a domain's life the two scopes share the numbers of the table out between them.
-/

namespace MovieVm

open Bytecode

/-! ## What the definitions of a module bind -/

namespace Bytecode.Module

/-- The value that a binding stands for in the module with number `id`. -/
def valueOf? (m : Module) (id : Nat) : Binding → Option Value
  | .slot none => some .undefined
  | .slot (some index) => m.constants[index]?.map Constant.value
  | .method method => some (.function ⟨id, method⟩)

/-- What a definition makes of a name; nothing, unless the name is its own. -/
def definedBy? (m : Module) (id : Nat) (name : String) (d : Definition) : Option Value :=
  if m.constants[d.name]? = some (.string name) then m.valueOf? id d.binding else none

/-- The value that the module with number `id` gives a name: that of the last definition with this name. -/
def definedValue? (m : Module) (id : Nat) (name : String) : Option Value :=
  m.definitions.reverse.findSome? (m.definedBy? id name)

end Bytecode.Module

namespace Domain

variable {d d' : Domain} {scope : Scope} {m : Module} {id : Nat}

theorem valueOf?_of_bindingValue {binding : Binding} {v : Value} (h : bindingValue m id binding = .ok v) :
    m.valueOf? id binding = some v := by
  unfold bindingValue at h
  split at h
  · exact congrArg some (Except.ok.inj h)
  · rename_i index
    rw [Module.valueOf?]
    unfold Module.constant at h
    cases hconstant : m.constants[index]? with
    | none =>
      rw [hconstant] at h
      cases h
    | some c =>
      rw [hconstant] at h
      exact congrArg some (Except.ok.inj h)
  · exact congrArg some (Except.ok.inj h)

/-- Definitions that are bound one after the other leave each name with the value of the last of its own. -/
theorem get?_bindings {definitions : List Definition} {values : List (String × Value)}
    (h : bindings m id definitions = .ok values) (g : Globals) (name : String) :
    (values.foldl (fun g (name, v) => g.set name v) g).get? name =
      (definitions.reverse.findSome? (m.definedBy? id name)).or (g.get? name) := by
  induction definitions generalizing values g with
  | nil =>
    cases h
    rfl
  | cons definition rest ih =>
    unfold bindings at h
    split at h
    · cases h
    · rename_i key hkey
      obtain ⟨v, hv, h⟩ := Except.bind_eq_ok.1 h
      obtain ⟨more, hmore, h⟩ := Except.bind_eq_ok.1 h
      cases h
      have hdefined : m.definedBy? id name definition = if name = key then some v else none := by
        rw [Module.definedBy?, Module.stringConstant_eq_ok.1 hkey, valueOf?_of_bindingValue hv]
        simp only [Option.some.injEq, Constant.string.injEq, eq_comm]
      rw [List.foldl_cons, ih hmore, Globals.get?_set, List.reverse_cons, List.findSome?_append,
        List.findSome?_singleton, hdefined, Option.or_assoc]
      congr 1
      split <;> rfl

/-! ## Loads -/

/-- The scopes and the table of modules are the same in both domains. -/
structure Keeps (d d' : Domain) : Prop where
  scopes : ∀ scope, d'.scope scope = d.scope scope
  modules : d'.modules = d.modules

/-- The domain `d'` has one module more than `d`, in a scope that sees its definitions. -/
structure Files (d : Domain) (scope : Scope) (m : Module) (d' : Domain) : Prop where
  modules : d'.modules = d.modules.push ⟨m, scope⟩
  listed : (d'.scope scope).modules = (d.scope scope).modules.push d.moduleCount
  globals : ∀ name, (d'.scope scope).globals.get? name =
    (m.definedValue? d.moduleCount name).or ((d.scope scope).globals.get? name)
  other : ∀ other, other ≠ scope → d'.scope other = d.scope other

theorem Keeps.refl (d : Domain) : d.Keeps d :=
  ⟨fun _ => rfl, rfl⟩

theorem Keeps.trans {d'' : Domain} (h : d.Keeps d') (h' : d'.Keeps d'') : d.Keeps d'' :=
  ⟨fun scope => (h'.scopes scope).trans (h.scopes scope), h'.modules.trans h.modules⟩

theorem keeps_setMark (d : Domain) (entry : Nat) (mark : EntryMark) : d.Keeps (d.setMark entry mark) := by
  cases mark <;> exact ⟨fun scope => by cases scope <;> rfl, rfl⟩

theorem keeps_failed (d : Domain) (purpose : Purpose) (e : VmError) : d.Keeps (purpose.failed d e) :=
  ⟨fun _ => d.scope_failed purpose e, purpose.modules_failed d e⟩

theorem keeps_unwind (d : Domain) (left : List (Purpose × VmError)) : d.Keeps (d.unwind left) := by
  induction left generalizing d with
  | nil => exact .refl d
  | cons entry rest ih => exact (d.keeps_failed entry.1 entry.2).trans (ih _)

/-- A turn that goes on with the domain leaves its scopes and its table alone, also when an error ends it. -/
theorem Keeps.of_leaves {purposes : List Purpose} {t : Turn} (h : t.Leaves d purposes) : d.Keeps t.domain := by
  cases h with
  | running hdomain hpurposes =>
    rw [Turn.domain, hdomain]
    exact .refl d
  | returned hpurposes => exact .refl d
  | failed hlength hlast => exact d.keeps_unwind _

theorem files_bind {values : List (String × Value)} (h : bindings m d.modules.size m.definitions = .ok values) :
    d.Files scope m (d.bind scope m values) where
  modules := d.modules_bind scope m values
  listed := by cases scope <;> rfl
  globals name := by
    have hget := get?_bindings h (d.scope scope).globals name
    cases scope <;> exact hget
  other _ hother := by
    have hbound : d.withModule scope m = d.bind scope m values := withModule_of_ok h
    rw [← hbound]
    exact scope_withModule hother.symm m

theorem files_withModule {values : List (String × Value)} (h : bindings m d.modules.size m.definitions = .ok values) :
    d.Files scope m (d.withModule scope m) := by
  rw [withModule_of_ok h]
  exact files_bind h

theorem files_of_load (h : (d.load scope m).2 = .ok (id, d')) : id = d.moduleCount ∧ d.Files scope m d' := by
  obtain ⟨effects, ⟨e, hload⟩ | ⟨values, hvalues, hload⟩⟩ := d.load_cases scope m
  · rw [hload] at h
    cases h
  · rw [hload] at h
    cases h
    exact ⟨rfl, files_withModule hvalues⟩

/-! ## One step after the other -/

/-- Defines names in a scope, one after the other. -/
def storeSteps (scope : Scope) (values : List (String × Value)) : EStateM VmError (Domain × Effects) Unit :=
  values.forM fun (name, v) => modify fun (d, effects) => (d.setGlobal scope name v, effects)

/-- A load on a domain and the effects so far. An error leaves all that was done before it. -/
def loadSteps (scope : Scope) (m : Module) : EStateM VmError (Domain × Effects) Nat := do
  let (d, _) ← get
  match if d.options.release then none else verifyFault m with
  | some e => throw e
  | none =>
    let id := d.modules.size
    modify fun (d, effects) => (d, effects ++ d.loadTrace scope m)
    match bindings m id m.definitions with
    | .error e => throw e
    | .ok values =>
      storeSteps scope values
      modify fun (d, effects) => (d.updateScope scope fun ns => { ns with modules := ns.modules.push id }, effects)
      modify fun (d, effects) => ({ d with modules := d.modules.push ⟨m, scope⟩ }, effects)
      return id

theorem storeSteps_apply (d : Domain) (effects : Effects) (scope : Scope) (values : List (String × Value)) :
    storeSteps scope values (d, effects) = .ok () (d.updateScope scope fun ns =>
      { ns with globals := values.foldl (fun g (name, v) => g.set name v) ns.globals }, effects) := by
  induction values generalizing d with
  | nil => cases scope <;> rfl
  | cons value values ih =>
    have hrest := ih (d.setGlobal scope value.1 value.2)
    have hstore : storeSteps scope (value :: values) (d, effects) =
        storeSteps scope values (d.setGlobal scope value.1 value.2, effects) := rfl
    rw [hstore, hrest]
    cases scope <;> rfl

theorem loadSteps_eq (d : Domain) (effects : Effects) (scope : Scope) (m : Module) :
    loadSteps scope m (d, effects) = match d.load scope m with
      | (more, .ok (id, d')) => .ok id (d', effects ++ more)
      | (more, .error e) => .error e (d, effects ++ more) := by
  unfold loadSteps load
  rw [EStateM.bind_of_ok (EStateM.get_apply _)]
  dsimp only
  cases (if d.options.release then none else verifyFault m) with
  | some e => simp
  | none =>
    dsimp only
    cases bindings m d.modules.size m.definitions with
    | error e => rfl
    | ok values =>
      have hstored := storeSteps_apply d (effects ++ d.loadTrace scope m) scope values
      refine (EStateM.bind_of_ok rfl).trans ((EStateM.bind_of_ok hstored).trans ?_)
      cases scope <;> rfl

/-- A load that fails has stored nothing, at whatever step it fails. -/
theorem keeps_of_loadSteps {effects : Effects} {e : VmError} {left : Domain × Effects}
    (h : loadSteps scope m (d, effects) = .error e left) : d.Keeps left.1 ∧ (d.load scope m).2 = .error e := by
  rw [loadSteps_eq] at h
  split at h
  · cases h
  · rename_i hload
    obtain ⟨rfl, rfl⟩ := EStateM.Result.error.inj h
    exact ⟨.refl d, congrArg Prod.snd hload⟩

theorem load_of_loadSteps {effects : Effects} {left : Domain × Effects}
    (h : loadSteps scope m (d, effects) = .ok id left) : (d.load scope m).2 = .ok (id, left.1) := by
  rw [loadSteps_eq] at h
  split at h
  · rename_i hload
    obtain ⟨rfl, rfl⟩ := EStateM.Result.ok.inj h
    exact congrArg Prod.snd hload
  · cases h

/-! ## The order of the table -/

/-- Each scope lists its own modules, in the order in which they were loaded. -/
structure Ordered (d : Domain) : Prop where
  increasing : ∀ scope, (d.scope scope).modules.toList.Pairwise (· < ·)
  agrees : ∀ scope id, id ∈ (d.scope scope).modules ↔ d.moduleScope? id = some scope

namespace Ordered

theorem new (options : DomainOptions) : Domain.Ordered { options } where
  increasing scope := by cases scope <;> exact .nil
  agrees scope id := by cases scope <;> simp [Domain.scope, moduleScope?]

theorem same (h : d.Ordered) (hmodules : d'.modules = d.modules)
    (hlists : ∀ scope, (d'.scope scope).modules = (d.scope scope).modules) : d'.Ordered where
  increasing scope := by
    rw [hlists]
    exact h.increasing scope
  agrees scope id := by
    rw [hlists, moduleScope?, hmodules]
    exact h.agrees scope id

theorem keeps (h : d.Ordered) (hkeeps : d.Keeps d') : d'.Ordered :=
  h.same hkeeps.modules fun scope => congrArg Namespace.modules (hkeeps.scopes scope)

/-- The numbers in the lists are those of the table. -/
theorem lt_moduleCount (h : d.Ordered) (hid : id ∈ (d.scope scope).modules) : id < d.moduleCount := by
  have hscope := (h.agrees scope id).1 hid
  obtain ⟨_, hloaded, _⟩ := Option.map_eq_some_iff.1 hscope
  exact (Array.getElem?_eq_some_iff.1 hloaded).1

theorem exists_scope (h : d.Ordered) (hid : id < d.modules.size) : ∃ scope, id ∈ (d.scope scope).modules := by
  have hloaded : d.modules[id]? = some d.modules[id] := Array.getElem?_eq_getElem hid
  refine ⟨d.modules[id].scope, (h.agrees _ id).2 ?_⟩
  rw [moduleScope?, hloaded]
  rfl

theorem mem_either (h : d.Ordered) (id : Nat) :
    id ∈ d.system.modules ∨ id ∈ d.application.modules ↔ id < d.moduleCount := by
  constructor
  · rintro (hsystem | happlication)
    · have hlisted : id ∈ (d.scope .system).modules := hsystem
      exact h.lt_moduleCount hlisted
    · have hlisted : id ∈ (d.scope .application).modules := happlication
      exact h.lt_moduleCount hlisted
  · intro hid
    obtain ⟨scope, hlisted⟩ := h.exists_scope hid
    cases scope with
    | system => exact .inl hlisted
    | application => exact .inr hlisted

theorem not_mem_both (h : d.Ordered) (hsystem : id ∈ d.system.modules) : id ∉ d.application.modules := by
  intro happlication
  have hfirst := (h.agrees .system id).1 hsystem
  cases hfirst.symm.trans ((h.agrees .application id).1 happlication)

theorem files (h : d.Ordered) (hfiles : d.Files scope m d') : d'.Ordered where
  increasing target := by
    by_cases htarget : target = scope
    · rw [htarget, hfiles.listed, Array.toList_push]
      refine List.pairwise_append.2 ⟨h.increasing scope, List.pairwise_singleton .., fun id hid last hlast => ?_⟩
      rw [List.mem_singleton.1 hlast]
      exact h.lt_moduleCount (Array.mem_toList_iff.1 hid)
    · rw [hfiles.other target htarget]
      exact h.increasing target
  agrees target id := by
    have hold := h.agrees target id
    rw [moduleScope?] at hold
    rw [moduleScope?, hfiles.modules, Array.getElem?_push]
    by_cases hlast : id = d.modules.size
    -- The new number is in the list of its scope, and was in none before.
    · have hnew : id ∉ (d.scope target).modules := fun hid => Nat.lt_irrefl _ (hlast ▸ h.lt_moduleCount hid)
      rw [if_pos hlast]
      by_cases htarget : target = scope
      · rw [htarget, hfiles.listed]
        simpa using .inr hlast
      · rw [hfiles.other target htarget]
        simp [hnew, Ne.symm htarget]
    · rw [if_neg hlast, ← hold]
      by_cases htarget : target = scope
      · rw [htarget, hfiles.listed, Array.mem_push]
        exact or_iff_left hlast
      · rw [hfiles.other target htarget]

end Ordered

theorem keeps_lists_setGlobal (d : Domain) (scope : Scope) (name : String) (v : Value) :
    (d.setGlobal scope name v).modules = d.modules ∧
      ∀ target, ((d.setGlobal scope name v).scope target).modules = (d.scope target).modules := by
  cases scope
  · exact ⟨rfl, fun target => by cases target <;> rfl⟩
  · exact ⟨rfl, fun target => by cases target <;> rfl⟩

theorem Ordered.setGlobal (h : d.Ordered) (scope : Scope) (name : String) (v : Value) :
    (d.setGlobal scope name v).Ordered :=
  have ⟨hmodules, hlists⟩ := d.keeps_lists_setGlobal scope name v
  h.same hmodules hlists

theorem Ordered.install (h : d.Ordered) : d.install.Ordered :=
  install_induction h (fun _ name h => h.setGlobal .system name _) fun _ h =>
    h.same rfl fun scope => by cases scope <;> rfl

theorem Ordered.apply (h : d.Ordered) (event : Event) : (d.apply event).Ordered := by
  cases event with
  | installed => exact h.install
  | stored scope name v => exact h.setGlobal scope name v
  | loaded scope m =>
    change (d.withModule scope m).Ordered
    cases hvalues : bindings m d.modules.size m.definitions with
    | error e =>
      rw [withModule, hvalues]
      exact h
    | ok values =>
      exact h.files (files_withModule hvalues)
  | attempted entry symbol requester => exact h.keeps (d.keeps_setMark entry .loaded)
  | attached catalog => exact h.same rfl fun scope => by cases scope <;> rfl
  | aged elapsed => exact h.same rfl fun scope => by cases scope <;> rfl
  | called function => exact h
  | returned purpose => exact h

end Domain

/-! ## All of a life -/

theorem kept_ordered : Kept fun d _ _ => d.Ordered where
  event h event _ := h.apply event
  left {d purpose _ _} h e := h.keeps (d.keeps_failed purpose e)

theorem Life.ordered (options : DomainOptions) (acts : List Act) :
    ((Life.new options).after acts).turn.domain.Ordered :=
  kept_ordered.holds (.new options) acts

/-- An entry whose module does not load is marked and nothing more. -/
theorem Machine.loadEntry_keeps {machine : Machine} {catalog : Catalog} {entry : Nat} {m : Module} {e : VmError}
    (hmodule : catalog.load entry = .ok m)
    (hload : ((machine.domain.setMark entry .loaded).load .system m).2 = .error e) (symbol : String)
    (requester : Scope) : machine.domain.Keeps (machine.loadEntry catalog entry symbol requester).domain := by
  have hmarked := machine.domain.keeps_setMark entry .loaded
  unfold loadEntry
  simp only [hmodule, addEffects, hload]
  exact hmarked.trans (.of_leaves (refuse_leaves
    { machine with domain := machine.domain.setMark entry .loaded, effects := _ } _ e))

/-- A module is loaded all or not at all. When the load fails, at whatever step and whoever asked for it, both scopes
and the table of modules are what they were. When it succeeds, the module has the number that comes next in the table,
its scope lists this number last and sees the definitions of the module over what it saw before, and the other scope is
what it was. So in every state that a domain can come to, the numbers of the table are shared out between the lists of
the two scopes, each of them in increasing order, and as the table says. -/
theorem loads_are_all_or_nothing :
    (∀ (d : Domain) (effects : Effects) (scope : Scope) (m : Module) (e : VmError) (left : Domain × Effects),
      Domain.loadSteps scope m (d, effects) = .error e left → d.Keeps left.1 ∧ (d.load scope m).2 = .error e) ∧
    (∀ (d : Domain) (effects : Effects) (scope : Scope) (m : Module) (id : Nat) (left : Domain × Effects),
      Domain.loadSteps scope m (d, effects) = .ok id left → (d.load scope m).2 = .ok (id, left.1)) ∧
    (∀ (d : Domain) (scope : Scope) (m : Module) (e : VmError), (d.load scope m).2 = .error e →
      d.Keeps ((Operation.load scope m).start d).domain ∧ d.Keeps ((Operation.execute scope m).start d).domain) ∧
    (∀ (machine : Machine) (catalog : Catalog) (entry : Nat) (m : Module) (e : VmError), catalog.load entry = .ok m →
      ((machine.domain.setMark entry .loaded).load .system m).2 = .error e →
      ∀ symbol requester, machine.domain.Keeps (machine.loadEntry catalog entry symbol requester).domain) ∧
    (∀ (d : Domain) (scope : Scope) (m : Module) (id : Nat) (d' : Domain), (d.load scope m).2 = .ok (id, d') →
      id = d.moduleCount ∧ d.Files scope m d') ∧
    ∀ (options : DomainOptions) (acts : List Act),
      let d := ((Life.new options).after acts).turn.domain
      (∀ scope, (d.scope scope).modules.toList.Pairwise (· < ·)) ∧
        (∀ id, ¬ (id ∈ d.system.modules ∧ id ∈ d.application.modules)) ∧
        (∀ id, id ∈ d.system.modules ∨ id ∈ d.application.modules ↔ id < d.moduleCount) ∧
        ∀ scope id, id ∈ (d.scope scope).modules ↔ d.moduleScope? id = some scope := by
  refine ⟨fun _ _ _ _ _ _ => Domain.keeps_of_loadSteps, fun _ _ _ _ _ _ => Domain.load_of_loadSteps,
    fun d scope m e h => ⟨?_, ?_⟩, fun machine catalog entry m e hmodule hload => machine.loadEntry_keeps hmodule hload,
    fun d scope m id d' h => Domain.files_of_load h, fun options acts => ?_⟩
  · rw [Operation.start, h]
    exact .refl d
  · simp only [Operation.start, h]
    split <;> exact .refl d
  · have hordered := Life.ordered options acts
    exact ⟨hordered.increasing, fun id hboth => hordered.not_mem_both hboth.1 hboth.2, hordered.mem_either,
      hordered.agrees⟩

/-- A module that defines one name twice, first as a slot and then as its only method. -/
def twice : Module where
  label := "twice"
  minorVersion := supportedMinor
  majorVersion := supportedMajor
  constants := #[.string "f", .int 7]
  methods := #[{ name := 0, params := 0, locals := 0, code := #[.returnVoid] }]
  definitions := [⟨0, .slot (some 1)⟩, ⟨0, .method 0⟩]
  init := 0

/-- The same, but the name of the method is missing. -/
def torn : Module :=
  { twice with definitions := [⟨0, .slot (some 1)⟩, ⟨2, .method 0⟩] }

/-- A module that takes a value from an empty stack. -/
def broken : Module where
  label := "broken"
  minorVersion := supportedMinor
  majorVersion := supportedMajor
  constants := #[.string "init"]
  methods := #[{ name := 0, params := 0, locals := 0, code := #[.pop, .returnVoid] }]
  definitions := []
  init := 0

def brokenCatalog : Catalog :=
  ⟨broken.encode, [⟨"broken", 0, broken.encode.length, ["Broken"]⟩]⟩

/-- The second load of `twice` gets the next number, under which the name stands for the method. The torn module fails
behind its slot, which is not defined then. The broken module is not loaded, neither directly nor from a catalog. -/
theorem twice_is_filed_and_broken_is_not :
    let d := ((Life.new {}).after [.begin .install, .begin (.load .application twice)]).turn.domain
    (∃ e left, Domain.loadSteps .application torn (d, #[]) = .error e left ∧ d.Keeps left.1) ∧
      (∃ e, (d.load .system broken).2 = .error e ∧ d.Keeps ((Operation.load .system broken).start d).domain) ∧
      (∃ e, brokenCatalog.load 0 = .ok broken ∧
        ((d.setMark 0 .loaded).load .system broken).2 = .error e ∧
        d.Keeps (Machine.loadEntry { domain := d } brokenCatalog 0 "Broken" .application).domain) ∧
      ∃ d', (d.load .application twice).2 = .ok (1, d') ∧
        d'.application.globals.get? "f" = some (.function ⟨1, 0⟩) := by
  intro d
  obtain ⟨hfailed, hdone, hfails, hentry, hloads, _⟩ := loads_are_all_or_nothing
  refine ⟨?_, ?_, ?_, ?_⟩
  · cases hsteps : Domain.loadSteps .application torn (d, #[]) with
    | error e left => exact ⟨e, left, rfl, (hfailed d #[] .application torn e left hsteps).1⟩
    | ok id left =>
      have hrefused : (d.load .application torn).2.isOk = false := by decide +kernel
      rw [hdone d #[] .application torn id left hsteps] at hrefused
      cases hrefused
  · obtain ⟨e, he⟩ := Except.exists_eq_error (by decide +kernel : (d.load .system broken).2.isOk = false)
    exact ⟨e, he, (hfails d .system broken e he).1⟩
  · have hmodule : brokenCatalog.load 0 = .ok broken :=
      Except.eq_ok_of_toOption (by decide +kernel : (brokenCatalog.load 0).toOption = some broken)
    obtain ⟨e, he⟩ := Except.exists_eq_error
      (by decide +kernel : ((d.setMark 0 .loaded).load .system broken).2.isOk = false)
    exact ⟨e, hmodule, he, hentry { domain := d } _ _ _ e hmodule he "Broken" .application⟩
  · obtain ⟨⟨id, d'⟩, hd', hid⟩ := Option.map_eq_some_iff.1
      (by decide +kernel : (d.load .application twice).2.toOption.map (·.1) = some 1)
    obtain rfl : id = 1 := hid
    have hd' := Except.eq_ok_of_toOption hd'
    obtain ⟨hnumber, hfiles⟩ := hloads d .application twice 1 d' hd'
    have hdefined : twice.definedValue? 1 "f" = some (.function ⟨1, 0⟩) := by decide +kernel
    have hglobals := hfiles.globals "f"
    rw [← hnumber, hdefined, Option.some_or] at hglobals
    exact ⟨d', hd', hglobals⟩

end MovieVm
