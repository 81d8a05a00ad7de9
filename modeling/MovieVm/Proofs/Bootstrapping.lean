import MovieVm.Proofs.Agreement
import MovieVm.Proofs.CallStack
import MovieVm.Proofs.CatalogLoads
import MovieVm.Proofs.ModuleTable

/-!
# Bootstrapped domains

As long as no module belongs to the application, no frame does: a frame is one of a function of a module, and code of
the system scope loads and stores in the system scope only. So whatever runs while a domain is bootstrapped, the
application scope is still untouched when its first module comes.
-/

namespace MovieVm

open Bytecode

/-! ## Domains of the system alone -/

/-- A domain whose application has neither globals nor modules. -/
structure Domain.SystemOnly (d : Domain) : Prop where
  ordered : d.Ordered
  application : d.application = {}

namespace Domain

variable {d : Domain}

theorem systemOnly_new (options : DomainOptions) : Domain.SystemOnly { options } :=
  ⟨.new options, rfl⟩

theorem SystemOnly.scope_eq (h : d.SystemOnly) {loaded : LoadedModule} (hloaded : loaded ∈ d.modules) :
    loaded.scope = .system := by
  obtain ⟨id, hid⟩ := Array.mem_iff_getElem?.1 hloaded
  have hlisted : id ∈ (d.scope loaded.scope).modules := by
    rw [h.ordered.agrees, moduleScope?, hid]
    rfl
  cases hscope : loaded.scope with
  | system => rfl
  | application =>
    rw [hscope, scope, h.application] at hlisted
    exact absurd hlisted (Array.not_mem_empty id)

theorem SystemOnly.replay (h : d.SystemOnly) {events : List Event}
    (hevents : ∀ event ∈ events, ¬ event.Touches .application) : (d.replay events).SystemOnly where
  ordered := by
    have hordered := h.ordered
    clear hevents h
    induction events generalizing d with
    | nil => exact hordered
    | cons event events ih => exact ih (hordered.apply event)
  application := (scope_replay hevents).trans h.application

end Domain

/-- All frames of the turn belong to the system scope. -/
structure Turn.SystemOnly (t : Turn) : Prop where
  domain : t.domain.SystemOnly
  frames : ∀ m, t = .running m → ∀ f ∈ m.frames, f.scope = .system

theorem Turn.SystemOnly.finished {o : Outcome Value} (h : o.domain.SystemOnly) : (Turn.finished o).SystemOnly :=
  ⟨h, nofun⟩

theorem Turn.SystemOnly.aged {t : Turn} (h : t.SystemOnly) (elapsed : Nat) : (t.aged elapsed).SystemOnly where
  domain := by
    rw [Turn.domain_aged]
    exact ⟨h.domain.ordered.apply (.aged elapsed), h.domain.application⟩
  frames m hm := by
    cases t with
    | finished o => cases hm
    | running before =>
      obtain rfl := Turn.running.inj hm
      have hframes := h.frames before rfl
      exact hframes

/-- What happens without touching the application leaves the domain to the system. -/
theorem Domain.SystemOnly.of_leaves {d : Domain} (h : d.SystemOnly) {events : List Event} {purposes : List Purpose}
    {t : Turn} (hevents : ∀ event ∈ events, ¬ event.Touches .application) (hleaves : t.Leaves (d.replay events) purposes) :
    t.domain.SystemOnly where
  ordered := (h.replay hevents).ordered.keeps (.of_leaves hleaves)
  application := (hleaves.scope_domain .application).trans (h.replay hevents).application

/-- A frame is entered for a module, and all modules belong to the system. -/
theorem Frame.Entered.scope_eq {g : Frame} {frames : List Frame} {d : Domain} (h : g.Entered frames d)
    (hd : d.SystemOnly) : g.scope = .system := by
  obtain ⟨loaded, hloaded, hsame⟩ : ∃ loaded, d.modules[g.activation.function.module]? = some loaded ∧
      loaded = ⟨g.activation.module, g.scope⟩ := by
    have hfound := h.loaded
    unfold Domain.loaded at hfound
    split at hfound
    · rename_i loaded hget
      exact ⟨loaded, hget, Except.ok.inj hfound⟩
    · cases hfound
  have hscope := hd.scope_eq (Array.mem_iff_getElem?.2 ⟨_, hloaded⟩)
  rwa [hsame] at hscope

namespace Machine

variable {m m' : Machine} {f : Frame} {rest : List Frame}

theorem Serves.system {frames : List Frame} (h : Serves frames m') (hd : m'.domain.SystemOnly)
    (hframes : ∀ f ∈ frames, f.scope = .system) : ∀ f ∈ m'.frames, f.scope = .system := by
  cases h with
  | answered g below v hsplit hframes' =>
    rw [hsplit] at hframes
    obtain ⟨hg, hbelow⟩ := List.forall_mem_cons.1 hframes
    rw [hframes']
    exact List.forall_mem_cons.2 ⟨hg, hbelow⟩
  | entered g hg hframes' =>
    rw [hframes']
    exact List.forall_mem_cons.2 ⟨hg.scope_eq hd, hframes⟩

theorem Stepped.system (h : Stepped f rest m') (hd : m'.domain.SystemOnly) (hf : f.scope = .system)
    (hrest : ∀ f ∈ rest, f.scope = .system) : ∀ f ∈ m'.frames, f.scope = .system := by
  cases h with
  | advanced i request a hfetch hexecute howed hfinish hframes =>
    rw [hframes]
    exact List.forall_mem_cons.2 ⟨hf, hrest⟩
  | served i request a hfetch hexecute howed hfinish hserves =>
    exact hserves.system hd (List.forall_mem_cons.2 ⟨hf, hrest⟩)
  | returned g below v hsplit hframes =>
    rw [hsplit] at hrest
    obtain ⟨hg, hbelow⟩ := List.forall_mem_cons.1 hrest
    rw [hframes]
    exact List.forall_mem_cons.2 ⟨hg, hbelow⟩

theorem step_systemOnly (h : (Turn.running m).SystemOnly) : m.step.SystemOnly := by
  have hframes := h.frames m rfl
  have hevents : ∀ event ∈ m.events, ¬ event.Touches .application := by
    intro event hevent htouches
    obtain hsame | ⟨_, hsame⟩ := events_touches hframes hevent htouches
    · cases hsame
    · cases hsame
  have hdomain := Domain.SystemOnly.of_leaves h.domain hevents m.step_leaves
  refine ⟨hdomain, fun m' hstep => ?_⟩
  rw [hstep] at hdomain
  cases hsplit : m.frames with
  | nil =>
    simp only [step, hsplit, deliver, deliverTo] at hstep
    cases hstep
  | cons f rest =>
    rw [hsplit] at hframes
    obtain ⟨hf, hrest⟩ := List.forall_mem_cons.1 hframes
    exact (step_running hsplit hstep).system hdomain hf hrest

end Machine

/-! ## Operations on the system -/

/-- An operation that neither loads a module into the application nor stores there. It may run any function. -/
def Operation.OnSystem : Operation → Prop
  | .load scope _ | .execute scope _ | .store scope _ _ => scope = .system
  | .attach _ | .install | .run _ => True

theorem Operation.events_touches {d : Domain} {operation : Operation} (h : operation.OnSystem) {event : Event}
    (hevent : event ∈ operation.events d) : ¬ event.Touches .application := by
  have hload : ∀ {m : Module} {scope : Scope}, scope = .system → ¬ (Event.loaded scope m).Touches .application := by
    rintro m scope rfl htouches
    cases htouches
  cases operation with
  | attach catalog =>
    simp only [events] at hevent
    split at hevent
    · cases hevent
    · obtain rfl := List.mem_singleton.1 hevent
      exact id
  | install =>
    simp only [events] at hevent
    split at hevent
    · cases hevent
    · obtain rfl := List.mem_singleton.1 hevent
      intro htouches
      cases htouches
  | load scope m =>
    simp only [events, Domain.loadEvents] at hevent
    split at hevent
    · obtain rfl := List.mem_singleton.1 hevent
      exact hload h
    · cases hevent
  | execute scope m =>
    simp only [events] at hevent
    split at hevent
    · cases hevent
    · split at hevent
      · obtain rfl | hevent := List.mem_cons.1 hevent
        · exact hload h
        · intro htouches
          cases (Demand.events_touches hevent htouches).2
      · cases hevent
  | store scope name v =>
    obtain rfl := List.mem_singleton.1 hevent
    obtain rfl : scope = .system := h
    intro htouches
    cases htouches
  | run demand =>
    intro htouches
    cases (Demand.events_touches hevent htouches).2

/-- An operation begins with one frame, if it runs code at all. -/
theorem Operation.start_running {d : Domain} {operation : Operation} {m : Machine}
    (h : operation.start d = .running m) : ∃ g, m.frames = [g] ∧ g.Entered [] m.domain := by
  have hdemand : ∀ {d : Domain} {demand : Demand}, demand.start d = .running m →
      ∃ g, m.frames = [g] ∧ g.Entered [] m.domain := by
    intro d demand hstart
    obtain ⟨g, hframes, _, hg⟩ := Demand.start_running hstart
    exact ⟨g, hframes, hg⟩
  cases operation with
  | run demand => exact hdemand h
  | execute scope m =>
    simp only [start] at h
    split at h
    · cases h
    · split at h
      · exact hdemand h
      · cases h
  | attach catalog =>
    simp only [start] at h
    split at h <;> cases h
  | load scope m =>
    simp only [start] at h
    split at h <;> cases h
  | install => cases h
  | store scope name v => cases h

theorem Operation.start_systemOnly {d : Domain} (h : d.SystemOnly) {operation : Operation} (hsystem : operation.OnSystem) :
    (operation.start d).SystemOnly := by
  have hdomain := h.of_leaves (fun _ => operation.events_touches hsystem) (operation.start_leaves d)
  refine ⟨hdomain, fun m hstart f hf => ?_⟩
  obtain ⟨g, hframes, hg⟩ := start_running hstart
  rw [hstart] at hdomain
  rw [hframes] at hf
  rw [List.mem_singleton.1 hf]
  exact hg.scope_eq hdomain

/-! ## Lives on the system -/

namespace Life

variable {life : Life}

theorem systemOnly_act (h : life.turn.SystemOnly) {act : Act}
    (hact : ∀ operation, act = .begin operation → operation.OnSystem) : (life.act act).turn.SystemOnly := by
  obtain ⟨turn, record⟩ := life
  cases act with
  | begin operation =>
    cases turn with
    | running m => exact h
    | finished o => exact operation.start_systemOnly h.domain (hact operation rfl)
  | step =>
    cases turn with
    | running m => exact Machine.step_systemOnly h
    | finished o => exact h
  | wait elapsed => exact h.aged elapsed

/-- While all that is done to a domain is done to its system scope, no code of the application runs, and the
application stays without globals and modules. -/
theorem systemOnly_after (h : life.turn.SystemOnly) {acts : List Act}
    (hacts : ∀ operation, .begin operation ∈ acts → operation.OnSystem) : (life.after acts).turn.SystemOnly := by
  induction acts generalizing life with
  | nil => exact h
  | cons act acts ih =>
    rw [after_cons]
    refine ih (systemOnly_act h fun operation hsame => ?_) fun operation hmem => ?_
    · exact hacts operation (hsame ▸ List.mem_cons_self)
    · exact hacts operation (List.mem_cons_of_mem _ hmem)

end Life

/-! ## Domains that are ready -/

/-- A domain that has its natives and its catalog, with the builtin module as its first. -/
structure Domain.Ready (builtin : Module) (catalog : Option Catalog) (d : Domain) : Prop where
  initialized : d.isInitialized = true
  builtin : d.modules[0]? = some ⟨builtin, .system⟩
  catalog : d.catalog = catalog

namespace Domain

variable {d : Domain} {builtin m : Module} {catalog : Option Catalog} {scope : Scope}

theorem with_catalog (h : d.catalog = catalog) : { d with catalog } = d := by
  rw [← h]

theorem isInitialized_install (d : Domain) : d.install.isInitialized = true := by
  unfold install
  split
  · assumption
  · rfl

theorem isInitialized_withModule (d : Domain) (scope : Scope) (m : Module) :
    (d.withModule scope m).isInitialized = d.isInitialized := by
  unfold withModule
  cases bindings m d.modules.size m.definitions with
  | error e => rfl
  | ok values => cases scope <;> rfl

/-- A load leaves the modules before it in their places. -/
theorem getElem?_withModule {id : Nat} {loaded : LoadedModule} (h : d.modules[id]? = some loaded) (scope : Scope)
    (m : Module) : (d.withModule scope m).modules[id]? = some loaded := by
  obtain ⟨hlt, _⟩ := Array.getElem?_eq_some_iff.1 h
  unfold withModule
  cases bindings m d.modules.size m.definitions with
  | error e => exact h
  | ok values =>
    simp only [modules_bind]
    rw [Array.getElem?_push_lt hlt, ← Array.getElem?_eq_getElem hlt, h]

theorem Ready.setGlobal (h : d.Ready builtin catalog) (scope : Scope) (name : String) (v : Value) :
    (d.setGlobal scope name v).Ready builtin catalog := by
  cases scope <;> exact ⟨h.initialized, h.builtin, h.catalog⟩

theorem kept_ready (builtin : Module) (catalog : Option Catalog) : Kept fun d _ _ => d.Ready builtin catalog where
  event {d purposes record} h event hallowed := by
    cases event with
    | attached other =>
      have hnew : d.isInitialized = false := hallowed.1
      cases h.initialized.symm.trans hnew
    | installed =>
      have hnew : d.isInitialized = false := hallowed
      cases h.initialized.symm.trans hnew
    | stored scope name v => exact h.setGlobal scope name v
    | loaded scope m =>
      have hcatalog : (d.apply (.loaded scope m)).catalog = d.catalog := d.catalog_apply nofun
      exact ⟨(d.isInitialized_withModule scope m).trans h.initialized, getElem?_withModule h.builtin scope m,
        hcatalog.trans h.catalog⟩
    | attempted entry symbol requester => exact ⟨h.initialized, h.builtin, h.catalog⟩
    | aged elapsed => exact ⟨h.initialized, h.builtin, h.catalog⟩
    | called function => exact h
    | returned purpose => exact h
  left {d purpose purposes record} h e := by
    cases purpose <;> exact ⟨h.initialized, h.builtin, h.catalog⟩

/-- A bootstrapped domain: ready, and without a trace of an application. -/
structure Bootstrapped (builtin : Module) (catalog : Option Catalog) (d : Domain) : Prop extends
    Domain.Ready builtin catalog d where
  globals : d.application.globals = []
  modules : d.application.modules = #[]
  scopes : ∀ loaded ∈ d.modules, loaded.scope = .system
  listed : ∀ id, id ∈ d.system.modules ↔ id < d.moduleCount

theorem Ready.bootstrapped (h : d.Ready builtin catalog) (hsystem : d.SystemOnly) : d.Bootstrapped builtin catalog where
  toReady := h
  globals := by rw [hsystem.application]
  modules := by rw [hsystem.application]
  scopes _ hloaded := hsystem.scope_eq hloaded
  listed id := by
    have hlt : id ∈ (d.scope .system).modules → id < d.moduleCount := hsystem.ordered.lt_moduleCount
    refine ⟨hlt, fun hid => ?_⟩
    obtain ⟨scope, hlisted⟩ := hsystem.ordered.exists_scope hid
    cases scope with
    | system => exact hlisted
    | application =>
      rw [Domain.scope, hsystem.application] at hlisted
      exact absurd hlisted (Array.not_mem_empty id)

end Domain

/-! ## Bootstraps -/

namespace Bootstrap

/-- The domain that the builtin module runs in: the module is loaded, the catalog is attached, the natives are bound. -/
def prepared (options : DomainOptions) (builtin : Module) (catalog : Option Catalog) : Domain :=
  Domain.install { ({ options } : Domain).withModule .system builtin with catalog }

/-- A life that begins when the domain is prepared. -/
def life (options : DomainOptions) (builtin : Module) (catalog : Option Catalog) : Life where
  turn := .finished ⟨prepared options builtin catalog, #[], .ok .undefined⟩

variable {options : DomainOptions} {builtin : Module} {catalog : Option Catalog}

theorem load_new {id : Nat} {d : Domain} (h : (({ options } : Domain).load .system builtin).2 = .ok (id, d)) :
    id = 0 ∧ d = ({ options } : Domain).withModule .system builtin ∧ d.modules[0]? = some ⟨builtin, .system⟩ := by
  obtain ⟨effects, ⟨e, hload⟩ | ⟨values, hvalues, hload⟩⟩ := ({ options } : Domain).load_cases .system builtin
  · rw [hload] at h
    cases h
  · rw [hload] at h
    cases h
    refine ⟨rfl, rfl, ?_⟩
    rw [(Domain.files_withModule hvalues).modules]
    rfl

/-- The domain is not initialized yet, so it takes a catalog. -/
theorem setCatalog_of_load {id : Nat} {d : Domain} (h : (({ options } : Domain).load .system builtin).2 = .ok (id, d))
    (catalog : Catalog) : d.setCatalog catalog = .ok { d with catalog := some catalog } := by
  obtain ⟨_, rfl, _⟩ := load_new h
  have hnew : (({ options } : Domain).withModule .system builtin).isInitialized = false :=
    Domain.isInitialized_withModule _ _ _
  rw [Domain.setCatalog, hnew, if_neg Bool.false_ne_true]

theorem systemOnly_prepared (options : DomainOptions) (builtin : Module) (catalog : Option Catalog) :
    (prepared options builtin catalog).SystemOnly := by
  have hloaded : (({ options } : Domain).withModule .system builtin).SystemOnly := by
    have hreplayed : (({ options } : Domain).replay [.loaded .system builtin]).SystemOnly :=
      (Domain.systemOnly_new options).replay fun event hevent => by
        obtain rfl := List.mem_singleton.1 hevent
        exact nofun
    exact hreplayed
  have hattached : Domain.SystemOnly { ({ options } : Domain).withModule .system builtin with catalog } :=
    ⟨hloaded.ordered.same rfl fun scope => by cases scope <;> rfl, hloaded.application⟩
  exact ⟨hattached.ordered.install, (Domain.application_install _).trans hattached.application⟩

theorem ready_prepared {id : Nat} {d : Domain} (h : (({ options } : Domain).load .system builtin).2 = .ok (id, d))
    (catalog : Option Catalog) : (prepared options builtin catalog).Ready builtin catalog := by
  obtain ⟨_, rfl, hbuiltin⟩ := load_new h
  have hkept : (prepared options builtin catalog).modules[0]? = some ⟨builtin, .system⟩ ∧
      (prepared options builtin catalog).catalog = catalog :=
    Domain.install_induction (d := { ({ options } : Domain).withModule .system builtin with catalog })
      (P := fun d => d.modules[0]? = some ⟨builtin, .system⟩ ∧ d.catalog = catalog) ⟨hbuiltin, rfl⟩ (fun _ _ h => h)
      fun _ h => h
  exact ⟨Domain.isInitialized_install _, hkept.1, hkept.2⟩

/-- Whatever is done to the system scope of a prepared domain, and however time passes, it is a bootstrapped domain. -/
theorem bootstrapped_after {id : Nat} {d : Domain} (h : (({ options } : Domain).load .system builtin).2 = .ok (id, d))
    (catalog : Option Catalog) {acts : List Act} (hacts : ∀ operation, .begin operation ∈ acts → operation.OnSystem) :
    ((life options builtin catalog).after acts).turn.domain.Bootstrapped builtin catalog := by
  have hstart : (life options builtin catalog).turn.domain.Ready builtin catalog := ready_prepared h catalog
  have hready : ((life options builtin catalog).after acts).turn.domain.Ready builtin catalog :=
    (Domain.kept_ready builtin catalog).after hstart acts
  have hsystem : ((life options builtin catalog).after acts).turn.SystemOnly :=
    Life.systemOnly_after (.finished (systemOnly_prepared options builtin catalog)) hacts
  exact hready.bootstrapped hsystem.domain

/-! ## Bootstraps that succeed -/

variable {b : Bootstrap} {fs : Files} {fuel : Nat} {d : Domain} {s s' : Effects}

/-- What a bootstrap reads from its files: the builtin module, and the catalog if it names one. -/
structure Reads (b : Bootstrap) (fs : Files) (builtin : Module) (catalog : Option Catalog) : Prop where
  builtin : ∃ bytes, fs.read b.builtin = .ok bytes ∧ Module.decode bytes b.builtin = .ok builtin
  none : b.catalog = none → catalog = none
  some : ∀ paths, b.catalog = some paths → ∃ bytes index read, fs.read paths.modules = .ok bytes ∧
    fs.readText paths.index = .ok index ∧ Catalog.ofIndex bytes index = .ok read ∧ catalog = some read

theorem settle_eq_ok {ε α : Type} {f : ε → BootstrapError} {x : Except ε α} {a : α} :
    settle f x s = .ok a s' ↔ x = .ok a ∧ s = s' := by
  cases x with
  | error e => exact ⟨nofun, nofun⟩
  | ok a' =>
    constructor
    · rintro ⟨⟩
      exact ⟨rfl, rfl⟩
    · rintro ⟨⟨⟩, rfl⟩
      rfl

theorem readModule_eq_ok {path : String} {m : Module} (h : readModule fs path s = .ok m s') :
    ∃ bytes, fs.read path = .ok bytes ∧ Module.decode bytes path = .ok m := by
  obtain ⟨bytes, _, hbytes, hm⟩ := EStateM.bind_eq_ok.1 h
  exact ⟨bytes, (settle_eq_ok.1 hbytes).1, (settle_eq_ok.1 hm).1⟩

theorem readCatalog_eq_ok {paths : CatalogPaths} {catalog : Catalog} (h : readCatalog fs paths s = .ok catalog s') :
    ∃ bytes index, fs.read paths.modules = .ok bytes ∧ fs.readText paths.index = .ok index ∧
      Catalog.ofIndex bytes index = .ok catalog := by
  obtain ⟨bytes, _, hbytes, h⟩ := EStateM.bind_eq_ok.1 h
  obtain ⟨index, _, hindex, hcatalog⟩ := EStateM.bind_eq_ok.1 h
  exact ⟨bytes, index, (settle_eq_ok.1 hbytes).1, (settle_eq_ok.1 hindex).1, (settle_eq_ok.1 hcatalog).1⟩

theorem ran_eq_ok {path : String} {run : Option (Outcome Value)} (h : ran path run s = .ok d s') :
    ∃ o, run = some o ∧ o.domain = d := by
  unfold ran at h
  cases run with
  | none => cases h
  | some o =>
    obtain ⟨_, _, _, h⟩ := EStateM.bind_eq_ok.1 h
    obtain ⟨_, _, _, h⟩ := EStateM.bind_eq_ok.1 h
    cases h
    exact ⟨o, rfl, rfl⟩

theorem announce_eq_ok {d d' : Domain} (h : announce d s = .ok d' s') : d' = d := by
  rw [announce_apply] at h
  cases h
  rfl

/-- Operations on the system scope lead from the life to an idle domain. -/
def LeadsTo (life : Life) (d : Domain) : Prop :=
  ∃ acts o, (∀ operation, .begin operation ∈ acts → operation.OnSystem) ∧ (life.after acts).turn = .finished o ∧
    o.domain = d

theorem LeadsTo.run {life : Life} (h : LeadsTo life d) (operation : Operation) (hsystem : operation.OnSystem)
    {o : Outcome Value} (hrun : (operation.start d).run fuel = some o) : LeadsTo life o.domain := by
  obtain ⟨acts, idle, hacts, hidle, rfl⟩ := h
  refine ⟨acts ++ .begin operation :: List.replicate fuel .step, o, fun other hother => ?_, ?_, rfl⟩
  · obtain hother | hother := List.mem_append.1 hother
    · exact hacts other hother
    · obtain hsame | hother := List.mem_cons.1 hother
      · cases hsame
        exact hsystem
      · cases List.eq_of_mem_replicate hother
  · rw [Life.after_append, Life.after_cons]
    generalize life.after acts = before at hidle
    obtain ⟨turn, record⟩ := before
    cases hidle
    exact Life.turn_of_run hrun

theorem LeadsTo.executeModule {life : Life} (h : LeadsTo life d) {id : Nat} {o : Outcome Value}
    (hrun : d.executeModule fuel id = some o) : LeadsTo life o.domain := by
  have hdemand : (Demand.execute id).run d fuel = some o := hrun
  rw [Demand.run_eq] at hdemand
  exact h.run (.run (.execute id)) trivial hdemand

theorem LeadsTo.execute {life : Life} (h : LeadsTo life d) {m : Module} {o : Outcome Value}
    (hrun : d.execute fuel .system m = some o) : LeadsTo life o.domain := by
  rw [Operation.execute_eq] at hrun
  obtain ⟨o', hturn, rfl⟩ := Option.map_eq_some_iff.1 hrun
  have hleads := h.run (.execute .system m) rfl hturn
  exact hleads

theorem LeadsTo.addLibrary {life : Life} (h : LeadsTo life d) {d' : Domain} (hrun : b.addLibrary fs fuel d s = .ok d' s') :
    LeadsTo life d' := by
  unfold Bootstrap.addLibrary at hrun
  cases hlibrary : b.library with
  | none =>
    simp only [hlibrary] at hrun
    rwa [announce_eq_ok hrun]
  | some path =>
    simp only [hlibrary] at hrun
    obtain ⟨library, _, _, hrun⟩ := EStateM.bind_eq_ok.1 hrun
    obtain ⟨_, _, hran, hannounced⟩ := EStateM.bind_eq_ok.1 hrun
    obtain ⟨o, ho, rfl⟩ := ran_eq_ok hran
    rw [announce_eq_ok hannounced]
    exact h.execute ho

/-- The builtin module and the library run on the prepared domain. -/
theorem leadsTo_of_runBuiltin {options : DomainOptions} {builtin : Module} {catalog : Option Catalog} {loaded : Domain}
    (hprepared : loaded.install = prepared options builtin catalog) {id : Nat}
    (h : b.runBuiltin fs fuel id loaded s = .ok d s') : LeadsTo (life options builtin catalog) d := by
  obtain ⟨_, _, hran, hlibrary⟩ := EStateM.bind_eq_ok.1 h
  obtain ⟨o, ho, rfl⟩ := ran_eq_ok hran
  rw [hprepared] at ho
  have hstart : LeadsTo (life options builtin catalog) (prepared options builtin catalog) := ⟨[], _, nofun, rfl, rfl⟩
  exact (hstart.executeModule ho).addLibrary hlibrary

theorem leadsTo_of_setup (h : b.setup fs fuel s = .ok d s') :
    ∃ builtin catalog id loaded, b.Reads fs builtin catalog ∧
      (({ options := b.options } : Domain).load .system builtin).2 = .ok (id, loaded) ∧
      LeadsTo (life b.options builtin catalog) d := by
  rw [setup_eq] at h
  obtain ⟨builtin, _, hread, h⟩ := EStateM.bind_eq_ok.1 h
  have hbuiltin := readModule_eq_ok hread
  obtain ⟨_, _, _, h⟩ := EStateM.bind_eq_ok.1 h
  obtain ⟨⟨id, loaded⟩, _, hsettled, h⟩ := EStateM.bind_eq_ok.1 h
  have hload := (settle_eq_ok.1 hsettled).1
  obtain ⟨_, hloaded, _⟩ := load_new hload
  unfold addCatalog at h
  cases hcatalog : b.catalog with
  | none =>
    simp only [hcatalog] at h
    have hprepared : loaded.install = prepared b.options builtin none := by
      have hsame : (({ options := b.options } : Domain).apply (.loaded .system builtin)).catalog = none :=
        Domain.catalog_apply _ nofun
      have hnone : (({ options := b.options } : Domain).withModule .system builtin).catalog = none := hsame
      rw [prepared, Domain.with_catalog hnone, hloaded]
    refine ⟨builtin, none, id, loaded, ⟨hbuiltin, fun _ => rfl, fun paths hpaths => ?_⟩, hload,
      leadsTo_of_runBuiltin hprepared h⟩
    cases hcatalog.symm.trans hpaths
  | some paths =>
    simp only [hcatalog] at h
    obtain ⟨catalog, _, hcatalogRead, h⟩ := EStateM.bind_eq_ok.1 h
    obtain ⟨bytes, index, hbytes, hindex, hparsed⟩ := readCatalog_eq_ok hcatalogRead
    obtain ⟨_, _, hattached, h⟩ := EStateM.bind_eq_ok.1 h
    have hset := (settle_eq_ok.1 hattached).1
    rw [setCatalog_of_load hload] at hset
    cases hset
    have hprepared : Domain.install { loaded with catalog := some catalog } =
        prepared b.options builtin (some catalog) := by
      rw [prepared, hloaded]
    refine ⟨builtin, some catalog, id, loaded, ⟨hbuiltin, fun hnone => ?_, fun paths' hpaths => ?_⟩, hload,
      leadsTo_of_runBuiltin hprepared h⟩
    · cases hcatalog.symm.trans hnone
    · cases hcatalog.symm.trans hpaths
      exact ⟨bytes, index, catalog, hbytes, hindex, hparsed, rfl⟩

theorem setup_of_run {effects : Effects} (h : b.run fs fuel = some (effects, .ok d)) :
    b.setup fs fuel #[] = .ok d effects := by
  unfold run at h
  cases hsetup : b.setup fs fuel #[] with
  | ok d' effects' =>
    rw [hsetup] at h
    cases h
    rfl
  | error e effects' =>
    rw [hsetup] at h
    cases e <;> cases h

end Bootstrap

/-- When a bootstrap yields a domain, that is initialized, has the builtin module as its first and the catalog that the
bootstrap names, and its modules all belong to the system scope; the application has neither globals nor modules. The
catalog is attached before the natives are bound, so that cannot fail. And whatever runs in the system scope of the
prepared domain, and however time passes, it is a bootstrapped domain at every moment, with no frame of the application.
-/
theorem bootstrap_never_touches_the_application (b : Bootstrap) (fs : Files) :
    (∀ fuel effects d, b.run fs fuel = some (effects, .ok d) →
      ∃ builtin catalog, b.Reads fs builtin catalog ∧ d.Bootstrapped builtin catalog) ∧
    ∀ builtin id loaded, (({ options := b.options } : Domain).load .system builtin).2 = .ok (id, loaded) →
      (∀ catalog, loaded.setCatalog catalog = .ok { loaded with catalog := some catalog }) ∧
      ∀ catalog acts, (∀ operation, .begin operation ∈ acts → operation.OnSystem) →
        let life := (Bootstrap.life b.options builtin catalog).after acts
        life.turn.domain.Bootstrapped builtin catalog ∧
          ∀ m, life.turn = .running m → ∀ f ∈ m.frames, f.scope = .system := by
  refine ⟨fun fuel effects d h => ?_, fun builtin id loaded hload => ⟨fun catalog => ?_, fun catalog acts hacts => ?_⟩⟩
  · obtain ⟨builtin, catalog, id, loaded, hreads, hload, acts, o, hacts, hidle, rfl⟩ :=
      Bootstrap.leadsTo_of_setup (Bootstrap.setup_of_run h)
    refine ⟨builtin, catalog, hreads, ?_⟩
    have hbootstrapped := Bootstrap.bootstrapped_after hload catalog hacts
    rwa [hidle] at hbootstrapped
  · exact Bootstrap.setCatalog_of_load hload catalog
  · refine ⟨Bootstrap.bootstrapped_after hload catalog hacts, ?_⟩
    have hsystem : ((Bootstrap.life b.options builtin catalog).after acts).turn.SystemOnly :=
      Life.systemOnly_after (.finished (Bootstrap.systemOnly_prepared b.options builtin catalog)) hacts
    exact hsystem.frames

/-! A builtin module that keeps the value of a catalog symbol, bootstrapped with itself as its library. -/

namespace Keeper

def helper : Module where
  label := "helper.abc"
  minorVersion := supportedMinor
  majorVersion := supportedMajor
  constants := #[.string "Helper", .string "init", .string "hello"]
  methods := #[{ name := 1, params := 0, locals := 0, code := #[.returnVoid] }]
  definitions := [⟨0, .slot (some 2)⟩]
  init := 0

def keeper : Module where
  label := "b.abc"
  minorVersion := supportedMinor
  majorVersion := supportedMajor
  constants := #[.string "Helper", .string "init", .string "kept"]
  methods := #[{ name := 1, params := 0, locals := 0, code := #[.getGlobal 0, .setGlobal 2, .returnVoid] }]
  definitions := []
  init := 0

def files : Files where
  entries := [(["b.abc"], .file keeper.encode), (["c.abc"], .file helper.encode),
    (["c.json"], .file ("[[\"helper.abc\",0," ++ toString helper.encode.length ++ ",[\"Helper\"]]]").toUTF8.toList)]
  rooted := true

def bootstrap : Bootstrap where
  builtin := "b.abc"
  library := some "b.abc"
  catalog := some ⟨"c.abc", "c.json"⟩

end Keeper

theorem keeper_never_touches_the_application :
    ∃ effects d builtin catalog, Keeper.bootstrap.run Keeper.files 20 = some (effects, .ok d) ∧
      d.system.globals.get? "kept" = some (.string "hello") ∧ d.moduleCount = 3 ∧
      Keeper.bootstrap.Reads Keeper.files builtin catalog ∧ d.Bootstrapped builtin catalog := by
  have hran : ((Keeper.bootstrap.run Keeper.files 20).bind fun booted => booted.2.toOption).map
      (fun d => (d.system.globals.get? "kept", d.moduleCount)) = some (some (.string "hello"), 3) := by
    decide +kernel
  obtain ⟨d, hbooted, hkept⟩ := Option.map_eq_some_iff.1 hran
  obtain ⟨⟨effects, result⟩, hrun, hresult⟩ := Option.bind_eq_some_iff.1 hbooted
  cases result with
  | error e => cases hresult
  | ok d' =>
    obtain rfl := Option.some.inj hresult
    obtain ⟨hglobal, hcount⟩ := Prod.mk.inj hkept
    obtain ⟨hyields, _⟩ := bootstrap_never_touches_the_application Keeper.bootstrap Keeper.files
    obtain ⟨builtin, catalog, hreads, hbootstrapped⟩ := hyields 20 effects d' hrun
    exact ⟨effects, d', builtin, catalog, hrun, hglobal, hcount, hreads, hbootstrapped⟩

end MovieVm
