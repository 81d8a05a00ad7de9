import MovieVm.Domain.Bootstrap
import MovieVm.Proofs.Success
import MovieVm.Proofs.Twins

/-!
# Computations that agree

Two computations agree when they lead from states that are related to states that are related, with answers that are
related or with the same error. Agreement is built up as the computations are. Bootstraps that differ in what they
trace agree.
-/

namespace MovieVm

open Bytecode

/-! ## Answers -/

/-- The same error, or values as `R` says. -/
inductive AnswersAlike {ε α : Type} (R : α → α → Prop) : Except ε α → Except ε α → Prop where
  | error {e : ε} : AnswersAlike R (.error e) (.error e)
  | ok {a a' : α} (h : R a a') : AnswersAlike R (.ok a) (.ok a')

theorem AnswersAlike.refl {ε α : Type} (x : Except ε α) : AnswersAlike Eq x x := by
  cases x with
  | error e => exact .error
  | ok a => exact .ok rfl

theorem AnswersAlike.mapError {ε δ α : Type} {R : α → α → Prop} {x x' : Except ε α} (h : AnswersAlike R x x')
    (f : ε → δ) : AnswersAlike R (x.mapError f) (x'.mapError f) := by
  cases h with
  | error => exact .error
  | ok h => exact .ok h

theorem rel_bind {α β : Type} {R : α → α → Prop} {Q : β → β → Prop} {x x' : Option α} {f f' : α → Option β}
    (h : Option.Rel R x x') (hf : ∀ a a', R a a' → Option.Rel Q (f a) (f' a')) :
    Option.Rel Q (x >>= f) (x' >>= f') := by
  cases h with
  | none => exact .none
  | some h => exact hf _ _ h

theorem rel_map {α β : Type} {R : α → α → Prop} {Q : β → β → Prop} {x x' : Option α} {f f' : α → β}
    (h : Option.Rel R x x') (hf : ∀ a a', R a a' → Q (f a) (f' a')) : Option.Rel Q (x.map f) (x'.map f') := by
  cases h with
  | none => exact .none
  | some h => exact .some (hf _ _ h)

/-! ## Computations on a state -/

section

variable {ε σ α β : Type} {S : σ → σ → Prop} {R : α → α → Prop} {Q : β → β → Prop}

/-- The states are as `S` says, and the answers are alike. -/
inductive EndsAlike (S : σ → σ → Prop) (R : α → α → Prop) :
    EStateM.Result ε σ α → EStateM.Result ε σ α → Prop where
  | error {e : ε} {s s' : σ} (hs : S s s') : EndsAlike S R (.error e s) (.error e s')
  | ok {a a' : α} {s s' : σ} (ha : R a a') (hs : S s s') : EndsAlike S R (.ok a s) (.ok a' s')

def Agree (S : σ → σ → Prop) (R : α → α → Prop) (x x' : EStateM ε σ α) : Prop :=
  ∀ s s', S s s' → EndsAlike S R (x s) (x' s')

namespace Agree

variable {x x' : EStateM ε σ α}

theorem pure {a a' : α} (h : R a a') : Agree S R (Pure.pure a : EStateM ε σ α) (Pure.pure a') :=
  fun _ _ hs => .ok h hs

theorem throw (e : ε) : Agree S R (MonadExcept.throw e : EStateM ε σ α) (MonadExcept.throw e) :=
  fun _ _ hs => .error hs

theorem get : Agree S S (MonadState.get : EStateM ε σ σ) MonadState.get :=
  fun _ _ hs => .ok hs hs

theorem modify {f f' : σ → σ} (h : ∀ s s', S s s' → S (f s) (f' s')) :
    Agree S Eq (modify f : EStateM ε σ PUnit) (modify f') :=
  fun _ _ hs => .ok rfl (h _ _ hs)

theorem set {s s' : σ} (h : S s s') : Agree S Eq (MonadStateOf.set s : EStateM ε σ PUnit) (MonadStateOf.set s') :=
  fun _ _ _ => .ok rfl h

theorem bind {f f' : α → EStateM ε σ β} (hx : Agree S R x x') (hf : ∀ a a', R a a' → Agree S Q (f a) (f' a')) :
    Agree S Q (x >>= f) (x' >>= f') := by
  intro s s' hs
  have hfirst := hx s s' hs
  rw [EStateM.bind_apply, EStateM.bind_apply]
  generalize x s = r, x' s' = r' at hfirst
  cases hfirst with
  | error hs => exact .error hs
  | ok ha hs => exact hf _ _ ha _ _ hs

/-- Computations that look at the state first. -/
theorem get_bind {f f' : σ → EStateM ε σ α} (h : ∀ s s', S s s' → EndsAlike S R (f s s) (f' s' s')) :
    Agree S R (MonadState.get >>= f) (MonadState.get >>= f') :=
  h

theorem bind_eq {f f' : α → EStateM ε σ β} (hx : Agree S Eq x x') (hf : ∀ a, Agree S Q (f a) (f' a)) :
    Agree S Q (x >>= f) (x' >>= f') := by
  apply hx.bind
  rintro a _ rfl
  exact hf a

theorem forM {f f' : α → EStateM ε σ PUnit} (h : ∀ a, Agree S Eq (f a) (f' a)) (items : List α) :
    Agree S Eq (items.forM f) (items.forM f') := by
  induction items with
  | nil => exact pure rfl
  | cons a items ih => exact (h a).bind_eq fun _ => ih

theorem mapM {f f' : α → EStateM ε σ β} (h : ∀ a, Agree S Eq (f a) (f' a)) (items : List α) :
    Agree S Eq (items.mapM f) (items.mapM f') := by
  induction items with
  | nil => exact pure rfl
  | cons a items ih =>
    rw [List.mapM_cons, List.mapM_cons]
    exact (h a).bind_eq fun b => ih.bind_eq fun bs => pure rfl

end Agree

end

/-! ## Bootstraps -/

namespace Domain

variable {o o' : DomainOptions} {d d' : Domain}

theorem Loads.answers {left right : Effects × Except VmError (Nat × Domain)}
    (h : Loads o o' left right) (hsame : o.release = o'.release) :
    left.1.Twins o o' right.1 ∧ AnswersAlike (fun a a' => a'.1 = a.1 ∧ a.2.Twins o o' a'.2) left.2 right.2 := by
  cases h with
  | rejected hskips =>
    rw [hskips.1, hskips.2] at hsame
    cases hsame
  | failed heffects => exact ⟨heffects, .error⟩
  | loaded heffects hd => exact ⟨heffects, .ok ⟨rfl, hd⟩⟩

theorem Twins.setCatalog (h : d.Twins o o' d') (catalog : Catalog) :
    AnswersAlike (Twins o o') (d.setCatalog catalog) (d'.setCatalog catalog) := by
  obtain ⟨rfl, rfl⟩ := h
  unfold Domain.setCatalog
  split
  · exact .error
  · exact .ok ⟨rfl, rfl⟩

/-- A module is loaded and executed alike. -/
theorem Twins.execute (h : d.Twins o o' d') (hsame : o.release = o'.release) (fuel : Nat) (scope : Scope) (m : Module) :
    Option.Rel (Outcome.Twins o o') (d.execute fuel scope m) (d'.execute fuel scope m) := by
  have hready : d'.isInitialized = d.isInitialized := by rw [h.same]
  unfold Domain.execute
  rw [hready]
  split
  · exact .some ⟨h, .refl _, rfl⟩
  · have hloads := h.load (.inl hsame) scope m
    generalize d.load scope m = left, d'.load scope m = right at hloads
    cases hloads with
    | rejected hskips =>
      rw [hskips.1, hskips.2] at hsame
      cases hsame
    | failed heffects => exact .some ⟨h, heffects, rfl⟩
    | @loaded _ _ id _ _ heffects hd =>
      refine rel_bind (hd.run hsame fuel (.execute id)) fun x x' hx => ?_
      exact .some { hx with effects := heffects.append hx.effects }

end Domain

namespace Bootstrap

variable {o o' : DomainOptions}

theorem agree_settle {α ε : Type} {S : Effects → Effects → Prop} {R : α → α → Prop} {x x' : Except ε α}
    (h : AnswersAlike R x x') (f : ε → BootstrapError) : Agree S R (settle f x) (settle f x') := by
  cases h with
  | error => exact .throw _
  | ok h => exact .pure h

theorem agree_report {effects effects' : Effects} (h : effects.Twins o o' effects') :
    Agree (Effects.Twins o o') Eq (report effects) (report effects') :=
  .modify fun _ _ hs => hs.append h

theorem agree_readModule (fs : Files) (path : String) :
    Agree (Effects.Twins o o') Eq (readModule fs path) (readModule fs path) := by
  refine (agree_settle (.refl _) _).bind_eq fun bytes => ?_
  exact agree_settle (.refl _) _

theorem agree_readCatalog (fs : Files) (paths : CatalogPaths) :
    Agree (Effects.Twins o o') Eq (readCatalog fs paths) (readCatalog fs paths) := by
  refine (agree_settle (.refl _) _).bind_eq fun bytes => ?_
  exact (agree_settle (.refl _) _).bind_eq fun index => agree_settle (.refl _) _

theorem agree_ran {run run' : Option (Outcome Value)} (h : Option.Rel (Outcome.Twins o o') run run') (path : String) :
    Agree (Effects.Twins o o') (Domain.Twins o o') (ran path run) (ran path run') := by
  cases h with
  | none => exact .throw none
  | @some x x' h =>
    have hresult : AnswersAlike Eq x.result x'.result := h.result ▸ .refl _
    exact (agree_report h.effects).bind_eq fun _ => (agree_settle hresult _).bind_eq fun _ => .pure h.domain

/-! ## The parts of a bootstrap -/

/-- The end of a bootstrap, with its line. -/
def announce (d : Domain) : Setup Domain :=
  if d.options.traceRuntime then
    report #[.line s!"Security domain ready: {(d.scope .system).modules.size} module(s) in system scope"] >>=
      fun _ => pure d
  else pure d

def addLibrary (b : Bootstrap) (fs : Files) (fuel : Nat) (d : Domain) : Setup Domain :=
  match b.library with
  | none => announce d
  | some path => readModule fs path >>= fun library => ran path (d.execute fuel .system library) >>= announce

def runBuiltin (b : Bootstrap) (fs : Files) (fuel id : Nat) (d : Domain) : Setup Domain :=
  ran b.builtin (d.install.executeModule fuel id) >>= b.addLibrary fs fuel

def addCatalog (b : Bootstrap) (fs : Files) (fuel id : Nat) (d : Domain) : Setup Domain :=
  match b.catalog with
  | none => b.runBuiltin fs fuel id d
  | some paths => readCatalog fs paths >>= fun catalog =>
    settle (.failed paths.index) (d.setCatalog catalog) >>= b.runBuiltin fs fuel id

theorem setup_eq (b : Bootstrap) (fs : Files) (fuel : Nat) :
    b.setup fs fuel = (readModule fs b.builtin >>= fun builtin =>
      report (({ options := b.options } : Domain).load .system builtin).1 >>= fun _ =>
      settle (.failed b.builtin) (({ options := b.options } : Domain).load .system builtin).2 >>= fun loaded =>
      b.addCatalog fs fuel loaded.1 loaded.2) :=
  rfl

/-- The line of a domain that is ready. -/
def readyTrace (d : Domain) : Effects :=
  if d.options.traceRuntime then
    #[.line s!"Security domain ready: {(d.scope .system).modules.size} module(s) in system scope"]
  else #[]

theorem announce_apply (d : Domain) (effects : Effects) : announce d effects = .ok d (effects ++ readyTrace d) := by
  unfold announce readyTrace
  split
  · rfl
  · rw [Array.append_empty]
    rfl

theorem agree_announce {d d' : Domain} (h : d.Twins o o' d') :
    Agree (Effects.Twins o o') (Domain.Twins o o') (announce d) (announce d') := by
  intro effects effects' heffects
  have hready : Effects.Twins o o' (readyTrace d) (readyTrace d') := by
    obtain ⟨rfl, rfl⟩ := h
    exact .line (fun htraces => htraces.1) (fun htraces => htraces.1) _
  rw [announce_apply, announce_apply]
  exact .ok h (heffects.append hready)

theorem agree_addLibrary (b : Bootstrap) (hsame : o.release = o'.release) (fs : Files) (fuel : Nat) {d d' : Domain}
    (h : d.Twins o o' d') :
    Agree (Effects.Twins o o') (Domain.Twins o o') (b.addLibrary fs fuel d) (b.addLibrary fs fuel d') := by
  unfold addLibrary
  cases b.library with
  | none => exact agree_announce h
  | some path =>
    refine (agree_readModule fs path).bind_eq fun library => ?_
    exact (agree_ran (h.execute hsame fuel .system library) path).bind fun _ _ => agree_announce

theorem agree_runBuiltin (b : Bootstrap) (hsame : o.release = o'.release) (fs : Files) (fuel id : Nat) {d d' : Domain}
    (h : d.Twins o o' d') :
    Agree (Effects.Twins o o') (Domain.Twins o o') (b.runBuiltin fs fuel id d) (b.runBuiltin fs fuel id d') := by
  refine (agree_ran (h.install.run hsame fuel (.execute id)) b.builtin).bind ?_
  intro _ _ hd
  exact b.agree_addLibrary hsame fs fuel hd

theorem agree_addCatalog (b : Bootstrap) (hsame : o.release = o'.release) (fs : Files) (fuel id : Nat) {d d' : Domain}
    (h : d.Twins o o' d') :
    Agree (Effects.Twins o o') (Domain.Twins o o') (b.addCatalog fs fuel id d) (b.addCatalog fs fuel id d') := by
  unfold addCatalog
  cases b.catalog with
  | none => exact b.agree_runBuiltin hsame fs fuel id h
  | some paths =>
    refine (agree_readCatalog fs paths).bind_eq fun catalog => ?_
    refine (agree_settle (h.setCatalog catalog) _).bind ?_
    intro _ _ hd
    exact b.agree_runBuiltin hsame fs fuel id hd

theorem agree_setup (b : Bootstrap) (hsame : b.options.release = o'.release) (fs : Files) (fuel : Nat) :
    Agree (Effects.Twins b.options o') (Domain.Twins b.options o') (b.setup fs fuel)
      ({ b with options := o' }.setup fs fuel) := by
  have hnew : Domain.Twins b.options o' { options := b.options } { options := o' } := ⟨rfl, rfl⟩
  rw [setup_eq, setup_eq]
  refine (agree_readModule fs b.builtin).bind_eq fun builtin => ?_
  obtain ⟨heffects, hloaded⟩ := (hnew.load (.inl hsame) .system builtin).answers hsame
  refine (agree_report heffects).bind_eq fun _ => (agree_settle hloaded _).bind ?_
  rintro ⟨id, d⟩ ⟨_, d'⟩ ⟨rfl, hd⟩
  exact b.agree_addCatalog hsame fs fuel _ hd

/-- What a bootstrap comes to. -/
structure Boots (o o' : DomainOptions) (r r' : Effects × Except BootstrapError Domain) : Prop where
  effects : r.1.Twins o o' r'.1
  result : AnswersAlike (Domain.Twins o o') r.2 r'.2

/-- Bootstraps that trace differently come to the same domain or fail with the same error. -/
theorem rel_run (b : Bootstrap) (hsame : b.options.release = o'.release) (fs : Files) (fuel : Nat) :
    Option.Rel (Boots b.options o') (b.run fs fuel) ({ b with options := o' }.run fs fuel) := by
  have hsetup := b.agree_setup hsame fs fuel #[] #[] (.refl _)
  unfold run
  generalize ({ b with options := o' } : Bootstrap) = b' at hsetup
  generalize b.setup fs fuel #[] = r, b'.setup fs fuel #[] = r' at hsetup
  cases hsetup with
  | ok hd heffects => exact .some ⟨heffects, .ok hd⟩
  | @error e _ _ heffects =>
    cases e with
    | none => exact .none
    | some e => exact .some ⟨heffects, .error⟩

end Bootstrap

end MovieVm
