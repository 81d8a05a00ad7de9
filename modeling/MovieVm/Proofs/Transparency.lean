import Mathlib.Data.List.Forall2
import MovieVm.Proofs.Agreement

/-!
# Release and tracing are transparent

A program uses a domain by one operation after the other, and time passes while code runs. Under options that skip the
verifier, or trace more, the same use gets the same answers, as long as the verifier would reject nothing.
-/

namespace MovieVm

open Bytecode

variable {o o' : DomainOptions} {d d' : Domain}

/-! ## Operations -/

/-- The turn with effects that came before. -/
def Turn.announced (effects : Effects) : Turn → Turn
  | .running m => .running { m with effects := effects ++ m.effects }
  | .finished x => .finished { x with effects := effects ++ x.effects }

theorem Turn.Tracks.announced {t t' : Turn} (h : t.Tracks o o' t') {effects effects' : Effects}
    (heffects : effects.Twins o o' effects') : Turn.Tracks o o' (t.announced effects) (t'.announced effects') := by
  cases h with
  | rejected hskips h => exact .rejected hskips h
  | twins h =>
    cases h with
    | running h => exact .running { h with effects := heffects.append h.effects }
    | finished h => exact .finished { h with effects := heffects.append h.effects }

/-- The same answer of both domains. -/
theorem Domain.Twins.answer (h : d.Twins o o' d') (result : Except VmError Value) :
    Turn.Tracks o o' (.finished ⟨d, #[], result⟩) (.finished ⟨d', #[], result⟩) :=
  .finished ⟨h, .refl _, rfl⟩

theorem Domain.Twins.aged (h : d.Twins o o' d') (elapsed : Nat) :
    Domain.Twins o o' { d with elapsed } { d' with elapsed } := by
  obtain ⟨rfl, rfl⟩ := h
  exact ⟨rfl, rfl⟩

theorem Turn.Twins.aged {t t' : Turn} (h : t.Twins o o' t') (elapsed : Nat) :
    Turn.Twins o o' (t.aged elapsed) (t'.aged elapsed) := by
  cases h with
  | running h => exact .running (h.withDomain (h.domain.aged elapsed))
  | finished h => exact .finished { h with domain := h.domain.aged elapsed }

namespace Operation

/-- The first turn of an operation, with all that was written by then. -/
def begin (d : Domain) (operation : Operation) : Turn :=
  (operation.start d).announced (operation.announcement d)

/-- The number that a load gives its module. -/
def handle? (d : Domain) : Operation → Option Nat
  | .load scope m => (d.load scope m).2.toOption.map (·.1)
  | _ => none

theorem tracks (h : d.Twins o o' d') (hrelease : o.release = o'.release ∨ o.Skips o') (operation : Operation) :
    Turn.Tracks o o' (operation.begin d) (operation.begin d') := by
  have hready : d'.isInitialized = d.isInitialized := by rw [h.same]
  have hsilent : Effects.Twins o o' #[] #[] := .refl _
  cases operation with
  | attach catalog =>
    refine Turn.Tracks.announced ?_ hsilent
    have hset := h.setCatalog catalog
    simp only [start]
    generalize d.setCatalog catalog = left, d'.setCatalog catalog = right at hset
    cases hset with
    | error => exact h.answer _
    | ok hd => exact hd.answer _
  | install => exact (h.install.answer _).announced hsilent
  | load scope m =>
    have hloads := h.load hrelease scope m
    simp only [begin, start, announcement]
    generalize d.load scope m = left, d'.load scope m = right at hloads
    cases hloads with
    | rejected hskips hkind => exact .rejected hskips (decide_eq_true hkind)
    | failed heffects => exact (h.answer _).announced heffects
    | loaded heffects hd => exact (hd.answer _).announced heffects
  | execute scope m =>
    have hloads := h.load hrelease scope m
    simp only [begin, start, announcement, hready]
    cases d.isInitialized with
    | false => exact (h.answer _).announced hsilent
    | true =>
      generalize d.load scope m = left, d'.load scope m = right at hloads
      cases hloads with
      | rejected hskips hkind => exact .rejected hskips (decide_eq_true hkind)
      | failed heffects => exact (h.answer _).announced heffects
      | @loaded _ _ id _ _ heffects hd => exact ((Demand.execute id).tracks hd hrelease).announced heffects
  | store scope name v => exact ((h.setGlobal scope name v).answer _).announced hsilent
  | run demand => exact (demand.tracks h hrelease).announced hsilent

/-- A module gets the same number, unless it is rejected. -/
theorem handle?_eq (h : d.Twins o o' d') (hrelease : o.release = o'.release ∨ o.Skips o') (operation : Operation) :
    operation.handle? d' = operation.handle? d ∨
      o.Skips o' ∧ ∃ x, operation.begin d = .finished x ∧ x.isRejection = true := by
  cases operation with
  | load scope m =>
    have hloads := h.load hrelease scope m
    simp only [begin, start, announcement, handle?]
    generalize d.load scope m = left, d'.load scope m = right at hloads
    cases hloads with
    | rejected hskips hkind => exact .inr ⟨hskips, _, rfl, decide_eq_true hkind⟩
    | failed => exact .inl rfl
    | loaded => exact .inl rfl
  | _ => exact .inl rfl

end Operation

/-! ## Dialogues -/

/-- An answer to an operation. -/
structure Answer where
  outcome : Outcome Value
  handle : Option Nat := none

structure Answer.Twins (o o' : DomainOptions) (a a' : Answer) : Prop where
  outcome : a.outcome.Twins o o' a'.outcome
  handle : a'.handle = a.handle

/-- A domain in use: the turn it is at, and the answers that it has given. -/
structure Dialogue where
  turn : Turn
  answers : List Answer := []

namespace Dialogue

/-- A domain that is yet to be asked. -/
def opening (d : Domain) : Dialogue :=
  { turn := .finished ⟨d, #[], .ok .undefined⟩ }

/-- The dialogue goes on with a turn, which may be an answer. -/
def follow (c : Dialogue) (t : Turn) (handle : Option Nat) : Dialogue :=
  match t with
  | .running _ => { c with turn := t }
  | .finished x => ⟨t, c.answers ++ [⟨x, handle⟩]⟩

/-- An operation can begin when no code runs, and only running code makes steps. -/
def act (c : Dialogue) : Act → Dialogue
  | .begin operation =>
    match c.turn with
    | .finished x => c.follow (operation.begin x.domain) (operation.handle? x.domain)
    | .running _ => c
  | .step =>
    match c.turn with
    | .running m => c.follow m.step none
    | .finished _ => c
  | .wait elapsed => { c with turn := c.turn.aged elapsed }

def after (c : Dialogue) (acts : List Act) : Dialogue :=
  acts.foldl act c

/-- Both are at the same turn and have given the same answers. -/
structure Twins (o o' : DomainOptions) (c c' : Dialogue) : Prop where
  turn : c.turn.Twins o o' c'.turn
  answers : List.Forall₂ (Answer.Twins o o') c.answers c'.answers

/-- Some operation has ended because a module was rejected. -/
def Rejects (c : Dialogue) : Prop :=
  ∃ a ∈ c.answers, a.outcome.isRejection = true

/-- The dialogues are twins, or a module was rejected where the other does not look at it. -/
def Tracks (o o' : DomainOptions) (c c' : Dialogue) : Prop :=
  c.Twins o o' c' ∨ o.Skips o' ∧ c.Rejects

variable {c c' : Dialogue}

theorem rejects_follow {x : Outcome Value} (hx : x.isRejection = true) (c : Dialogue) (handle : Option Nat) :
    (c.follow (.finished x) handle).Rejects :=
  ⟨⟨x, handle⟩, List.mem_append_right _ (List.mem_singleton_self _), hx⟩

/-- An answer is never taken back. -/
theorem Rejects.act (h : c.Rejects) (act : Act) : (c.act act).Rejects := by
  obtain ⟨a, ha, hrejection⟩ := h
  have hfollow : ∀ t handle, (c.follow t handle).Rejects := by
    intro t handle
    cases t with
    | running m => exact ⟨a, ha, hrejection⟩
    | finished x => exact ⟨a, List.mem_append_left _ ha, hrejection⟩
  unfold Dialogue.act
  cases act with
  | wait elapsed => exact ⟨a, ha, hrejection⟩
  | begin operation =>
    cases c.turn with
    | running m => exact ⟨a, ha, hrejection⟩
    | finished x => exact hfollow _ _
  | step =>
    cases c.turn with
    | running m => exact hfollow _ _
    | finished x => exact ⟨a, ha, hrejection⟩

theorem Twins.follow (h : c.Twins o o' c') {t t' : Turn} (ht : t.Tracks o o' t') {handle handle' : Option Nat}
    (hhandle : handle' = handle ∨ o.Skips o' ∧ ∃ x, t = .finished x ∧ x.isRejection = true) :
    Tracks o o' (c.follow t handle) (c'.follow t' handle') := by
  rcases hhandle with rfl | ⟨hskips, x, rfl, hx⟩
  · cases ht with
    | rejected hskips hx => exact .inr ⟨hskips, rejects_follow hx c _⟩
    | twins ht =>
      cases ht with
      | running hm => exact .inl ⟨.running hm, h.answers⟩
      | finished hx =>
        have hanswer : Answer.Twins o o' ⟨_, handle'⟩ ⟨_, handle'⟩ := ⟨hx, rfl⟩
        exact .inl ⟨.finished hx, List.rel_append h.answers (.cons hanswer .nil)⟩
  · exact .inr ⟨hskips, rejects_follow hx c _⟩

theorem Twins.act (h : c.Twins o o' c') (hrelease : o.release = o'.release ∨ o.Skips o') (act : Act) :
    Tracks o o' (c.act act) (c'.act act) := by
  have hturn := h.turn
  unfold Dialogue.act
  cases act with
  | wait elapsed => exact .inl ⟨hturn.aged elapsed, h.answers⟩
  | begin operation =>
    generalize c.turn = t, c'.turn = t' at hturn
    cases hturn with
    | running => exact .inl h
    | finished hx => exact h.follow (operation.tracks hx.domain hrelease) (operation.handle?_eq hx.domain hrelease)
  | step =>
    generalize c.turn = t, c'.turn = t' at hturn
    cases hturn with
    | running hm => exact h.follow (hm.step hrelease) (.inl rfl)
    | finished => exact .inl h

theorem Tracks.after (h : Tracks o o' c c') (hrelease : o.release = o'.release ∨ o.Skips o') (acts : List Act) :
    Tracks o o' (c.after acts) (c'.after acts) := by
  induction acts generalizing c c' with
  | nil => exact h
  | cons act acts ih =>
    rcases h with htwins | ⟨hskips, hrejects⟩
    · exact ih (htwins.act hrelease act)
    · exact ih (.inr ⟨hskips, hrejects.act act⟩)

end Dialogue

/-! ## The other way round -/

theorem Effects.Twins.symm {effects effects' : Effects} (h : effects.Twins o o' effects') :
    effects'.Twins o' o effects :=
  ⟨h.events.symm, h.more, h.fewer⟩

theorem Domain.Twins.symm (h : d.Twins o o' d') : d'.Twins o' o d := by
  obtain ⟨rfl, rfl⟩ := h
  exact ⟨rfl, rfl⟩

theorem Outcome.Twins.symm {x x' : Outcome Value} (h : x.Twins o o' x') : x'.Twins o' o x :=
  ⟨h.domain.symm, h.effects.symm, h.result.symm⟩

theorem Turn.Twins.symm {t t' : Turn} (h : t.Twins o o' t') : t'.Twins o' o t := by
  cases h with
  | running h => exact .running ⟨h.domain.symm, h.effects.symm, h.frames.symm, h.base.symm⟩
  | finished h => exact .finished h.symm

theorem Dialogue.Twins.symm {c c' : Dialogue} (h : c.Twins o o' c') : c'.Twins o' o c where
  turn := h.turn.symm
  answers := by
    apply List.Forall₂.flip
    exact h.answers.imp fun _ _ ha => ⟨ha.outcome.symm, ha.handle.symm⟩

/-! ## Transparency -/

def Domain.withOptions (d : Domain) (options : DomainOptions) : Domain :=
  { d with options }

namespace Dialogue

theorem twins_opening (d : Domain) (o o' : DomainOptions) :
    (opening (d.withOptions o)).Twins o o' (opening (d.withOptions o')) :=
  ⟨.finished ⟨⟨rfl, rfl⟩, .refl _, rfl⟩, .nil⟩

theorem twins_after (d : Domain) (acts : List Act)
    (hverified : o.release = o'.release ∨ o.Skips o' ∧ ¬((opening (d.withOptions o)).after acts).Rejects) :
    Twins o o' ((opening (d.withOptions o)).after acts) ((opening (d.withOptions o')).after acts) := by
  have hstart : Tracks o o' (opening (d.withOptions o)) (opening (d.withOptions o')) := .inl (twins_opening d o o')
  rcases hverified with hsame | ⟨hskips, haccepted⟩
  · rcases hstart.after (.inl hsame) acts with htwins | ⟨hskips, _⟩
    · exact htwins
    · rw [hskips.1, hskips.2] at hsame
      cases hsame
  · exact (hstart.after (.inr hskips) acts).resolve_right fun hrejected => haccepted hrejected.2

/-- Two domains that differ in nothing but their options are used in the same way, and time passes for both in the same
way. As long as the one that verifies its modules, when the other does not, rejects none, both are at the same turn and
have given the same answers: the results and errors, the events for the host and all that is left of the domains are
the same, and one that traces more has written more lines. -/
theorem release_and_tracing_are_transparent (d : Domain) (o o' : DomainOptions) (acts : List Act)
    (hverified : o.Skips o' → ¬((opening (d.withOptions o)).after acts).Rejects)
    (hverified' : o'.Skips o → ¬((opening (d.withOptions o')).after acts).Rejects) :
    Twins o o' ((opening (d.withOptions o)).after acts) ((opening (d.withOptions o')).after acts) := by
  by_cases hsame : o.release = o'.release
  · exact twins_after d acts (.inl hsame)
  · cases hrelease : o.release with
    | false =>
      have hskips : o.Skips o' := ⟨hrelease, by simpa [hrelease] using hsame⟩
      exact twins_after d acts (.inr ⟨hskips, hverified hskips⟩)
    | true =>
      have hskips : o'.Skips o := ⟨by simpa [hrelease] using hsame, hrelease⟩
      exact (twins_after d acts (.inr ⟨hskips, hverified' hskips⟩)).symm

/-- Under these options nothing is verified and everything is traced. -/
def tracedRelease : DomainOptions where
  release := true
  traceRuntime := true
  traceInterpreter := true

/-- The reporter is found in the catalog, and its definition is called when some time has passed. -/
def reporterActs : List Act :=
  .begin (.run reporterDemand) :: List.replicate 7 .step ++
    (.wait 40 :: .begin (.load .application reporter) :: .begin (.run (.invoke (.function ⟨1, 0⟩) [])) ::
      List.replicate 5 .step)

theorem reporter_is_transparent :
    (DomainOptions.Skips {} tracedRelease →
        ¬((opening (reporterDomain.withOptions {})).after reporterActs).Rejects) ∧
      (tracedRelease.Skips {} →
        ¬((opening (reporterDomain.withOptions tracedRelease)).after reporterActs).Rejects) ∧
      Twins {} tracedRelease ((opening (reporterDomain.withOptions {})).after reporterActs)
        ((opening (reporterDomain.withOptions tracedRelease)).after reporterActs) := by
  have hverified : DomainOptions.Skips {} tracedRelease →
      ¬((opening (reporterDomain.withOptions {})).after reporterActs).Rejects := by
    intro _
    unfold Rejects
    decide +kernel
  have hverified' : tracedRelease.Skips {} →
      ¬((opening (reporterDomain.withOptions tracedRelease)).after reporterActs).Rejects := by
    intro hskips
    cases hskips.1
  exact ⟨hverified, hverified',
    release_and_tracing_are_transparent reporterDomain {} tracedRelease reporterActs hverified hverified'⟩

end Dialogue

end MovieVm
