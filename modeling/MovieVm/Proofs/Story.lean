import MovieVm.Proofs.FrameOrder
import MovieVm.Player.Basic

/-!
# The story of a file

What is played of a file follows from the file and the domain in which it begins: which frame comes next, what its
runs leave behind, and when there is nothing more to play. Nothing of it depends on how the file arrives.
-/

namespace MovieVm

/-! ## More fuel -/

variable {fuel fuel' : Nat}

theorem Turn.run_of_le {t : Turn} {o : Outcome Value} (hfuel : fuel ≤ fuel') (h : t.run fuel = some o) :
    t.run fuel' = some o := by
  induction fuel generalizing t fuel' with
  | zero =>
    cases t with
    | finished o' =>
      rw [Turn.run] at h ⊢
      exact h
    | running m => cases h
  | succ fuel ih =>
    cases t with
    | finished o' =>
      rw [Turn.run] at h ⊢
      exact h
    | running m =>
      obtain ⟨more, rfl⟩ : ∃ more, fuel' = more + 1 := ⟨fuel' - 1, by omega⟩
      rw [Turn.run] at h ⊢
      exact ih (Nat.le_of_succ_le_succ hfuel) h

namespace Domain

variable {d : Domain} {o : Outcome Value}

theorem invoke_of_le {function : Value} {args : List Value} (hfuel : fuel ≤ fuel')
    (h : d.invoke fuel function args = some o) : d.invoke fuel' function args = some o :=
  Turn.run_of_le hfuel h

theorem executeModule_of_le {id : Nat} (hfuel : fuel ≤ fuel') (h : d.executeModule fuel id = some o) :
    d.executeModule fuel' id = some o := by
  rw [executeModule] at h ⊢
  by_cases hnew : (!d.isInitialized) = true
  · rw [if_pos hnew] at h ⊢
    exact h
  · rw [if_neg hnew] at h ⊢
    cases hmodule : d.module? id with
    | none =>
      rw [hmodule] at h
      exact h
    | some m =>
      rw [hmodule] at h
      exact Turn.run_of_le hfuel h

theorem execute_of_le {scope : Scope} {m : Bytecode.Module} (hfuel : fuel ≤ fuel')
    (h : d.execute fuel scope m = some o) : d.execute fuel' scope m = some o := by
  rw [execute] at h ⊢
  by_cases hnew : (!d.isInitialized) = true
  · rw [if_pos hnew] at h ⊢
    exact h
  · rw [if_neg hnew] at h ⊢
    rcases hload : d.load scope m with ⟨effects, loaded⟩
    rw [hload] at h
    cases loaded with
    | error e => exact h
    | ok loaded =>
      obtain ⟨o', ho', hrest⟩ := Option.bind_eq_some_iff.1 h
      exact Option.bind_eq_some_iff.2 ⟨o', executeModule_of_le hfuel ho', hrest⟩

end Domain

namespace Player

open Bytecode Movie

variable {url label : String} {number : Nat} {d d₁ d₂ : Domain} {reports reports₁ reports₂ : List Report}

theorem Tries.of_le {block : AbcBlock} (hfuel : fuel ≤ fuel') (h : Tries fuel label d block reports d₁) :
    Tries fuel' label d block reports d₁ := by
  cases h with
  | unreadable h => exact .unreadable h
  | executed h ho => exact .executed h (Domain.execute_of_le hfuel ho)

theorem Runs.of_le {blocks : List (AbcBlock × Nat)} (hfuel : fuel ≤ fuel')
    (h : Runs fuel url number d blocks reports d₁) : Runs fuel' url number d blocks reports d₁ := by
  induction h with
  | nil d => exact .nil d
  | cons hfirst _ ih => exact .cons (hfirst.of_le hfuel) ih

theorem Calls.of_le (hfuel : fuel ≤ fuel') (h : Calls fuel number d reports d₁) : Calls fuel' number d reports d₁ := by
  cases h with
  | without h => exact .without h
  | called h ho => exact .called h (Domain.invoke_of_le hfuel ho)

/-! ## One outcome -/

theorem Tries.unique {block : AbcBlock} (h₁ : Tries fuel label d block reports₁ d₁)
    (h₂ : Tries fuel label d block reports₂ d₂) : reports₁ = reports₂ ∧ d₁ = d₂ := by
  cases h₁ with
  | unreadable hdecode₁ =>
    cases h₂ with
    | unreadable hdecode₂ =>
      cases hdecode₁.symm.trans hdecode₂
      exact ⟨rfl, rfl⟩
    | executed hdecode₂ => cases hdecode₁.symm.trans hdecode₂
  | executed hdecode₁ ho₁ =>
    cases h₂ with
    | unreadable hdecode₂ => cases hdecode₁.symm.trans hdecode₂
    | executed hdecode₂ ho₂ =>
      cases hdecode₁.symm.trans hdecode₂
      cases ho₁.symm.trans ho₂
      exact ⟨rfl, rfl⟩

theorem Runs.unique {blocks : List (AbcBlock × Nat)} (h₁ : Runs fuel url number d blocks reports₁ d₁)
    (h₂ : Runs fuel url number d blocks reports₂ d₂) : reports₁ = reports₂ ∧ d₁ = d₂ := by
  induction h₁ generalizing reports₂ d₂ with
  | nil d =>
    cases h₂
    exact ⟨rfl, rfl⟩
  | cons hfirst₁ _ ih =>
    cases h₂ with
    | cons hfirst₂ hrest₂ =>
      obtain ⟨rfl, rfl⟩ := hfirst₁.unique hfirst₂
      obtain ⟨rfl, rfl⟩ := ih hrest₂
      exact ⟨rfl, rfl⟩

theorem Calls.unique (h₁ : Calls fuel number d reports₁ d₁) (h₂ : Calls fuel number d reports₂ d₂) :
    reports₁ = reports₂ ∧ d₁ = d₂ := by
  cases h₁ with
  | without hnone₁ =>
    cases h₂ with
    | without => exact ⟨rfl, rfl⟩
    | called hsome₂ => cases hnone₁.symm.trans hsome₂
  | called hsome₁ ho₁ =>
    cases h₂ with
    | without hnone₂ => cases hnone₂.symm.trans hsome₁
    | called hsome₂ ho₂ =>
      cases hsome₁.symm.trans hsome₂
      cases ho₁.symm.trans ho₂
      exact ⟨rfl, rfl⟩

/-! ## Scenes -/

/-- How far a story has come: the frames that were played, the domain, and what was reported. -/
structure Scene where
  played : List Nat
  domain : Domain
  reports : List Report

namespace Scene

/-- The number of the frame that comes next. -/
def next (scene : Scene) (file : File) : Nat :=
  if scene.played.getLastD 0 < file.frames.size then scene.played.getLastD 0 + 1 else 1

/-- Whether a story goes on: nobody has asked to quit, and there is a frame behind the last one or a handler for
which the first one comes again. -/
structure GoesOn (scene : Scene) (file : File) : Prop where
  quiet : ∀ r ∈ scene.reports, isQuit r = false
  more : scene.played.getLastD 0 < file.frames.size ∨ file.frames.size ≠ 0 ∧ handler? scene.domain ≠ none

end Scene

/-- The scenes of a file, one for each frame that is played. -/
inductive Story (fuel : Nat) (file : File) (url : String) (d : Domain) : Scene → Prop where
  | begin : Story fuel file url d ⟨[], d, []⟩
  | next {scene : Scene} {d' d'' : Domain} {ran called : List Report} (h : Story fuel file url d scene)
    (hgoes : scene.GoesOn file)
    (hruns : Runs fuel url (scene.next file) scene.domain
      (unrun (some file) scene.played (scene.next file)).zipIdx ran d')
    (hcalls : Calls fuel (scene.next file) d' called d'') :
    Story fuel file url d ⟨scene.played ++ [scene.next file], d'',
      scene.reports ++ (ran ++ called ++ [.frame (scene.next file)])⟩

variable {file : File} {first second : Scene}

theorem Story.of_le (hfuel : fuel ≤ fuel') (h : Story fuel file url d first) : Story fuel' file url d first := by
  induction h with
  | begin => exact .begin
  | next _ hgoes hruns hcalls ih => exact .next ih hgoes (hruns.of_le hfuel) (hcalls.of_le hfuel)

/-- Scenes of one file at which as many frames were played are the same. -/
theorem Story.eq_of_length (h₁ : Story fuel file url d first) (h₂ : Story fuel file url d second)
    (hlength : first.played.length = second.played.length) : first = second := by
  induction h₁ generalizing second with
  | begin =>
    cases h₂ with
    | begin => rfl
    | next => simp at hlength
  | next _ _ hruns₁ hcalls₁ ih =>
    cases h₂ with
    | begin => simp at hlength
    | next h₂ _ hruns₂ hcalls₂ =>
      obtain rfl := ih h₂ (by simpa using hlength)
      obtain ⟨rfl, rfl⟩ := hruns₁.unique hruns₂
      obtain ⟨rfl, rfl⟩ := hcalls₁.unique hcalls₂
      rfl

/-- A story does not come further than a scene behind which it does not go on. -/
theorem Story.length_le (h₁ : Story fuel file url d first) (hends : ¬ first.GoesOn file)
    (h₂ : Story fuel file url d second) : second.played.length ≤ first.played.length := by
  induction h₂ with
  | begin => exact Nat.zero_le _
  | @next scene d' d'' ran called h₂ hgoes hruns hcalls ih =>
    have hshort : scene.played.length ≠ first.played.length := by
      intro hlength
      obtain rfl := h₂.eq_of_length h₁ hlength
      exact hends hgoes
    rw [List.length_append]
    exact Nat.lt_of_le_of_ne ih hshort

/-- A story has one end. -/
theorem Story.unique (h₁ : Story fuel file url d first) (hends₁ : ¬ first.GoesOn file)
    (h₂ : Story fuel file url d second) (hends₂ : ¬ second.GoesOn file) : first = second :=
  h₁.eq_of_length h₂ (Nat.le_antisymm (h₂.length_le hends₂ h₁) (h₁.length_le hends₁ h₂))

end Player

end MovieVm
