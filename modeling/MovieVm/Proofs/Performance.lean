import MovieVm.Proofs.Numeral
import MovieVm.Proofs.Story

/-!
# Performing a file

A playback goes through the scenes of a file, however the events of the load and the ticks take turns.
-/

namespace MovieVm.Player

open Movie

/-! ## What is performed -/

/-- Whether a report is about what is played, and not about the load: the lines of a load do not tell of executions. -/
def Report.isPerformance : Report → Bool
  | .detail line => "Executing ".toList.isPrefixOf line.toList
  | _ => true

/-- The reports about what was played, in their order. -/
def Playback.performance (p : Playback) : List Report :=
  p.reports.toList.filter Report.isPerformance

/-- The lines of a load begin differently from those of executions. -/
theorem isPerformance_of_head? {line : String} (h : line.toList.head? ≠ some 'E') :
    (Report.detail line).isPerformance = false := by
  refine Bool.eq_false_iff.2 fun hprefix => h ?_
  obtain ⟨rest, hrest⟩ := List.isPrefixOf_iff_prefix.1 hprefix
  rw [← hrest]
  rfl

theorem isPerformance_executing (label : String) : (Report.detail s!"Executing {label}").isPerformance = true := by
  have hline : (s!"Executing {label}").toList = "Executing ".toList ++ label.toList := String.toList_append ..
  rw [Report.isPerformance, hline]
  exact List.isPrefixOf_iff_prefix.2 (List.prefix_append ..)

section

variable {fuel number : Nat} {url label : String} {d d' : Domain} {reports : List Report}

theorem isPerformance_outcomeReports (o : Outcome Value) (line : VmError → String) :
    ∀ r ∈ outcomeReports o line, r.isPerformance = true := by
  intro r hr
  obtain heffect | herror := List.mem_append.1 hr
  · obtain ⟨effect, -, rfl⟩ := List.mem_map.1 heffect
    rfl
  · unfold errorReports at herror
    split at herror
    · cases herror
    · obtain rfl | hstack := List.mem_cons.1 herror
      · rfl
      · obtain ⟨line, -, rfl⟩ := List.mem_map.1 hstack
        rfl

theorem Tries.isPerformance {block : AbcBlock} (h : Tries fuel label d block reports d') :
    ∀ r ∈ reports, r.isPerformance = true := by
  cases h with
  | unreadable =>
    intro r hr
    obtain rfl := List.mem_singleton.1 hr
    rfl
  | executed =>
    intro r hr
    obtain rfl | hr := List.mem_cons.1 hr
    · exact isPerformance_executing label
    · exact isPerformance_outcomeReports _ _ r hr

theorem Runs.isPerformance {blocks : List (AbcBlock × Nat)} (h : Runs fuel url number d blocks reports d') :
    ∀ r ∈ reports, r.isPerformance = true := by
  induction h with
  | nil => exact nofun
  | cons hfirst _ ih =>
    intro r hr
    obtain hr | hr := List.mem_append.1 hr
    · exact hfirst.isPerformance r hr
    · exact ih r hr

theorem Calls.isPerformance (h : Calls fuel number d reports d') : ∀ r ∈ reports, r.isPerformance = true := by
  cases h with
  | without => exact nofun
  | called => exact isPerformance_outcomeReports _ _

end

/-- Events of a load that has not failed say nothing of what is played. -/
theorem performance_observe (p : Playback) {e : LoadEvent} (h : ∀ fault, e ≠ .failed fault) :
    (p.observe e).performance = p.performance := by
  have hstring (text : String) : toString text = text := rfl
  have hreport (p : Playback) {line : String} (hline : line.toList.head? ≠ some 'E') :
      (p.report (.detail line)).performance = p.performance := by
    rw [Playback.report, Playback.performance, Array.toList_push, List.filter_append,
      List.filter_singleton, isPerformance_of_head? hline]
    exact List.append_nil _
  cases e with
  | failed fault => exact absurd rfl (h fault)
  | symbols batch =>
    obtain ⟨c, rest, hdigits, hdigit⟩ := Decimal.exists_toDigits_eq_cons batch.symbols.length
    have hfirst : (s!"{batch.symbols.length} eagerly parsed symbol(s)").toList.head? = some c := by
      simp [hstring, Nat.repr, hdigits]
    refine hreport p fun hexecuting => ?_
    obtain rfl := Option.some.inj (hfirst.symm.trans hexecuting)
    cases hdigit
  | opened file => exact hreport _ (by simp [hstring])
  | completed file => exact hreport _ (by simp [hstring])
  | progressed file => rfl
  | image symbol => rfl

/-! ## Scenes of a playback -/

def Playback.scene (p : Playback) : Scene :=
  ⟨p.played, p.stage.domain, p.performance⟩

/-- A playback goes through the story of a file, and the load of the file has told it of some events. -/
structure Follows (fuel : Nat) (file : File) (url : String) (d : Domain) (events : List LoadEvent) (p : Playback) :
    Prop where
  staged : Staged (some file) events p
  story : Story fuel file url d p.scene
  url_eq : p.stage.url = url
  opened : (∃ first, LoadEvent.opened first ∈ events) → p.stage.opened = true

variable {fuel : Nat} {file : File} {url : String} {d : Domain} {events new : List LoadEvent} {p q : Playback}
  {e : LoadEvent}

theorem follows_begun (fuel : Nat) (file : File) (url : String) (d : Domain) :
    Follows fuel file url d [] (begun d url) where
  staged := staged_begun (some file) d url
  story := .begin
  url_eq := rfl
  opened := by simp

theorem opened_observe (p : Playback) (e : LoadEvent) :
    (p.observe e).stage.opened = true ↔ p.stage.opened = true ∨ ∃ first, e = .opened first := by
  cases e <;> simp [Playback.observe, Playback.report, Stage.sync]

theorem url_observe (p : Playback) (e : LoadEvent) : (p.observe e).stage.url = p.stage.url := by
  cases e <;> rfl

theorem frameTaskScheduled_observe (p : Playback) (e : LoadEvent) :
    (p.observe e).stage.frameTaskScheduled = p.stage.frameTaskScheduled := by
  cases e <;> rfl

theorem frameTaskScheduled_observes (p : Playback) (new : List LoadEvent) :
    (new.foldl Playback.observe p).stage.frameTaskScheduled = p.stage.frameTaskScheduled := by
  induction new generalizing p with
  | nil => rfl
  | cons e new ih => rw [List.foldl_cons, ih, frameTaskScheduled_observe]

theorem scene_observe (p : Playback) (h : ∀ fault, e ≠ .failed fault) : (p.observe e).scene = p.scene := by
  rw [Playback.scene, Playback.scene, (nextFrame_observe p e).2.2, domain_observe, performance_observe p h]

/-- A load that does not fail does not interfere. -/
theorem scene_observes (p : Playback) (h : ∀ fault, LoadEvent.failed fault ∉ new) :
    (new.foldl Playback.observe p).scene = p.scene := by
  induction new generalizing p with
  | nil => rfl
  | cons e new ih =>
    rw [List.foldl_cons, ih _ fun fault hmem => h fault (List.mem_cons_of_mem _ hmem)]
    exact scene_observe p fun fault he => h fault (he ▸ List.mem_cons_self)

namespace Follows

/-- Events of the load make more frames known. -/
theorem observe (h : Follows fuel file url d events p) (hshown : ∀ f, e.file? = some f → f.Numbered ∧ f.Extends file)
    (hflawless : ∀ fault, e ≠ .failed fault) : Follows fuel file url d (events ++ [e]) (p.observe e) where
  staged := h.staged.observe fun f hf => ⟨(hshown f hf).1, file, rfl, (hshown f hf).2⟩
  story := scene_observe p hflawless ▸ h.story
  url_eq := (url_observe p e).trans h.url_eq
  opened := by
    rintro ⟨first, hfirst⟩
    rw [opened_observe]
    obtain hold | hnew := List.mem_append.1 hfirst
    · exact .inl (h.opened ⟨first, hold⟩)
    · exact .inr ⟨first, (List.mem_singleton.1 hnew).symm⟩

theorem observes (h : Follows fuel file url d events p) (hshown : ∀ f ∈ shownFiles new, f.Numbered ∧ f.Extends file)
    (hflawless : ∀ fault, LoadEvent.failed fault ∉ new) :
    Follows fuel file url d (events ++ new) (new.foldl Playback.observe p) := by
  induction new generalizing events p with
  | nil => rwa [List.append_nil]
  | cons e new ih =>
    have hfirst := h.observe (e := e)
      (fun f hf => hshown f (List.mem_filterMap.2 ⟨e, List.mem_cons_self, hf⟩))
      (fun fault he => hflawless fault (he ▸ List.mem_cons_self))
    have hrest := ih hfirst
      (fun f hf => by
        obtain ⟨e', he', hf'⟩ := List.mem_filterMap.1 hf
        exact hshown f (List.mem_filterMap.2 ⟨e', List.mem_cons_of_mem _ he', hf'⟩))
      (fun fault hmem => hflawless fault (List.mem_cons_of_mem _ hmem))
    rwa [List.append_assoc] at hrest

/-- It does not matter who has scheduled the ticks. -/
theorem schedule (h : Follows fuel file url d events p) (frameTaskScheduled : Bool) :
    Follows fuel file url d events { p with stage := { p.stage with frameTaskScheduled } } where
  staged := ⟨h.staged.frames, h.staged.caughtUp, h.staged.within, h.staged.next, h.staged.counted, h.staged.status⟩
  story := h.story
  url_eq := h.url_eq
  opened := h.opened

end Follows

/-! ## Ticks of a playback -/

/-- The stage has no frame that the file does not have. -/
theorem Staged.size_le (h : Staged (some file) events p) : p.stage.frames.size ≤ file.frames.size := by
  refine Nat.le_of_not_lt fun hlt => ?_
  obtain ⟨file', shown, hfile, hshown, -⟩ := h.frames (Array.getElem?_eq_getElem hlt)
  obtain rfl := Option.some.inj hfile
  rw [Array.getElem?_eq_none (Nat.le_refl _)] at hshown
  cases hshown

/-- When a file is complete, the stage has all of it. -/
theorem Staged.size_eq (h : Staged (some file) events p) (hcompleted : .completed file ∈ events) :
    p.stage.frames.size = file.frames.size :=
  Nat.le_antisymm h.size_le (h.caughtUp file (List.mem_filterMap.2 ⟨_, hcompleted, rfl⟩))

/-- What a tick comes to: the playback goes on through the story, and it is finished only where the story ends. -/
structure Ticked (fuel : Nat) (file : File) (url : String) (d : Domain) (events : List LoadEvent) (p q : Playback)
    (t : Tick) : Prop where
  follows : Follows fuel file url d events q
  reports : ∃ new : List Report, q.reports = p.reports ++ new.toArray ∧ q.performance = p.performance ++ new
  opened : q.stage.opened = p.stage.opened
  scheduled : q.stage.frameTaskScheduled = p.stage.frameTaskScheduled
  finished : t = .finished → ¬ q.scene.GoesOn file

namespace Follows

/-- A tick that plays no frame changes nothing. -/
theorem idle (h : Follows fuel file url d events p) {t : Tick} (hfinished : t = .finished → ¬ p.scene.GoesOn file) :
    Ticked fuel file url d events p p t :=
  ⟨h, ⟨[], Array.append_empty.symm, (List.append_nil _).symm⟩, rfl, rfl, hfinished⟩

/-- A tick that plays the next frame goes on with the story. -/
theorem plays (h : Follows fuel file url d events p) (hgoes : p.scene.GoesOn file)
    (hplays : Plays fuel p (p.scene.next file) (unrun (some file) p.played (p.scene.next file)) q)
    (hstaged : Staged (some file) events q) : Ticked fuel file url d events p q .played := by
  have hplayed := hplays.played
  cases hplays with
  | @intro d' d'' ran called hruns hcalls =>
    rw [h.url_eq] at hruns
    have hall : ∀ r ∈ ran ++ called ++ [.frame (p.scene.next file)], r.isPerformance = true := by
      intro r hr
      obtain hr | hr := List.mem_append.1 hr
      · obtain hr | hr := List.mem_append.1 hr
        · exact hruns.isPerformance r hr
        · exact hcalls.isPerformance r hr
      · obtain rfl := List.mem_singleton.1 hr
        rfl
    generalize hq : Playback.mk _ _ = q at hplayed hstaged
    have hperformance : q.performance =
        p.performance ++ (ran ++ called ++ [.frame (p.scene.next file)]) := by
      rw [← hq, Playback.performance, Array.toList_append, List.filter_append, List.filter_eq_self.2 hall]
      rfl
    have hscene : q.scene = ⟨p.scene.played ++ [p.scene.next file], d'',
        p.scene.reports ++ (ran ++ called ++ [.frame (p.scene.next file)])⟩ := by
      rw [Playback.scene, hplayed, hperformance, ← hq]
      rfl
    subst hq
    exact ⟨⟨hstaged, hscene ▸ .next h.story hgoes hruns hcalls, h.url_eq, h.opened⟩, ⟨_, rfl, hperformance⟩, rfl, rfl,
      nofun⟩

/-- As long as nobody has asked to quit, ticks go through the story. -/
theorem tick {t : Tick} (h : Follows fuel file url d events p) (hquiet : ∀ r ∈ p.performance, isQuit r = false)
    (hover : p.stage.status ≠ .loading → .completed file ∈ events) (htick : p.tick fuel = some (q, t)) :
    Ticked fuel file url d events p q t := by
  have hadvances := h.staged.advances fuel
  have hstaged := h.staged.tick htick
  obtain hmore | hend := Nat.lt_or_ge (p.played.getLastD 0) p.stage.frames.size
  · obtain ⟨_, hplays, hq⟩ := (hadvances.onwards hmore _).1 htick
    obtain ⟨rfl, rfl⟩ := Prod.mk.inj hq
    -- A next frame of the stage is one of the file too.
    have hless : p.played.getLastD 0 < file.frames.size := Nat.lt_of_lt_of_le hmore h.staged.size_le
    have hnext : p.scene.next file = p.played.getLastD 0 + 1 := if_pos hless
    exact h.plays ⟨hquiet, .inl hless⟩ (hnext ▸ hplays) hstaged
  · by_cases hstatus : p.stage.status = .loading
    · obtain ⟨rfl, rfl⟩ := Prod.mk.inj (Option.some.inj ((hadvances.waits hend hstatus).symm.trans htick))
      exact h.idle nofun
    · -- The load is over: where the frames of the stage end, those of the file do.
      have hsize := h.staged.size_eq (hover hstatus)
      have hlast : ¬ p.played.getLastD 0 < file.frames.size := by rwa [← hsize, Nat.not_lt]
      by_cases hnone : p.stage.frames.size = 0 ∨ handler? p.stage.domain = none
      · obtain ⟨rfl, rfl⟩ := Prod.mk.inj (Option.some.inj ((hadvances.finishes hend hstatus hnone).symm.trans htick))
        refine h.idle fun _ hgoes => ?_
        obtain hless | ⟨hsome, hhandler⟩ := hgoes.more
        · exact hlast hless
        · exact hnone.elim (fun hempty => hsome (hsize.symm.trans hempty)) hhandler
      · obtain ⟨hsome, hhandler⟩ := not_or.1 hnone
        obtain ⟨_, hplays, hq⟩ :=
          (hadvances.around hend hstatus hsome (Option.isSome_iff_ne_none.2 hhandler) (q, t)).1 htick
        obtain ⟨rfl, rfl⟩ := Prod.mk.inj hq
        have hnext : p.scene.next file = 1 := if_neg hlast
        exact h.plays ⟨hquiet, .inr ⟨hsize ▸ hsome, hhandler⟩⟩ (hnext ▸ hplays) hstaged

end Follows

end MovieVm.Player
