import MovieVm.Movie.Draft
import MovieVm.Player.Basic
import MovieVm.Proofs.GrowingFile
import MovieVm.Proofs.Playing

/-!
# The order of frames

Events of a load and ticks may come in any order. The stage follows the growing file, the frames are played one after
the other, and the modules of a frame are run when it is played for the first time.
-/

namespace MovieVm.Player

open Bytecode Movie

/-! ## Cues -/

/-- What a playback goes on by. -/
inductive Cue where
  | event (event : LoadEvent)
  | tick

def Cue.event? : Cue → Option LoadEvent
  | event e => some e
  | tick => none

def follow (fuel : Nat) : Playback → List Cue → Option Playback
  | p, [] => some p
  | p, .event e :: cues => follow fuel (p.observe e) cues
  | p, .tick :: cues => (p.tick fuel).bind fun (q, _) => follow fuel q cues

/-- A load is begun on a new stage. -/
def begun (d : Domain) (url : String) : Playback :=
  { stage := { domain := d, url, status := .loading } }

/-- It is what `load` makes of the stage of a domain, whatever is loaded. -/
theorem begun_stage (s : Schedule Action) (d : Domain) (source : Except FileFault (List UInt8)) (url : String)
    (chunkSize : Nat) : (load s { domain := d } source url chunkSize).2.2 = (begun d url).stage := by
  rw [load, begun]

/-! ## What a playback has come to -/

/-- The modules that a frame has yet to run. -/
def unrun (file? : Option File) (played : List Nat) (number : Nat) : List AbcBlock :=
  if number ∈ played then [] else (file?.map (·.frameBlocks (number - 1))).getD []

/-- A playback after some events of the load of a file. The frames of the stage are a beginning of those of the file,
and all that were shown; those that were played have given their modules away. -/
structure Staged (file? : Option File) (events : List LoadEvent) (p : Playback) : Prop where
  frames : ∀ {i : Nat} {frame : StageFrame}, p.stage.frames[i]? = some frame → ∃ file shown, file? = some file ∧
    file.frames[i]? = some shown ∧
    frame = ⟨shown.label, unrun file? p.played (i + 1), decide (i + 1 ∈ p.played)⟩
  caughtUp : ∀ file ∈ shownFiles events, file.frames.size ≤ p.stage.frames.size
  within : ∀ n ∈ p.played, n ≤ p.stage.frames.size
  next : p.stage.nextFrame = p.played.getLastD 0
  counted : p.stage.framesProcessed = p.played.length
  status : p.stage.status = .loading ↔ ∀ e ∈ events, e.isTerminal = false

/-- What the next tick does. Behind the last frame that was played comes the next one of the stage. When there is none,
it waits for a load that goes on, and else plays the first one again as long as there is a handler. -/
structure Advances (fuel : Nat) (file? : Option File) (p : Playback) : Prop where
  onwards : p.played.getLastD 0 < p.stage.frames.size → ∀ result, p.tick fuel = some result ↔
    ∃ q, Plays fuel p (p.played.getLastD 0 + 1) (unrun file? p.played (p.played.getLastD 0 + 1)) q ∧
      result = (q, .played)
  around : p.stage.frames.size ≤ p.played.getLastD 0 → p.stage.status ≠ .loading → p.stage.frames.size ≠ 0 →
    (handler? p.stage.domain).isSome → ∀ result, p.tick fuel = some result ↔
    ∃ q, Plays fuel p 1 (unrun file? p.played 1) q ∧ result = (q, .played)
  waits : p.stage.frames.size ≤ p.played.getLastD 0 → p.stage.status = .loading →
    p.tick fuel = some (p, .waiting)
  finishes : p.stage.frames.size ≤ p.played.getLastD 0 → p.stage.status ≠ .loading →
    p.stage.frames.size = 0 ∨ handler? p.stage.domain = none → p.tick fuel = some (p, .finished)

variable {file? : Option File} {events : List LoadEvent} {p q : Playback} {fuel : Nat} {e : LoadEvent}

theorem played_begun (d : Domain) (url : String) : (begun d url).played = [] :=
  rfl

theorem staged_begun (file? : Option File) (d : Domain) (url : String) : Staged file? [] (begun d url) where
  frames := by
    intro i frame hframe
    have hnone : (begun d url).stage.frames[i]? = none := Array.getElem?_eq_none (Nat.zero_le i)
    cases hnone.symm.trans hframe
  caughtUp := by
    intro file hfile
    cases hfile
  within := by
    intro n hn
    cases hn
  next := by
    rw [played_begun]
    rfl
  counted := by
    rw [played_begun]
    rfl
  status := iff_of_true rfl (List.forall_mem_nil _)

/-! ## Events -/

theorem Stage.getElem?_sync (s : Stage) (file : File) (i : Nat) :
    (s.sync file).frames[i]? =
      if i < s.frames.size then s.frames[i]? else (file.frames[i]?).map (Stage.ofFrame file) := by
  rw [Stage.sync, Array.getElem?_append]
  split
  · rfl
  · rename_i hi
    have hsum : s.frames.size + (i - s.frames.size) = i := by omega
    rw [List.getElem?_toArray, List.getElem?_map, List.getElem?_drop, Array.getElem?_toList, hsum]

theorem Stage.size_sync (s : Stage) (file : File) :
    s.frames.size ≤ (s.sync file).frames.size ∧ file.frames.size ≤ (s.sync file).frames.size := by
  have hsize : (s.sync file).frames.size = s.frames.size + (file.frames.size - s.frames.size) := by
    simp [Stage.sync]
  omega

/-- An event may bring frames. -/
theorem frames_observe (p : Playback) (e : LoadEvent) :
    (p.observe e).stage.frames = match e.file? with
      | some file => (p.stage.sync file).frames
      | none => p.stage.frames := by
  cases e <;> rfl

/-- Apart from the frames and the status, an event leaves what playing goes by. -/
theorem nextFrame_observe (p : Playback) (e : LoadEvent) :
    (p.observe e).stage.nextFrame = p.stage.nextFrame ∧
      (p.observe e).stage.framesProcessed = p.stage.framesProcessed ∧ (p.observe e).played = p.played := by
  cases e <;> simp [Playback.observe, Playback.report, Playback.played, Stage.sync, Report.frame?]

theorem status_observe (p : Playback) (e : LoadEvent) :
    (p.observe e).stage.status = .loading ↔ p.stage.status = .loading ∧ e.isTerminal = false := by
  cases e <;> simp [Playback.observe, Playback.report, Stage.sync, LoadEvent.isTerminal]

/-- The stage takes over the frames that it does not have yet. -/
theorem Staged.observe (h : Staged file? events p)
    (hshown : ∀ f, e.file? = some f → f.Numbered ∧ ∃ file, file? = some file ∧ f.Extends file) :
    Staged file? (events ++ [e]) (p.observe e) := by
  obtain ⟨hnext, hcounted, hplayed⟩ := nextFrame_observe p e
  have hgrown : p.stage.frames.size ≤ (p.observe e).stage.frames.size := by
    rw [frames_observe]
    split
    · exact (Stage.size_sync ..).1
    · exact Nat.le_refl _
  refine ⟨?_, ?_, ?_, ?_, ?_, ?_⟩
  · intro i frame hframe
    rw [frames_observe] at hframe
    rw [hplayed]
    split at hframe
    · rename_i f hf
      rw [Stage.getElem?_sync] at hframe
      split at hframe
      · exact h.frames hframe
      · rename_i hi
        obtain ⟨shown, hthere, rfl⟩ := Option.map_eq_some_iff.1 hframe
        obtain ⟨hnumbered, file, hfile, hextends⟩ := hshown f hf
        have hnew : i + 1 ∉ p.played := fun hmem => hi (h.within _ hmem)
        refine ⟨file, shown, hfile, hextends.frame hthere, ?_⟩
        rw [unrun, if_neg hnew, hfile, decide_eq_false hnew]
        exact congrArg (StageFrame.mk shown.label · false) (hextends.frameBlocks hnumbered hthere).symm
    · exact h.frames hframe
  · intro f hf
    rw [shownFiles, List.filterMap_append] at hf
    obtain hold | hnew := List.mem_append.1 hf
    · exact Nat.le_trans (h.caughtUp f hold) hgrown
    · have hshows : e.file? = some f := by simpa [List.mem_filterMap] using hnew
      rw [frames_observe, hshows]
      exact (Stage.size_sync ..).2
  · exact fun n hn => Nat.le_trans (h.within n (hplayed ▸ hn)) hgrown
  · rw [hnext, hplayed, h.next]
  · rw [hcounted, hplayed, h.counted]
  · rw [status_observe, h.status]
    simp [or_imp, forall_and]

/-! ## Ticks -/

theorem unrun_played (file? : Option File) (played : List Nat) (n : Nat) : unrun file? (played ++ [n]) n = [] :=
  if_pos (List.mem_append_right _ (List.mem_singleton_self n))

theorem mem_played_of_ne {played : List Nat} {m n : Nat} (h : m ≠ n) : m ∈ played ++ [n] ↔ m ∈ played := by
  simp [h]

/-- Playing a frame takes its modules and nothing else. -/
theorem Staged.plays (h : Staged file? events p) {n : Nat} {blocks : List AbcBlock} (hn : n < p.stage.frames.size)
    (hplays : Plays fuel p (n + 1) blocks q) : Staged file? events q := by
  have hplayed := hplays.played
  cases hplays with
  | @intro d d' ran called hruns hcalls =>
    have hframes : (p.stage.passed (n + 1) d').frames =
        p.stage.frames.modify n fun frame => { frame with blocks := [], scriptsRun := true } := rfl
    have hsize : (p.stage.passed (n + 1) d').frames.size = p.stage.frames.size := Array.size_modify
    refine ⟨?_, fun f hf => Nat.le_trans (h.caughtUp f hf) (Nat.le_of_eq hsize.symm), ?_, ?_, ?_, h.status⟩
    · intro i frame hframe
      rw [hframes, Array.getElem?_modify] at hframe
      rw [hplayed]
      split at hframe
      · rename_i hi
        subst hi
        obtain ⟨before, hbefore, rfl⟩ := Option.map_eq_some_iff.1 hframe
        obtain ⟨file, shown, hfile, hshown, rfl⟩ := h.frames hbefore
        refine ⟨file, shown, hfile, hshown, ?_⟩
        rw [unrun_played, decide_eq_true (List.mem_append_right _ (List.mem_singleton_self _))]
      · rename_i hi
        obtain ⟨file, shown, hfile, hshown, rfl⟩ := h.frames hframe
        refine ⟨file, shown, hfile, hshown, ?_⟩
        have hsame : i + 1 ∈ p.played ++ [n + 1] ↔ i + 1 ∈ p.played := mem_played_of_ne (by omega)
        simp only [unrun, hsame]
    · intro m hm
      rw [hplayed] at hm
      rw [hsize]
      obtain hold | hnew := List.mem_append.1 hm
      · exact h.within m hold
      · obtain rfl := List.mem_singleton.1 hnew
        exact hn
    · rw [hplayed, List.getLastD_concat]
      rfl
    · rw [hplayed, List.length_append, ← h.counted]
      rfl

/-- A frame of the stage gives away the modules that it has yet to run. -/
theorem Staged.unrun_eq (h : Staged file? events p) {i : Nat} {frame : StageFrame}
    (hframe : p.stage.frames[i]? = some frame) :
    (if frame.scriptsRun then [] else frame.blocks) = unrun file? p.played (i + 1) := by
  obtain ⟨file, shown, hfile, hshown, rfl⟩ := h.frames hframe
  by_cases hplayed : i + 1 ∈ p.played
  · rw [unrun, if_pos hplayed]
    simp [hplayed]
  · simp [hplayed]

/-- When the stage is ready for the frame of an index, the tick plays it. -/
theorem Staged.tick_iff (h : Staged file? events p) {i : Nat} (hi : i < p.stage.frames.size)
    (htick : ∀ frame, p.stage.frames[i]? = some frame →
      p.tick fuel = (p.play fuel i frame).map fun p => (p, .played)) (result : Playback × Tick) :
    p.tick fuel = some result ↔
      ∃ q, Plays fuel p (i + 1) (unrun file? p.played (i + 1)) q ∧ result = (q, .played) := by
  have hframe : p.stage.frames[i]? = some p.stage.frames[i] := Array.getElem?_eq_getElem hi
  rw [htick _ hframe, Option.map_eq_some_iff, ← h.unrun_eq hframe]
  simp only [Playback.play_iff hframe, eq_comm]

theorem Staged.advances (h : Staged file? events p) (fuel : Nat) : Advances fuel file? p where
  onwards := by
    intro hmore
    refine h.tick_iff hmore fun frame hframe => ?_
    have hbefore : ¬ p.stage.frames.size ≤ p.stage.nextFrame := h.next ▸ Nat.not_le.2 hmore
    rw [← h.next] at hmore hframe ⊢
    simp only [Playback.tick, if_pos hmore, hframe]
    simp [hbefore]
  around := by
    intro hend hstatus hsome hhandler
    rw [← h.next] at hend
    refine h.tick_iff (Nat.pos_of_ne_zero hsome) fun frame hframe => ?_
    have hhandler' : p.stage.enterFrameHandler?.isNone = false := Option.isNone_eq_false_iff.2 hhandler
    simp [Playback.tick, Nat.not_lt.2 hend, hframe, hstatus, hhandler']
  waits := by
    intro hend hstatus
    rw [← h.next] at hend
    simp only [Playback.tick, if_neg (Nat.not_lt.2 hend), hstatus]
    split <;> simp [hend]
  finishes := by
    intro hend hstatus hnone
    rw [← h.next] at hend
    simp only [Playback.tick, if_neg (Nat.not_lt.2 hend)]
    split
    · simp [hstatus]
    · rename_i frame hframe
      have hsome : p.stage.frames.size ≠ 0 := by
        intro hzero
        rw [Array.getElem?_eq_none (Nat.le_of_eq hzero)] at hframe
        cases hframe
      have hhandler : p.stage.enterFrameHandler? = none := hnone.resolve_left hsome
      simp [hend, hstatus, hhandler]

theorem Staged.tick (h : Staged file? events p) {t : Tick} (htick : p.tick fuel = some (q, t)) :
    Staged file? events q := by
  have hadvances := h.advances fuel
  -- A tick that plays no frame changes nothing.
  have hsame : ∀ {t'}, p.tick fuel = some (p, t') → Staged file? events q := by
    intro t' hidle
    obtain ⟨rfl, -⟩ := Prod.mk.inj (Option.some.inj (hidle.symm.trans htick))
    exact h
  obtain hmore | hend := Nat.lt_or_ge (p.played.getLastD 0) p.stage.frames.size
  · obtain ⟨_, hplays, hq⟩ := (hadvances.onwards hmore _).1 htick
    obtain ⟨rfl, -⟩ := Prod.mk.inj hq
    exact h.plays hmore hplays
  · by_cases hstatus : p.stage.status = .loading
    · exact hsame (hadvances.waits hend hstatus)
    · by_cases hnone : p.stage.frames.size = 0 ∨ handler? p.stage.domain = none
      · exact hsame (hadvances.finishes hend hstatus hnone)
      · obtain ⟨hsome, hhandler⟩ := not_or.1 hnone
        have hplay := hadvances.around hend hstatus hsome (Option.isSome_iff_ne_none.2 hhandler) (q, t)
        obtain ⟨_, hplays, hq⟩ := hplay.1 htick
        obtain ⟨rfl, -⟩ := Prod.mk.inj hq
        exact h.plays (Nat.pos_of_ne_zero hsome) hplays

theorem Staged.follow {cues : List Cue} (h : Staged file? events p)
    (hshown : ∀ f ∈ shownFiles (cues.filterMap Cue.event?), f.Numbered ∧ ∃ file, file? = some file ∧ f.Extends file)
    (hfollow : follow fuel p cues = some q) : Staged file? (events ++ cues.filterMap Cue.event?) q := by
  induction cues generalizing p events with
  | nil =>
    obtain rfl := Option.some.inj hfollow
    rwa [List.filterMap_nil, List.append_nil]
  | cons cue cues ih =>
    cases cue with
    | event e =>
      have hfirst : ∀ f, e.file? = some f → f.Numbered ∧ ∃ file, file? = some file ∧ f.Extends file := by
        intro f hf
        refine hshown f (List.mem_filterMap.2 ⟨e, List.mem_cons_self, hf⟩)
      have hrest := ih (h.observe hfirst) (fun f hf => hshown f ?_) hfollow
      · rwa [List.append_assoc] at hrest
      · obtain ⟨e', he', hf'⟩ := List.mem_filterMap.1 hf
        exact List.mem_filterMap.2 ⟨e', List.mem_cons_of_mem _ he', hf'⟩
    | tick =>
      obtain ⟨⟨next, t⟩, htick, hrest⟩ := Option.bind_eq_some_iff.1 hfollow
      exact ih (h.tick htick) hshown hrest

/-- An event runs nothing. -/
theorem domain_observe (p : Playback) (e : LoadEvent) : (p.observe e).stage.domain = p.stage.domain := by
  cases e <;> rfl

/-- At any moment of a load whose events come between the ticks in any way: the frames of the stage are a beginning of
those of the file, with the same labels, and with the same modules as long as they were not run. The next tick plays
the frame behind the one that was played last, or the first one again when all were played, the load is over and there
is a handler; else it changes nothing. A frame runs its modules when it is played for the first time, and whatever
these and the handler come to, it is counted and reported. Events run and play nothing. -/
theorem frames_play_in_order {fuel : Nat} {d : Domain} {url : String} {acks : List Ack} {calls : List Loader.Call}
    {cues : List Cue} {p : Playback}
    (hevents : cues.filterMap Cue.event? <+: (({ acks } : Loader).session calls).2)
    (hfollow : follow fuel (begun d url) cues = some p) :
    Staged (({ acks } : Loader).session calls).1.file? (cues.filterMap Cue.event?) p ∧
      Advances fuel (({ acks } : Loader).session calls).1.file? p ∧
      ∀ e, (p.observe e).stage.domain = p.stage.domain ∧ (p.observe e).played = p.played := by
  have hshows := (Loader.shows_start acks).session calls
  rw [List.nil_append] at hshows
  obtain ⟨later, hlater⟩ := hevents
  have hstaged := (staged_begun (({ acks } : Loader).session calls).1.file? d url).follow (fun f hf => ?_) hfollow
  · rw [List.nil_append] at hstaged
    exact ⟨hstaged, hstaged.advances fuel, fun e => ⟨domain_observe p e, (nextFrame_observe p e).2.2⟩⟩
  · refine hshows.extended f ?_
    rw [← hlater, shownFiles, List.filterMap_append]
    exact List.mem_append_left _ hf

/-- Its initializer throws. -/
def thrower : Module where
  label := ""
  minorVersion := supportedMinor
  majorVersion := supportedMajor
  constants := #[.string "init", .string "boom"]
  methods := #[{ name := 0, params := 0, locals := 0, code := #[.pushString 1, .throw] }]
  definitions := []
  init := 0

/-- A file of two frames. Of the modules of the first one, one throws and one cannot be read. -/
def twoFrames : List UInt8 :=
  Draft.encode { contents := [.frameLabel "start", .abc "" 0 thrower.encode, .abcDefine [], .showFrame, .showFrame] }

/-- The second frame arrives with the second piece. -/
def twoPieces : List UInt8 × List UInt8 :=
  twoFrames.splitAt (twoFrames.length - 4)

def firstDelivery : Loader.Delivery :=
  ({} : Loader).append twoPieces.1

def secondDelivery : Loader.Delivery :=
  firstDelivery.loader.append twoPieces.2

def twoCalls : List Loader.Call :=
  [.append twoPieces.1, .append twoPieces.2]

/-- The second tick has to wait. -/
def twoFramesCues : List Cue :=
  firstDelivery.events.map .event ++ [.tick, .tick] ++ secondDelivery.events.map .event ++ [.tick, .tick]

/-- A native is the handler. -/
def handled : Domain :=
  (Domain.install {}).setGlobal .application enterFrame (.native "trace")

theorem twoFramesCues_events : twoFramesCues.filterMap Cue.event? = (({} : Loader).session twoCalls).2 := by
  have hsession : (({} : Loader).session twoCalls).2 = firstDelivery.events ++ (secondDelivery.events ++ []) := by
    rw [twoCalls, Loader.session, Loader.session, Loader.session]
    rfl
  have hevents (events : List LoadEvent) : (events.map Cue.event).filterMap Cue.event? = events := by
    rw [List.filterMap_map]
    exact List.filterMap_some
  have hticks : [Cue.tick, Cue.tick].filterMap Cue.event? = [] := rfl
  simp only [hsession, twoFramesCues, List.filterMap_append, hevents, hticks, List.append_nil]

/-- The handler makes the first frame come again, without its modules. -/
theorem twoFrames_play_in_order :
    ∃ p, follow 20 (begun handled "m.swf") twoFramesCues = some p ∧ p.played = [1, 2, 1] ∧
      twoFramesCues.filterMap Cue.event? <+: (({} : Loader).session twoCalls).2 ∧
      Staged (({} : Loader).session twoCalls).1.file? (twoFramesCues.filterMap Cue.event?) p ∧
      Advances 20 (({} : Loader).session twoCalls).1.file? p ∧
      ∀ e, (p.observe e).stage.domain = p.stage.domain ∧ (p.observe e).played = p.played := by
  have hplayed : (follow 20 (begun handled "m.swf") twoFramesCues).map Playback.played = some [1, 2, 1] := by
    decide +kernel
  obtain ⟨p, hfollow, hnumbers⟩ := Option.map_eq_some_iff.1 hplayed
  have hevents : twoFramesCues.filterMap Cue.event? <+: (({} : Loader).session twoCalls).2 :=
    twoFramesCues_events ▸ List.prefix_refl _
  exact ⟨p, hfollow, hnumbers, hevents, frames_play_in_order hevents hfollow⟩

end MovieVm.Player
