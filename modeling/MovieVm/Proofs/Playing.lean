import MovieVm.Player.Stage

/-!
# Playing a frame

What playing a frame does, whatever its modules and the handler come to: all modules are run one after the other, the
handler is called, and the frame is counted and reported. It is done whenever each of these runs comes to an end.
-/

namespace MovieVm.Player

open Bytecode Movie

/-! ## What runs report -/

/-- The lines for an error, none for a value. -/
def errorReports (line : VmError → String) : Except VmError α → List Report
  | .ok _ => []
  | .error e => .failure (line e) :: e.stackLines.map .failure

/-- What code showed, and the lines for its error. -/
def outcomeReports (o : Outcome Value) (line : VmError → String) : List Report :=
  o.effects.toList.map .effect ++ errorReports line o.result

/-- A module of a frame is tried: it cannot be read, or it is executed and comes to any outcome. -/
inductive Tries (fuel : Nat) (label : String) (d : Domain) (block : AbcBlock) : List Report → Domain → Prop where
  | unreadable {e : ModuleError} (h : Module.decode block.data label = .error e) :
    Tries fuel label d block [.failure s!"Cannot parse ABC block {label}: {e.message}"] d
  | executed {m : Module} {o : Outcome Value} (h : Module.decode block.data label = .ok m)
    (ho : d.execute fuel .application m = some o) :
    Tries fuel label d block
      (.detail s!"Executing {label}" :: outcomeReports o fun e => s!"Error while executing {label}: {e.text}")
      o.domain

/-- The modules of frame `number` are tried one after the other, each in the domain that the one before has left. -/
inductive Runs (fuel : Nat) (url : String) (number : Nat) :
    Domain → List (AbcBlock × Nat) → List Report → Domain → Prop where
  | nil (d : Domain) : Runs fuel url number d [] [] d
  | cons {d d' d'' : Domain} {block : AbcBlock} {index : Nat} {blocks : List (AbcBlock × Nat)}
    {first rest : List Report}
    (hfirst : Tries fuel (Playback.blockLabel url number index block.name) d block first d')
    (hrest : Runs fuel url number d' blocks rest d'') :
    Runs fuel url number d ((block, index) :: blocks) (first ++ rest) d''

/-- The handler that a domain has. -/
def handler? (d : Domain) : Option Value :=
  ({ domain := d } : Stage).enterFrameHandler?

/-- The handler is called with the number of the frame, if there is one, and comes to any outcome. -/
inductive Calls (fuel : Nat) (number : Nat) (d : Domain) : List Report → Domain → Prop where
  | without (h : handler? d = none) : Calls fuel number d [] d
  | called {handler : Value} {o : Outcome Value} (h : handler? d = some handler)
    (ho : d.invoke fuel handler [.int (Int32.ofInt (min number 2147483647))] = some o) :
    Calls fuel number d (outcomeReports o fun e => s!"Error in {enterFrame} at frame {number}: {e.text}") o.domain

namespace Playback

/-- The playback with another domain and more reports. -/
def extend (p : Playback) (d : Domain) (reports : List Report) : Playback :=
  { stage := { p.stage with domain := d }, reports := p.reports ++ reports.toArray }

variable {p q : Playback} {fuel number index : Nat}

theorem extend_nil (p : Playback) : p.extend p.stage.domain [] = p := by
  exact congrArg (Playback.mk p.stage) Array.append_empty

theorem extend_extend (p : Playback) (d d' : Domain) (first rest : List Report) :
    (p.extend d first).extend d' rest = p.extend d' (first ++ rest) := by
  simp only [extend, Array.append_assoc, List.append_toArray]

theorem report_eq (p : Playback) (r : Report) : p.report r = p.extend p.stage.domain [r] := by
  rw [report, extend, Array.push_eq_append]

theorem takeOver_eq (p : Playback) (o : Outcome Value) :
    p.takeOver o = p.extend o.domain (o.effects.toList.map .effect) := by
  rw [takeOver, extend, ← List.map_toArray, Array.toArray_toList]

theorem reportError_eq (p : Playback) (line : String) (e : VmError) :
    p.reportError line e = p.extend p.stage.domain (.failure line :: e.stackLines.map .failure) := by
  have hlines : ∀ (lines : List String) (p : Playback),
      lines.foldl (fun p line => p.report (.failure line)) p = p.extend p.stage.domain (lines.map .failure) := by
    intro lines
    induction lines with
    | nil => exact fun p => p.extend_nil.symm
    | cons line lines ih =>
      intro p
      rw [List.foldl_cons, ih, report_eq]
      exact extend_extend ..
  rw [reportError, hlines, report_eq]
  exact extend_extend ..

/-- Outcomes are taken over, and their errors are reported. -/
theorem settle_eq (p : Playback) (x : Option (Outcome Value)) (line : VmError → String) :
    (x.bind fun o => match o.result with
      | .ok _ => some (p.takeOver o)
      | .error e => some ((p.takeOver o).reportError (line e) e)) =
      x.map fun o => p.extend o.domain (outcomeReports o line) := by
  cases x with
  | none => rfl
  | some o =>
    rw [Option.bind_some, Option.map_some, outcomeReports, takeOver_eq]
    cases o.result with
    | ok v => simp only [errorReports, List.append_nil]
    | error e =>
      simp only [errorReports, reportError_eq]
      exact congrArg some (extend_extend ..)

/-! ## Modules -/

theorem runBlock_of_ok {block : AbcBlock} {m : Module} {label : String}
    (hlabel : blockLabel p.stage.url number index block.name = label) (h : Module.decode block.data label = .ok m) :
    p.runBlock fuel number block index = (p.stage.domain.execute fuel .application m).map fun o =>
      p.extend o.domain (.detail s!"Executing {label}" ::
        outcomeReports o fun e => s!"Error while executing {label}: {e.text}") := by
  simp only [runBlock, hlabel, h]
  refine (settle_eq _ _ fun e => s!"Error while executing {label}: {e.text}").trans ?_
  simp only [report_eq, extend_extend]
  rfl

theorem runBlock_iff {block : AbcBlock} :
    p.runBlock fuel number block index = some q ↔
      ∃ reports d, Tries fuel (blockLabel p.stage.url number index block.name) p.stage.domain block reports d ∧
        q = p.extend d reports := by
  generalize hlabel : blockLabel p.stage.url number index block.name = label
  cases hdecode : Module.decode block.data label with
  | error e =>
    simp only [runBlock, hlabel, hdecode, report_eq]
    constructor
    · intro h
      obtain rfl := Option.some.inj h
      exact ⟨_, _, .unreadable hdecode, rfl⟩
    · rintro ⟨reports, d, htries, rfl⟩
      cases htries with
      | unreadable h =>
        obtain rfl := Except.error.inj (hdecode.symm.trans h)
        rfl
      | executed h => cases hdecode.symm.trans h
  | ok m =>
    rw [runBlock_of_ok hlabel hdecode, Option.map_eq_some_iff]
    constructor
    · rintro ⟨o, ho, rfl⟩
      exact ⟨_, _, .executed hdecode ho, rfl⟩
    · rintro ⟨reports, d, htries, rfl⟩
      cases htries with
      | unreadable h => cases hdecode.symm.trans h
      | executed h ho =>
        obtain rfl := Except.ok.inj (hdecode.symm.trans h)
        exact ⟨_, ho, rfl⟩

theorem runBlocks_iff {blocks : List (AbcBlock × Nat)} :
    runBlocks fuel number p blocks = some q ↔
      ∃ reports d, Runs fuel p.stage.url number p.stage.domain blocks reports d ∧ q = p.extend d reports := by
  induction blocks generalizing p with
  | nil =>
    constructor
    · intro h
      obtain rfl := Option.some.inj h
      exact ⟨[], _, .nil _, p.extend_nil.symm⟩
    · rintro ⟨reports, d, hruns, rfl⟩
      cases hruns
      exact congrArg some p.extend_nil.symm
  | cons block blocks ih =>
    obtain ⟨block, index⟩ := block
    refine Option.bind_eq_some_iff.trans ?_
    simp only [runBlock_iff, ih]
    constructor
    · rintro ⟨_, ⟨first, d, htries, rfl⟩, rest, d', hruns, rfl⟩
      exact ⟨first ++ rest, d', .cons htries hruns, extend_extend ..⟩
    · rintro ⟨reports, d'', hruns, rfl⟩
      cases hruns with
      | cons htries hrest => exact ⟨_, ⟨_, _, htries, rfl⟩, _, _, hrest, (extend_extend ..).symm⟩

/-! ## The handler -/

theorem callHandler_iff :
    p.callHandler fuel number = some q ↔
      ∃ reports d, Calls fuel number p.stage.domain reports d ∧ q = p.extend d reports := by
  have hhandler : p.stage.enterFrameHandler? = handler? p.stage.domain := rfl
  cases hfound : handler? p.stage.domain with
  | none =>
    simp only [callHandler, hhandler, hfound]
    constructor
    · intro h
      obtain rfl := Option.some.inj h
      exact ⟨[], _, .without hfound, p.extend_nil.symm⟩
    · rintro ⟨reports, d, hcalls, rfl⟩
      cases hcalls with
      | without => exact congrArg some p.extend_nil.symm
      | called h => cases hfound.symm.trans h
  | some handler =>
    have hcall : p.callHandler fuel number =
        (p.stage.domain.invoke fuel handler [.int (Int32.ofInt (min number 2147483647))]).map fun o =>
          p.extend o.domain
            (outcomeReports o fun e => s!"Error in {enterFrame} at frame {number}: {e.text}") := by
      simp only [callHandler, hhandler, hfound]
      exact settle_eq ..
    rw [hcall, Option.map_eq_some_iff]
    constructor
    · rintro ⟨o, ho, rfl⟩
      exact ⟨_, _, .called hfound ho, rfl⟩
    · rintro ⟨reports, d, hcalls, rfl⟩
      cases hcalls with
      | without h => cases hfound.symm.trans h
      | called h ho =>
        obtain rfl := Option.some.inj (hfound.symm.trans h)
        exact ⟨_, ho, rfl⟩

end Playback

/-! ## The frame -/

/-- The stage when frame `number` was played: it has given its modules away, and is counted. -/
def Stage.passed (s : Stage) (number : Nat) (d : Domain) : Stage :=
  { s with
    domain := d
    nextFrame := number
    framesProcessed := s.framesProcessed + 1
    frames := s.frames.modify (number - 1) fun frame => { frame with blocks := [], scriptsRun := true } }

/-- Frame `number` is played with these modules to run: each is tried, the handler is called, and the frame is
counted and reported. -/
inductive Plays (fuel : Nat) (p : Playback) (number : Nat) (blocks : List AbcBlock) : Playback → Prop where
  | intro {d d' : Domain} {ran called : List Report}
    (hruns : Runs fuel p.stage.url number p.stage.domain blocks.zipIdx ran d) (hcalls : Calls fuel number d called d') :
    Plays fuel p number blocks
      { stage := p.stage.passed number d', reports := p.reports ++ (ran ++ called ++ [Report.frame number]).toArray }

/-- The frame is played whenever each of its runs comes to an end. -/
theorem Playback.play_iff {p q : Playback} {fuel index : Nat} {frame : StageFrame}
    (h : p.stage.frames[index]? = some frame) :
    p.play fuel index frame = some q ↔
      Plays fuel p (index + 1) (if frame.scriptsRun then [] else frame.blocks) q := by
  have hframes : p.stage.frames.setIfInBounds index { frame with blocks := [], scriptsRun := true } =
      p.stage.frames.modify index fun frame => { frame with blocks := [], scriptsRun := true } := by
    apply Array.ext_getElem?
    intro i
    obtain ⟨hi, hframe⟩ := Array.getElem?_eq_some_iff.1 h
    rw [Array.getElem?_modify, Array.getElem?_setIfInBounds, if_pos hi]
    split
    · rename_i hsame
      rw [← hsame, h]
      rfl
    · rfl
  have hblocks : (if frame.scriptsRun then [] else frame.blocks.zipIdx) =
      (if frame.scriptsRun then [] else frame.blocks).zipIdx := by
    split <;> rfl
  simp only [play, hframes, hblocks]
  constructor
  · intro hplay
    obtain ⟨_, hblocks, hrest⟩ := Option.bind_eq_some_iff.1 hplay
    obtain ⟨ran, d, hruns, rfl⟩ := runBlocks_iff.1 hblocks
    obtain ⟨_, hhandler, hlast⟩ := Option.bind_eq_some_iff.1 hrest
    obtain ⟨called, d', hcalls, rfl⟩ := callHandler_iff.1 hhandler
    obtain rfl := Option.some.inj hlast
    have hplays := Plays.intro (p := p) hruns hcalls
    simpa [extend, Stage.passed, report] using hplays
  · intro h
    cases h with
    | intro hruns hcalls =>
      refine Option.bind_eq_some_iff.2 ⟨_, runBlocks_iff.2 ⟨_, _, hruns, rfl⟩, ?_⟩
      refine Option.bind_eq_some_iff.2 ⟨_, callHandler_iff.2 ⟨_, _, hcalls, rfl⟩, ?_⟩
      simp [extend, Stage.passed, report]

/-! ## The numbers of played frames -/

def Report.frame? : Report → Option Nat
  | .frame number => some number
  | _ => none

/-- The numbers of the frames that were played, in their order. -/
def Playback.played (p : Playback) : List Nat :=
  p.reports.toList.filterMap Report.frame?

variable {fuel number : Nat} {url label : String} {d d' : Domain} {reports : List Report}

theorem frames_errorReports (line : VmError → String) (result : Except VmError α) :
    (errorReports line result).filterMap Report.frame? = [] := by
  cases result with
  | ok a => rfl
  | error e =>
    apply List.filterMap_eq_nil_iff.2
    intro r hr
    obtain rfl | hmem := List.mem_cons.1 hr
    · rfl
    · obtain ⟨line, -, rfl⟩ := List.mem_map.1 hmem
      rfl

theorem frames_outcomeReports (o : Outcome Value) (line : VmError → String) :
    (outcomeReports o line).filterMap Report.frame? = [] := by
  have heffects : (o.effects.toList.map Report.effect).filterMap Report.frame? = [] := by
    rw [List.filterMap_map]
    exact List.filterMap_eq_nil_iff.2 fun _ _ => rfl
  rw [outcomeReports, List.filterMap_append, heffects, frames_errorReports]
  rfl

theorem Tries.frames {block : AbcBlock} (h : Tries fuel label d block reports d') :
    reports.filterMap Report.frame? = [] := by
  cases h with
  | unreadable => rfl
  | executed => exact frames_outcomeReports _ _

theorem Runs.frames {blocks : List (AbcBlock × Nat)} (h : Runs fuel url number d blocks reports d') :
    reports.filterMap Report.frame? = [] := by
  induction h with
  | nil => rfl
  | cons hfirst _ ih => rw [List.filterMap_append, hfirst.frames, ih, List.append_nil]

theorem Calls.frames (h : Calls fuel number d reports d') : reports.filterMap Report.frame? = [] := by
  cases h with
  | without => rfl
  | called => exact frames_outcomeReports _ _

/-- Code reports no frames. -/
theorem Plays.played {p q : Playback} {blocks : List AbcBlock} (h : Plays fuel p number blocks q) :
    q.played = p.played ++ [number] := by
  cases h with
  | intro hruns hcalls =>
    simp only [Playback.played, Array.toList_append, List.filterMap_append, hruns.frames, hcalls.frames]
    rfl

end MovieVm.Player
