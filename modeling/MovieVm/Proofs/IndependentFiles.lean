import MovieVm.Proofs.ShellRuns
import MovieVm.Proofs.Tallies
import MovieVm.Proofs.WrittenTraces

/-!
# Independent files

Parsing and disassembling take the files one after the other, with one console and, for parsing, one timeline. A file
leaves neither an indentation nor a section to the next, whatever is wrong with it: it only adds lines, and which lines
these are depends on the file and on the settings. So the lines for two lists of files are those for the one followed by
those for the other. Times stand in the lines of parsing, and the rest of the lines is the same for all times.
-/

namespace MovieVm

/-! ## Texts with times -/

namespace Retimed

theorem of_eq {text text' : String} (h : text = text') : Retimed text text' :=
  h ▸ .same text

theorem intercalate (separator : String) {texts texts' : List String} (h : List.Forall₂ Retimed texts texts') :
    Retimed (separator.intercalate texts) (separator.intercalate texts') := by
  induction h with
  | nil => exact .same _
  | cons hfirst hrest ih =>
    cases hrest with
    | nil => simpa using hfirst
    | cons hnext hrest =>
      rw [String.intercalate_cons_cons, String.intercalate_cons_cons]
      exact (hfirst.append (.same separator)).append ih

theorem objectText {fields fields' : List (String × String)}
    (h : List.Forall₂ (fun field field' => field.1 = field'.1 ∧ Retimed field.2 field'.2) fields fields') :
    Retimed (Json.objectText fields) (Json.objectText fields') := by
  refine .append (.append (.same _) (intercalate "," ?_)) (.same _)
  rw [List.forall₂_map_left_iff, List.forall₂_map_right_iff]
  exact h.imp fun _ _ hfield => .append (.of_eq (congrArg (Json.quoted · ++ ":") hfield.1)) hfield.2

end Retimed

namespace Shell

/-! ## Counts -/

/-- What a ledger has counted, without the times. -/
def Ledger.counts {β : Type} (count : β → Nat) (l : Ledger β) : Ledger Nat :=
  l.map fun entry => (entry.1, count entry.2)

namespace Ledger

variable {β : Type} {count : β → Nat} {l l' : Ledger β}

theorem counts_update {f : β → β} {g : Nat → Nat} (l : Ledger β) (name : String) (fresh : β)
    (hf : ∀ value, count (f value) = g (count value)) :
    (l.update name fresh f).counts count = (l.counts count).update name (count fresh) g := by
  induction l with
  | nil => simp [update, counts, hf]
  | cons first rest ih =>
    obtain ⟨key, value⟩ := first
    simp only [counts, update, List.map_cons] at ih ⊢
    split
    · rw [List.map_cons, hf]
    · split
      · rw [List.map_cons, List.map_cons, hf]
      · rw [List.map_cons, ih]

theorem forall₂_of_counts (h : l.counts count = l'.counts count) :
    List.Forall₂ (fun entry entry' => entry.1 = entry'.1 ∧ count entry.2 = count entry'.2) l l' := by
  rw [counts, counts, ← List.forall₂_eq_eq_eq, List.forall₂_map_left_iff, List.forall₂_map_right_iff] at h
  exact h.imp fun _ _ hentry => Prod.mk.inj hentry

end Ledger

/-- Two counters that differ in nothing but times. -/
def Counter.Like (c c' : Counter) : Prop :=
  Ledger.counts Tally.count c = Ledger.counts Tally.count c'

/-- Two timelines with the same closed sections, but for the times spent in them. -/
def Timeline.Like (t t' : Timeline) : Prop :=
  Ledger.counts Section.count t.sections = Ledger.counts Section.count t'.sections

section Timings

variable {t t' : Timeline} {k k' : Counter}

theorem Counter.Like.count (h : k.Like k') (name : String) (increment : Nat) (time time' : Double) :
    (k.count name increment time).Like (k'.count name increment time') := by
  have hcounts (k : Counter) (time : Double) : Ledger.counts Tally.count (k.count name increment time) =
      (Ledger.counts Tally.count k).update name 0 (· + increment) := Ledger.counts_update k name {} fun _ => by rfl
  rw [Counter.Like, hcounts, hcounts, h]

theorem Timeline.Like.time (h : t.Like t') (name : String) (time time' : Double) :
    (t.time name time).Like (t'.time name time') := by
  have hcounts (t : Timeline) (time : Double) : Ledger.counts Section.count (t.time name time).sections =
      (Ledger.counts Section.count t.sections).update name 0 (· + 1) := by
    rw [time_sections]
    exact Ledger.counts_update t.sections name {} fun _ => by rfl
  rw [Timeline.Like, hcounts, hcounts, h]

/-- Names are sorted by their counts and not by their times. -/
theorem Counter.Like.sorted (h : k.Like k') : Counter.Like k.sorted k'.sorted := by
  have hsorted (k : Counter) : Ledger.counts Tally.count k.sorted =
      (Ledger.counts Tally.count k).mergeSort fun a b => b.2 ≤ a.2 := List.map_mergeSort fun _ _ _ _ => rfl
  rw [Counter.Like, hsorted, hsorted, h]

theorem Counter.Like.json (h : k.Like k') : Retimed k.json k'.json := by
  have hentries := Ledger.forall₂_of_counts h
  refine .objectText (.cons ⟨rfl, .objectText ?_⟩ (.cons ⟨rfl, .objectText ?_⟩ .nil))
  all_goals rw [List.forall₂_map_left_iff, List.forall₂_map_right_iff]
  · exact hentries.imp fun _ _ hentry => ⟨hentry.1, .of_eq (congrArg toString hentry.2)⟩
  · exact hentries.imp fun _ _ hentry => ⟨hentry.1, .number _ _⟩

/-! ## Lines of timings -/

open Console

theorem Counter.Like.trace (h : k.Like k') (c : Console) : AddAlike k.trace k'.trace c := by
  refine .foldl ((Ledger.forall₂_of_counts h.sorted).imp fun entry entry' hentry => .line ?_ c root)
  obtain ⟨name, tally⟩ := entry
  obtain ⟨name', tally'⟩ := entry'
  obtain ⟨rfl, hcount⟩ : name = name' ∧ tally.count = tally'.count := hentry
  have hbefore : Retimed s!"{name}: {tally.count} (" _ := .of_eq (congrArg (fun count => s!"{name}: {count} (") hcount)
  exact .append (.append hbefore (.milliseconds _ _)) (.same ")")

theorem Timeline.retimed_line (name : String) {s s' : Section} (h : s.count = s'.count) :
    Retimed (Section.line name s) (Section.line name s') := by
  have htotal : Retimed (s!"{name}: total " ++ milliseconds s.total) (s!"{name}: total " ++ milliseconds s'.total) :=
    .append (.same _) (.milliseconds _ _)
  have hcount : Retimed (toString s.count) (toString s'.count) := .of_eq (congrArg toString h)
  exact ((htotal.append (.same ", count ")).append hcount).append (.same ", average ") |>.append (.milliseconds _ _)

theorem Timeline.Like.trace (h : t.Like t') (c : Console) : AddAlike t.trace t'.trace c := by
  have hsections (c : Console) :
      AddAlike (t.sections.foldl fun c entry => c.writeLine (Section.line entry.1 entry.2))
        (t'.sections.foldl fun c entry => c.writeLine (Section.line entry.1 entry.2)) c := by
    refine .foldl ((Ledger.forall₂_of_counts h).imp fun entry entry' hentry => .line ?_ c root)
    obtain ⟨name, s⟩ := entry
    obtain ⟨name', s'⟩ := entry'
    obtain ⟨rfl, hcount⟩ : name = name' ∧ s.count = s'.count := hentry
    exact retimed_line name hcount
  exact (AddAlike.line (.same "Timeline:") c root).andThen (hsections _).indented

end Timings

/-! ## Analysing a file -/

namespace Analysis

open Console

/-- Findings that differ in nothing but times. -/
structure Findings.Like (f f' : Findings) : Prop where
  timeline : f.timeline.Like f'.timeline
  counter : f.counter.Like f'.counter

variable {f f' : Findings} {t t' : Timeline}

theorem visit_like (h : f.Like f') (o : AnalysisOptions) (path : String) (time time' : Double)
    (entry : Movie.Tag × Option Movie.AbcBlock) :
    (visit o path time f entry).1.Like (visit o path time' f' entry).1 ∧
      (visit o path time f entry).2 = (visit o path time' f' entry).2 := by
  obtain ⟨tag, block⟩ := entry
  have hcounted {f f' : Findings} (h : f.Like f') :
      Findings.Like { f with counter := f.counter.count tag.name 1 time }
        { f' with counter := f'.counter.count tag.name 1 time' } :=
    ⟨h.timeline, h.counter.count tag.name 1 time time'⟩
  have hparsed : Findings.Like { f with timeline := f.timeline.time "Parse ABC" time }
      { f' with timeline := f'.timeline.time "Parse ABC" time' } :=
    ⟨h.timeline.time "Parse ABC" time time', h.counter⟩
  unfold visit
  dsimp only
  split
  · exact ⟨h, rfl⟩
  · cases block with
    | none => exact ⟨hcounted h, rfl⟩
    | some block =>
      dsimp only
      split
      · exact ⟨hcounted h, rfl⟩
      · cases checkModule path block.data with
        | ok => exact ⟨hcounted hparsed, rfl⟩
        | error e => exact ⟨hparsed, rfl⟩

/-- What is found differs in times only, and whether all modules decode does not depend on them: by induction on the
tags. -/
theorem visitAll_like (h : f.Like f') (o : AnalysisOptions) (path : String) (time time' : Double)
    (entries : List (Movie.Tag × Option Movie.AbcBlock)) :
    (visitAll o path time f entries).1.Like (visitAll o path time' f' entries).1 ∧
      (visitAll o path time f entries).2 = (visitAll o path time' f' entries).2 := by
  induction entries generalizing f f' with
  | nil => exact ⟨h, rfl⟩
  | cons entry entries ih =>
    obtain ⟨hlike, hresult⟩ := visit_like h o path time time' entry
    generalize hvisit : visit o path time f entry = visited at hlike hresult
    generalize hvisit' : visit o path time' f' entry = visited' at hlike hresult
    obtain ⟨next, result⟩ := visited
    obtain ⟨next', result'⟩ := visited'
    obtain rfl : result = result' := hresult
    rw [visitAll, visitAll, hvisit, hvisit']
    cases result with
    | ok => exact ih hlike
    | error e => exact ⟨hlike, rfl⟩

theorem conclude_alike (h : f.Like f') (o : AnalysisOptions) (path : String) (size : Nat) (time time' : Double)
    (c : Console) : AddAlike (conclude o path size time f) (conclude o path size time' f') c := by
  unfold conclude
  cases o.forDatabase with
  | true =>
    refine .line (.objectText ?_) c root
    exact .cons ⟨rfl, .same _⟩ (.cons ⟨rfl, .number _ _⟩ (.cons ⟨rfl, .same _⟩ (.cons ⟨rfl, h.counter.json⟩ .nil)))
  | false =>
    refine .selected o.verbose ?_
    exact (AddAlike.line (.same "Tag Frequency:") c root).andThen (h.counter.trace _).indented

/-- An analysis adds lines that depend on the file; with other times, these and its timeline differ in times only. -/
theorem exists_analyseMovie (ht : t.Like t') (o : AnalysisOptions) (fs : Files) (path : String)
    (time time' : Double) : ∃ say say' after after' result,
      (∀ c, analyseMovie o fs path time c t = (say c, after, result)) ∧
      (∀ c, analyseMovie o fs path time' c t' = (say' c, after', result)) ∧
      (∀ c, AddAlike say say' c) ∧ after.Like after' := by
  unfold analyseMovie
  cases readFile fs path with
  | error e => exact ⟨_, _, _, _, _, fun _ => rfl, fun _ => rfl, .skip, ht⟩
  | ok bytes =>
    have hload := ht.time "Load" time time'
    dsimp only
    cases loadFile path bytes with
    | error e => exact ⟨_, _, _, _, _, fun _ => rfl, fun _ => rfl, .skip, hload⟩
    | ok file? =>
      cases file? with
      | none => exact ⟨_, _, _, _, _, fun _ => rfl, fun _ => rfl, .skip, hload⟩
      | some file =>
        have hstart : Findings.Like { timeline := t.time "Load" time } { timeline := t'.time "Load" time' } :=
          ⟨hload, rfl⟩
        obtain ⟨hlike, hresult⟩ :=
          visitAll_like hstart o path time time' (withBlocks file.tags.toList file.blocks.toList)
        dsimp only
        generalize visitAll o path time _ _ = visited at hlike hresult
        generalize visitAll o path time' _ _ = visited' at hlike hresult
        obtain ⟨found, result⟩ := visited
        obtain ⟨found', result'⟩ := visited'
        obtain rfl : result = result' := hresult
        cases result with
        | error e => exact ⟨_, _, _, _, _, fun _ => rfl, fun _ => rfl, .skip, hlike.timeline⟩
        | ok =>
          exact ⟨_, _, _, _, _, fun _ => rfl, fun _ => rfl,
            conclude_alike hlike o path bytes.length time time', hlike.timeline⟩

/-- An analysis before its outcome is reported. -/
def study (o : AnalysisOptions) (fs : Files) (path : String) (time : Double) (c : Console) (t : Timeline) :
    Console × Timeline × Except ShellError Unit :=
  match InputKind.ofPath? path with
  | some .swf => analyseMovie o fs path time c t
  | some .abc => (c, analyseModule fs path time t)
  | _ => (c, t, .ok ())

def reportOutcome (path : String) (result : Except ShellError Unit) (c : Console) : Console :=
  match result with
  | .ok () => c
  | .error e => c.redLine s!"Cannot parse: {path}, reason: {e.reason}"

theorem analyse_eq (o : AnalysisOptions) (fs : Files) (path : String) (time : Double) (c : Console) (t : Timeline) :
    analyse o fs path time c t =
      (reportOutcome path (study o fs path time c t).2.2 (study o fs path time c t).1,
        (study o fs path time c t).2.1) := by
  unfold analyse study reportOutcome
  rcases InputKind.ofPath? path with _ | kind
  · rfl
  · cases kind with
    | swf =>
      obtain ⟨c, t, result⟩ := analyseMovie o fs path time c t
      cases result <;> rfl
    | abc =>
      obtain ⟨t, result⟩ := analyseModule fs path time t
      cases result <;> rfl
    | script => rfl

theorem reportOutcome_alike (path : String) (result : Except ShellError Unit) (c : Console) :
    AddAlike (reportOutcome path result) (reportOutcome path result) c := by
  cases result with
  | ok => exact .skip c
  | error e =>
    obtain ⟨lines, hlines⟩ := adds_redLine c s!"Cannot parse: {path}, reason: {e.reason}" root
    exact .of_adds hlines

theorem exists_study (ht : t.Like t') (o : AnalysisOptions) (fs : Files) (path : String) (time time' : Double) :
    ∃ say say' after after' result,
      (∀ c, study o fs path time c t = (say c, after, result)) ∧
      (∀ c, study o fs path time' c t' = (say' c, after', result)) ∧
      (∀ c, AddAlike say say' c) ∧ after.Like after' := by
  unfold study
  split
  · exact exists_analyseMovie ht o fs path time time'
  · unfold analyseModule
    cases readFile fs path with
    | error e => exact ⟨_, _, _, _, _, fun _ => rfl, fun _ => rfl, .skip, ht⟩
    | ok bytes =>
      exact ⟨_, _, _, _, _, fun _ => rfl, fun _ => rfl, .skip, ht.time "Parse ABC" time time'⟩
  · exact ⟨_, _, _, _, _, fun _ => rfl, fun _ => rfl, .skip, ht⟩

theorem exists_analyse (ht : t.Like t') (o : AnalysisOptions) (fs : Files) (path : String) (time time' : Double) :
    ∃ say say' after after',
      (∀ c, analyse o fs path time c t = (say c, after)) ∧
      (∀ c, analyse o fs path time' c t' = (say' c, after')) ∧
      (∀ c, AddAlike say say' c) ∧ after.Like after' := by
  obtain ⟨say, say', after, after', result, hsay, hsay', halike, hafter⟩ := exists_study ht o fs path time time'
  refine ⟨fun c => reportOutcome path result (say c), fun c => reportOutcome path result (say' c), after, after',
    fun c => ?_, fun c => ?_, fun c => (halike c).andThen (reportOutcome_alike path result c), hafter⟩
  · rw [analyse_eq, hsay]
  · rw [analyse_eq, hsay']

end Analysis

namespace Run

open Console

variable {s s' : Shell}

/-! ## Parsing -/

/-- What follows the analysis of a file. -/
def close (s : Shell) (t : Timeline) (c : Console) : Console :=
  let c := if s.options.has .verbose then c.writeLine s!"Total Parse Time: {milliseconds s.stopwatch}." else c
  if s.options.has .profile then t.trace c else c

theorem close_alike (hoptions : s'.options = s.options) {t t' : Timeline} (ht : t.Like t') (c : Console) :
    AddAlike (close s t) (close s' t') c := by
  have htime (x y : Double) :
      Retimed s!"Total Parse Time: {milliseconds x}." s!"Total Parse Time: {milliseconds y}." :=
    .append (.append (.same "Total Parse Time: ") (.milliseconds x y)) (.same ".")
  unfold close
  rw [hoptions]
  exact (AddAlike.selected _ (.line (htime _ _) c root)).andThen (.selected _ (ht.trace c))

/-- The timeline that a file finds is reset, so it does not matter. -/
theorem parseFile_eq (s : Shell) (c : Console) (t : Timeline) (file : String) :
    let found := Analysis.analyse (analysisOptions s.options) s.fileSystem file s.stopwatch
      (c.debugLine s!"Parsing: {file}") {}
    (parseFile s (c, t) file).1 = close s found.2 found.1 := rfl

theorem exists_parseFile (hoptions : s'.options = s.options) (hfiles : s'.fileSystem = s.fileSystem) (file : String) :
    ∃ say say', (∀ c t, (parseFile s (c, t) file).1 = say c) ∧ (∀ c t, (parseFile s' (c, t) file).1 = say' c) ∧
      ∀ c, AddAlike say say' c := by
  obtain ⟨say, say', after, after', hsay, hsay', halike, hafter⟩ :=
    Analysis.exists_analyse (rfl : Timeline.Like {} {}) (analysisOptions s.options) s.fileSystem file s.stopwatch
      s'.stopwatch
  refine ⟨fun c => close s after (say (c.debugLine s!"Parsing: {file}")),
    fun c => close s' after' (say' (c.debugLine s!"Parsing: {file}")), fun c t => ?_, fun c t => ?_, fun c => ?_⟩
  · rw [parseFile_eq, hsay]
  · rw [parseFile_eq, hoptions, hfiles, hsay']
  · obtain ⟨lines, hlines⟩ := adds_debugLine c s!"Parsing: {file}" root
    exact ((AddAlike.of_adds hlines).andThen (halike c)).andThen (close_alike hoptions hafter c)

/-- The files one after the other: by induction on them, as each resets the timeline. -/
theorem exists_parseFiles (s s' : Shell) (hoptions : s'.options = s.options)
    (hfiles : s'.fileSystem = s.fileSystem) (files : List String) :
    ∃ say say', (∀ c t, (files.foldl (parseFile s) (c, t)).1 = say c) ∧
      (∀ c t, (files.foldl (parseFile s') (c, t)).1 = say' c) ∧ ∀ c, AddAlike say say' c := by
  induction files with
  | nil => exact ⟨_, _, fun _ _ => rfl, fun _ _ => rfl, .skip⟩
  | cons file files ih =>
    obtain ⟨say, say', hsay, hsay', halike⟩ := exists_parseFile hoptions hfiles file
    obtain ⟨rest, rest', hrest, hrest', hrests⟩ := ih
    refine ⟨fun c => rest (say c), fun c => rest' (say' c), fun c t => ?_, fun c t => ?_, fun c => ?_⟩
    · exact (hrest ..).trans (congrArg rest (hsay c t))
    · exact (hrest' ..).trans (congrArg rest' (hsay' c t))
    · exact (halike c).andThen (hrests c)

/-! ## Runs that write -/

/-- Whatever was written before, the run comes to its end, has added these lines and has changed nothing else: neither
the settings and indentations of the console nor the session, and no domain was created. -/
def Writes (x : ShellRun Unit) (s : Shell) (lines : List Emission) : Prop :=
  ∀ before, x { s with console := s.console.adding before } =
    .ok () { s with console := s.console.adding (before ++ lines) }

variable {x y : ShellRun Unit} {lines more : List Emission} {xs ys : List String}

theorem Writes.unique (h : Writes x s lines) (h' : Writes x s more) : lines = more := by
  have hsame := (h []).symm.trans (h' [])
  exact adding_injective (congrArg Shell.console (EStateM.Result.ok.inj hsame).2)

theorem Writes.andThen (hx : Writes x s lines) (hy : Writes y s more) : Writes (x >>= fun _ => y) s (lines ++ more) := by
  intro before
  rw [EStateM.bind_of_ok (hx before), hy (before ++ lines), List.append_assoc]

theorem Writes.forM {α : Type} {f : α → ShellRun Unit} (h : ∀ a, ∃ lines, Writes (f a) s lines) (items : List α) :
    ∃ lines, Writes (items.forM f) s lines := by
  induction items with
  | nil => exact ⟨[], fun before => by rw [List.append_nil]; rfl⟩
  | cons a items ih =>
    obtain ⟨lines, hlines⟩ := h a
    obtain ⟨more, hmore⟩ := ih
    exact ⟨_, hlines.andThen hmore⟩

theorem writes_parse_iff (s : Shell) (files : List String) (lines : List Emission) :
    Writes parse { s with files } lines ↔ ∀ before,
      (files.foldl (parseFile s) (s.console.adding before, {})).1 = s.console.adding (before ++ lines) := by
  refine forall_congr' fun before => ⟨fun h => ?_, fun h => ?_⟩
  · exact congrArg Shell.console (EStateM.Result.ok.inj h).2
  · exact congrArg (fun console => EStateM.Result.ok () { s with files, console }) h

/-- Files are parsed as one after the other. -/
theorem Writes.parse_append (hx : Writes parse { s with files := xs } lines)
    (hy : Writes parse { s with files := ys } more) : Writes parse { s with files := xs ++ ys } (lines ++ more) := by
  rw [writes_parse_iff] at hx hy ⊢
  intro before
  obtain ⟨say, -, hsay, -, -⟩ := exists_parseFiles s s rfl rfl ys
  rw [List.foldl_append, ← List.append_assoc, ← hy (before ++ lines), ← hx before, hsay]
  exact (hsay ..).symm

/-- Files are parsed to the end, and with other times the same is written but for these. -/
theorem exists_parse (s : Shell) (files : List String) : ∃ lines : Double → List Emission,
    (∀ time, Writes parse { s with files, stopwatch := time } (lines time)) ∧
      ∀ time time', SameButTimes (lines time) (lines time') := by
  have hpair (time time' : Double) : ∃ lines lines',
      Writes parse { s with files, stopwatch := time } lines ∧
      Writes parse { s with files, stopwatch := time' } lines' ∧ SameButTimes lines lines' := by
    obtain ⟨say, say', hsay, hsay', halike⟩ :=
      exists_parseFiles { s with stopwatch := time } { s with stopwatch := time' } rfl rfl files
    obtain ⟨lines, lines', hlines, hlines', hsame⟩ := halike s.console
    refine ⟨lines, lines', (writes_parse_iff { s with stopwatch := time } files lines).2 fun before => ?_,
      (writes_parse_iff { s with stopwatch := time' } files lines').2 fun before => ?_, hsame⟩
    · exact (hsay ..).trans (hlines before)
    · exact (hsay' ..).trans (hlines' before)
  choose lines _ hlines _ _ using fun time => hpair time time
  refine ⟨lines, hlines, fun time time' => ?_⟩
  obtain ⟨this, that, hthis, hthat, hsame⟩ := hpair time time'
  rw [(hlines time).unique hthis, (hlines time').unique hthat]
  exact hsame

/-! ## Disassembling -/

theorem writes_write {f : Console → Console} (h : Adds f s.console lines) : Writes (write f) s lines :=
  fun before => congrArg (fun console => EStateM.Result.ok () ({ s with console } : Shell)) (h before)

theorem exists_disassembleFile (s : Shell) (file : String) : ∃ lines, Writes (disassembleFile file) s lines := by
  obtain ⟨read, hread⟩ := exists_readModule s file
  have hshown : ∃ f lines, Adds f s.console lines ∧ ∀ console,
      disassembleFile file { s with console } = write f { s with console } := by
    cases read with
    | error e =>
      obtain ⟨lines, hlines⟩ := adds_errorLine s.console e.message root
      exact ⟨_, lines, hlines, fun console => EStateM.bind_of_ok (hread console)⟩
    | ok m => exact ⟨_, _, m.adds_write s.console root, fun console => EStateM.bind_of_ok (hread console)⟩
  obtain ⟨f, lines, hlines, hwrite⟩ := hshown
  exact ⟨lines, fun before => (hwrite _).trans (writes_write hlines before)⟩

theorem exists_disassemble (s : Shell) (files : List String) : ∃ lines, Writes (disassemble files) s lines :=
  Writes.forM (exists_disassembleFile s) _

theorem disassemble_append (xs ys : List String) :
    disassemble (xs ++ ys) = disassemble xs >>= fun _ => disassemble ys := by
  rw [disassemble, List.filter_append, List.forM_eq_forM, List.forM_append]
  rfl

/-! ## Both runs -/

/-- Parsing and disassembling come to their end whatever the files are, add lines and change nothing else; two lists of
files in one run give the lines of the one followed by those of the other. What parsing writes at two times is the same
but for these. -/
theorem files_are_independent (s : Shell) (xs ys : List String) :
    (∃ first second : Double → List Emission,
      (∀ time,
        Writes parse { s with files := xs, stopwatch := time } (first time) ∧
        Writes parse { s with files := ys, stopwatch := time } (second time) ∧
        Writes parse { s with files := xs ++ ys, stopwatch := time } (first time ++ second time)) ∧
      ∀ time time', SameButTimes (first time) (first time') ∧ SameButTimes (second time) (second time')) ∧
    ∃ first second,
      Writes (disassemble xs) s first ∧ Writes (disassemble ys) s second ∧
        Writes (disassemble (xs ++ ys)) s (first ++ second) := by
  constructor
  · obtain ⟨first, hfirst, hfirsts⟩ := exists_parse s xs
    obtain ⟨second, hsecond, hseconds⟩ := exists_parse s ys
    exact ⟨first, second, fun time => ⟨hfirst time, hsecond time,
      Writes.parse_append (s := { s with stopwatch := time }) (hfirst time) (hsecond time)⟩,
      fun time time' => ⟨hfirsts time time', hseconds time time'⟩⟩
  · obtain ⟨first, hfirst⟩ := exists_disassemble s xs
    obtain ⟨second, hsecond⟩ := exists_disassemble s ys
    exact ⟨first, second, hfirst, hsecond, disassemble_append xs ys ▸ hfirst.andThen hsecond⟩

end Run

end Shell

end MovieVm
