import Mathlib.Logic.Basic
import MovieVm.Console

/-!
# Families of writers

Clones of a writer share its indentation, and forks start with one of their own; level, porcelain mode and colors belong
to the console and so to all. What is shown of any sequence of calls can be read off the calls themselves: the settings
in force are those set last, and the indentation of a writer is what the calls to its clones have made of it. Level and
porcelain mode decide which lines pass, and nothing else.
-/

namespace MovieVm.Console

/-! ## Calls -/

/-- What a writer can be asked for. -/
inductive Request where
  | write (line : String)
  | writeAll (text : String)
  | debug (line : String)
  | info (line : String)
  | warn (line : String)
  | error (line : String)
  | red (line : String)
  | redAll (lines : List String)
  | enter (line : String)
  | leave (line : String)
  | indent
  | outdent
  | setLevel (level : LogLevel)
  | setPorcelain (porcelain : Bool)
  | setColors (colors : Bool)
  | clone
  | fork

/-- A request to one of the writers of a family, which are numbered as they are made. A number that no writer has yet
stands for the first. -/
structure Call where
  writer : Nat
  request : Request

/-- A console and the writers that were made for it. -/
structure Family where
  console : Console := {}
  writers : List Writer := [root]

namespace Family

def writer (f : Family) (n : Nat) : Writer :=
  f.writers[n]?.getD root

def perform (f : Family) (call : Call) : Family :=
  let w := f.writer call.writer
  match call.request with
  | .write line => { f with console := f.console.writeLine line w }
  | .writeAll text => { f with console := f.console.writeLines text w }
  | .debug line => { f with console := f.console.debugLine line w }
  | .info line => { f with console := f.console.infoLine line w }
  | .warn line => { f with console := f.console.warnLine line w }
  | .error line => { f with console := f.console.errorLine line w }
  | .red line => { f with console := f.console.redLine line w }
  | .redAll lines => { f with console := f.console.redLines lines w }
  | .enter line => { f with console := f.console.enter line w }
  | .leave line => { f with console := f.console.leave line w }
  | .indent => { f with console := f.console.indent w }
  | .outdent => { f with console := f.console.outdent w }
  | .setLevel level => { f with console := { f.console with level } }
  | .setPorcelain porcelain => { f with console := { f.console with porcelain } }
  | .setColors colors => { f with console := { f.console with colors } }
  | .clone => { f with writers := f.writers ++ [w] }
  | .fork =>
    let (forked, console) := f.console.fork
    { console, writers := f.writers ++ [forked] }

/-- A family after some calls. -/
def run (calls : List Call) : Family :=
  calls.foldl perform {}

/-- What a call adds to the lines that are shown. -/
def adds (f : Family) (call : Call) : List Emission :=
  (f.perform call).console.emitted.toList.drop f.console.emitted.size

end Family

/-! ## What requests ask for -/

namespace Request

/-- The lines of a request, whether or not they are let through. -/
def lines (colors : Bool) : Request → List String
  | write line | debug line | info line | warn line | error line | enter line => [line]
  | writeAll text => (Text.lines text.toList).map String.ofList
  | red line => [redden line]
  | redAll lines => lines.map redden
  | leave line => if line.isEmpty then [] else [line]
  | _ => []
where
  redden (line : String) : String :=
    if colors then "\x1b[91m" ++ line ++ "\x1b[0m" else line

/-- Whether its lines are let through. -/
def passes (level : LogLevel) (porcelain : Bool) : Request → Bool
  | debug _ => level.shows .debug
  | info _ => !porcelain && level.shows .info
  | warn _ => !porcelain && level.shows .warn
  | error _ => !porcelain
  | _ => true

def channel : Request → Channel
  | warn _ | error _ => .err
  | _ => .out

/-- The indentation that a request leaves; below zero it stays at zero. -/
def shift (before : Nat) : Request → Nat
  | enter _ | indent => before + 1
  | leave _ | outdent => before - 1
  | _ => before

/-- The indentation of its lines. A line that ends a section stands outside of it. -/
def margin (before : Nat) : Request → Nat
  | leave _ => before - 1
  | _ => before

/-- The level that a request leaves, which only a request to set it changes. -/
def level (before : LogLevel) : Request → LogLevel
  | setLevel level => level
  | _ => before

def porcelain (before : Bool) : Request → Bool
  | setPorcelain porcelain => porcelain
  | _ => before

def colors (before : Bool) : Request → Bool
  | setColors colors => colors
  | _ => before

/-- The lines of an essential request are always shown. -/
def isEssential : Request → Bool
  | write _ | writeAll _ | red _ | redAll _ | enter _ | leave _ => true
  | _ => false

/-- Whether a request sets what diagnostic lines obey. -/
def isFilter : Request → Bool
  | setLevel _ | setPorcelain _ => true
  | _ => false

end Request

/-! ## What the calls before say -/

/-- The calls so far, the latest first. -/
abbrev History := List Call

namespace History

/-- The level in force is the one that was set last. -/
def level : History → LogLevel
  | [] => .warn
  | call :: earlier => call.request.level (level earlier)

def porcelain : History → Bool
  | [] => false
  | call :: earlier => call.request.porcelain (porcelain earlier)

def colors : History → Bool
  | [] => false
  | call :: earlier => call.request.colors (colors earlier)

/-- How many writers there are. -/
def count : History → Nat
  | [] => 1
  | call :: earlier =>
    match call.request with
    | .clone | .fork => count earlier + 1
    | _ => count earlier

/-- The writer that a writer is a clone of, or a clone of a clone and so on. Writers of one origin form a group. -/
def origin : History → Nat → Nat
  | [], _ => 0
  | call :: earlier, n =>
    match call.request with
    | .clone => if n = count earlier then origin earlier call.writer else origin earlier n
    | .fork => if n = count earlier then n else origin earlier n
    | _ => origin earlier n

/-- The indentation of a group: what the calls to its writers have made of zero. -/
def depth : History → Nat → Nat
  | [], _ => 0
  | call :: earlier, group =>
    if origin earlier call.writer = group then call.request.shift (depth earlier group) else depth earlier group

/-- The lines that a call shows: its own, if the settings in force let them through, with two blanks for each level of
the indentation that the group of its writer has. -/
def shown (earlier : History) (call : Call) : List Emission :=
  if call.request.passes earlier.level earlier.porcelain then
    let margin := call.request.margin (earlier.depth (earlier.origin call.writer))
    (call.request.lines earlier.colors).map fun line => ⟨call.request.channel, indentation margin ++ line⟩
  else []

/-- The lines that some calls show, one call after the other. -/
def transcript (earlier : History) : List Call → List Emission
  | [] => []
  | call :: calls => shown earlier call ++ transcript (call :: earlier) calls

end History

/-! ## What a call does to the console -/

variable {c : Console} {w w' : Writer} {f f' : Family} {call : Call} {earlier : History}

/-- The lines of a request that a console lets through. -/
def linesOn (c : Console) (w : Writer) (r : Request) : List Emission :=
  if r.passes c.level c.porcelain then
    (r.lines c.colors).map fun line => ⟨r.channel, indentation (r.margin (c.padding w)) ++ line⟩
  else []

/-- A console on which a request was answered that makes no writer. -/
def answered (c : Console) (w : Writer) (r : Request) : Console where
  level := r.level c.level
  porcelain := r.porcelain c.porcelain
  colors := r.colors c.colors
  paddings := c.paddings.modify w.group fun levels => r.shift levels
  emitted := c.emitted ++ c.linesOn w r

theorem modify_id (paddings : Array Nat) (group : Nat) : paddings.modify group (fun levels => levels) = paddings := by
  apply Array.ext_getElem?
  intro i
  rw [Array.getElem?_modify]
  split
  · exact Option.map_id' ..
  · rfl

/-- A line that is let through or not. -/
theorem gated_eq (c : Console) (channel : Channel) (line : String) (w : Writer) (through : Bool) :
    (if through then c.emit channel line w else c) =
      { c with
        paddings := c.paddings.modify w.group fun levels => levels
        emitted := c.emitted ++
          (if through then [⟨channel, indentation (c.padding w) ++ line⟩] else [] : List Emission) } := by
  cases through <;> simp [emit, modify_id]

theorem errorLine_eq (c : Console) (line : String) (w : Writer) :
    c.errorLine line w = if !c.porcelain then c.emit .err line w else c := by
  unfold errorLine
  cases c.porcelain <;> rfl

theorem redLine_eq (c : Console) (line : String) (w : Writer) :
    c.redLine line w = c.writeLine (Request.lines.redden c.colors line) w := by
  unfold redLine Request.lines.redden
  split <;> rfl

theorem foldl_writeLine (lines : List String) (c : Console) (w : Writer) :
    lines.foldl (fun c line => c.writeLine line w) c =
      { c with
        paddings := c.paddings.modify w.group fun levels => levels
        emitted := c.emitted ++ lines.map fun line => (⟨.out, indentation (c.padding w) ++ line⟩ : Emission) } := by
  rw [modify_id]
  induction lines generalizing c with
  | nil => simp
  | cons line lines ih =>
    rw [List.foldl_cons, ih]
    simp [writeLine, emit, padding]

theorem redLines_eq (lines : List String) (c : Console) (w : Writer) :
    c.redLines lines w = (lines.map (Request.lines.redden c.colors)).foldl (fun c line => c.writeLine line w) c := by
  induction lines generalizing c with
  | nil => rfl
  | cons line lines ih =>
    change (c.redLine line w).redLines lines w = _
    rw [ih, redLine_eq]
    rfl

theorem writeLines_eq (c : Console) (text : String) (w : Writer) :
    c.writeLines text w =
      ((Text.lines text.toList).map String.ofList).foldl (fun c line => c.writeLine line w) c := by
  rw [writeLines, List.foldl_map]

theorem enter_eq (c : Console) (line : String) (w : Writer) : c.enter line w = c.answered w (.enter line) := by
  simp [Console.enter, indent, writeLine, emit, answered, linesOn, Request.passes, Request.lines, Request.level,
    Request.porcelain, Request.colors, Request.shift, Request.channel, Request.margin]

/-- A request without lines shows nothing. -/
theorem answered_silent (c : Console) (w : Writer) (r : Request) (h : r.lines c.colors = []) :
    c.answered w r =
      { level := r.level c.level, porcelain := r.porcelain c.porcelain, colors := r.colors c.colors,
        paddings := c.paddings.modify w.group fun levels => r.shift levels, emitted := c.emitted } := by
  simp [answered, linesOn, h]

theorem padding_outdent (c : Console) (w : Writer) : (c.outdent w).padding w = c.padding w - 1 := by
  simp only [padding, outdent, Array.getElem?_modify, if_true]
  cases c.paddings[w.group]? <;> rfl

theorem leave_eq (c : Console) (line : String) (w : Writer) : c.leave line w = c.answered w (.leave line) := by
  unfold Console.leave answered linesOn
  simp only [Request.passes, Request.lines, if_true]
  split
  · simp [outdent, Request.shift, Request.level, Request.porcelain, Request.colors]
  · rw [writeLine, emit, padding_outdent]
    simp [outdent, Request.shift, Request.level, Request.porcelain, Request.colors, Request.channel, Request.margin]

/-- Every request is answered on the console in one way; a fork comes with an indentation besides. -/
theorem console_perform (f : Family) (call : Call) (h : call.request ≠ .fork) :
    (f.perform call).console = f.console.answered (f.writer call.writer) call.request := by
  obtain ⟨n, r⟩ := call
  cases r with
  | fork => exact absurd rfl h
  | write line => exact gated_eq f.console .out line (f.writer n) true
  | debug line => exact gated_eq ..
  | info line => exact gated_eq ..
  | warn line => exact gated_eq ..
  | error line => exact (errorLine_eq ..).trans (gated_eq ..)
  | red line => exact (redLine_eq ..).trans (gated_eq f.console .out _ (f.writer n) true)
  | writeAll text => exact (writeLines_eq ..).trans (foldl_writeLine ..)
  | redAll lines => exact (redLines_eq ..).trans (foldl_writeLine ..)
  | leave line => exact leave_eq ..
  | enter line => exact enter_eq ..
  | indent | outdent =>
    rw [answered_silent _ _ _ rfl]
    rfl
  | setLevel level | setPorcelain porcelain | setColors colors | clone =>
    rw [answered_silent _ _ _ rfl]
    exact congrArg (Console.mk _ _ _ · _) (modify_id ..).symm

/-- The indentation of a group changes when a request comes to one of its writers. -/
theorem padding_answered (h : w'.group < c.paddings.size) (r : Request) :
    (c.answered w r).padding w' = if w.group = w'.group then r.shift (c.padding w') else c.padding w' := by
  simp only [padding, answered, Array.getElem?_modify, Array.getElem?_eq_getElem h]
  split <;> rfl

/-- A new writer has the next number. -/
theorem writer_append (console : Console) (writers : List Writer) (new : Writer) (n : Nat) :
    Family.writer ⟨console, writers ++ [new]⟩ n = if n = writers.length then new else Family.writer ⟨c, writers⟩ n := by
  unfold Family.writer
  split
  · rename_i heq
    rw [heq, List.getElem?_concat_length, Option.getD_some]
  · rename_i hne
    rcases Nat.lt_or_gt_of_ne hne with hlt | hgt
    · rw [List.getElem?_append_left hlt]
    · have hbehind : (writers ++ [new]).length ≤ n := Nat.le_trans (Nat.le_of_eq List.length_append) hgt
      rw [List.getElem?_eq_none hbehind, List.getElem?_eq_none (Nat.le_of_lt hgt)]

/-! ## The calls tell the state -/

namespace History

/-- No writer has an origin that is not made yet. -/
theorem origin_lt (earlier : History) (n : Nat) : earlier.origin n < earlier.count := by
  induction earlier generalizing n with
  | nil => exact Nat.one_pos
  | cons call earlier ih =>
    obtain ⟨m, r⟩ := call
    cases r with
    | clone =>
      simp only [origin, count]
      split
      · exact Nat.lt_succ_of_lt (ih m)
      · exact Nat.lt_succ_of_lt (ih n)
    | fork =>
      simp only [origin, count]
      split
      · rename_i heq
        exact heq ▸ Nat.lt_succ_self _
      · exact Nat.lt_succ_of_lt (ih n)
    | _ => exact ih n

/-- A group without writers is not indented. -/
theorem depth_of_le {group : Nat} (h : earlier.count ≤ group) : earlier.depth group = 0 := by
  induction earlier with
  | nil => rfl
  | cons call earlier ih =>
    have hle : History.count earlier ≤ group := by
      obtain ⟨m, r⟩ := call
      cases r with
      | clone | fork => exact Nat.le_of_succ_le h
      | _ => exact h
    rw [depth, if_neg (Nat.ne_of_lt (Nat.lt_of_lt_of_le (origin_lt ..) hle)), ih hle]

end History

/-- A family is what the calls so far have made of it. -/
structure Tracks (earlier : History) (f : Family) : Prop where
  level : f.console.level = earlier.level
  porcelain : f.console.porcelain = earlier.porcelain
  colors : f.console.colors = earlier.colors
  count : f.writers.length = earlier.count
  /-- Writers share their indentation if they have one origin. -/
  groups : ∀ m n, (f.writer m).group = (f.writer n).group ↔ earlier.origin m = earlier.origin n
  inside : ∀ n, (f.writer n).group < f.console.paddings.size
  padding : ∀ n, f.console.padding (f.writer n) = earlier.depth (earlier.origin n)

theorem tracks_start : Tracks [] {} where
  level := rfl
  porcelain := rfl
  colors := rfl
  count := rfl
  groups m n := by
    have hroot : ∀ n, ({} : Family).writer n = root := fun n => by
      cases n <;> rfl
    rw [hroot, hroot]
    exact iff_of_true rfl rfl
  inside n := by
    cases n <;> exact Nat.one_pos
  padding n := by
    cases n <;> rfl

namespace Tracks

theorem linesOn_eq (h : Tracks earlier f) (call : Call) :
    f.console.linesOn (f.writer call.writer) call.request = earlier.shown call := by
  rw [linesOn, History.shown, h.level, h.porcelain, h.colors, h.padding]

/-- A request is answered for a writer, and every writer is then one that there was before. -/
theorem answer (h : Tracks earlier f) {after : Family} (before : Nat → Nat)
    (hconsole : after.console = f.console.answered (f.writer call.writer) call.request)
    (hcount : after.writers.length = History.count (call :: earlier))
    (hwriter : ∀ n, after.writer n = f.writer (before n))
    (horigin : ∀ n, History.origin (call :: earlier) n = earlier.origin (before n)) :
    Tracks (call :: earlier) after where
  level := hconsole ▸ congrArg (call.request.level ·) h.level
  porcelain := hconsole ▸ congrArg (call.request.porcelain ·) h.porcelain
  colors := hconsole ▸ congrArg (call.request.colors ·) h.colors
  count := hcount
  groups m n := by
    rw [hwriter, hwriter, horigin, horigin]
    exact h.groups ..
  inside n := by
    rw [hwriter, hconsole, answered, Array.size_modify]
    exact h.inside _
  padding n := by
    rw [hwriter, hconsole, horigin, padding_answered (h.inside _), History.depth, h.padding]
    exact if_congr (h.groups ..) rfl rfl

theorem fork (h : Tracks earlier f) (hfork : call.request = .fork) : Tracks (call :: earlier) (f.perform call) := by
  obtain ⟨w, r⟩ := call
  obtain rfl : r = .fork := hfork
  have hwriter : ∀ n, (f.perform ⟨w, .fork⟩).writer n =
      if n = earlier.count then ⟨f.console.paddings.size⟩ else f.writer n := by
    intro n
    exact h.count ▸ writer_append ..
  have hdepth : ∀ group, History.depth (⟨w, .fork⟩ :: earlier) group = earlier.depth group := by
    intro group
    exact ite_self _
  refine ⟨h.level, h.porcelain, h.colors, ?_, ?_, ?_, ?_⟩
  · exact List.length_append.trans (congrArg (· + 1) h.count)
  · intro m n
    rw [hwriter, hwriter]
    simp only [History.origin]
    -- The new group is beyond all others, and so is the new origin.
    split <;> split
    · rename_i hm hn
      exact iff_of_true rfl (hm.trans hn.symm)
    · rename_i hm hn
      exact iff_of_false (Nat.ne_of_gt (h.inside n)) (hm ▸ Nat.ne_of_gt (History.origin_lt ..))
    · rename_i hm hn
      exact iff_of_false (Nat.ne_of_lt (h.inside m)) (hn ▸ Nat.ne_of_lt (History.origin_lt ..))
    · exact h.groups m n
  · intro n
    rw [hwriter]
    change _ < (f.console.paddings.push 0).size
    rw [Array.size_push]
    split
    · exact Nat.lt_succ_self _
    · exact Nat.lt_succ_of_lt (h.inside n)
  · intro n
    rw [hwriter, hdepth]
    simp only [History.origin]
    split
    · rename_i hn
      rw [History.depth_of_le (Nat.le_of_eq hn.symm)]
      exact congrArg (·.getD 0) Array.getElem?_push_size
    · rw [← h.padding n, Console.padding, Console.padding, Array.getElem?_eq_getElem (h.inside n)]
      exact congrArg (·.getD 0) (Array.getElem?_push_lt (h.inside n))

/-- Every call keeps the family in line with the calls. -/
theorem perform (h : Tracks earlier f) (call : Call) : Tracks (call :: earlier) (f.perform call) := by
  by_cases hfork : call.request = .fork
  · exact h.fork hfork
  have hconsole := console_perform f call hfork
  obtain ⟨w, r⟩ := call
  cases r with
  | fork => exact absurd rfl hfork
  | clone =>
    refine h.answer (fun n => if n = earlier.count then w else n) hconsole ?_ ?_ ?_
    · exact List.length_append.trans (congrArg (· + 1) h.count)
    · intro n
      have hwriter : (f.perform ⟨w, .clone⟩).writer n = if n = earlier.count then f.writer w else f.writer n :=
        h.count ▸ writer_append ..
      rw [hwriter]
      split <;> rfl
    · intro n
      simp only [History.origin]
      split <;> rfl
  | _ => exact h.answer id hconsole h.count (fun n => rfl) (fun n => rfl)

end Tracks

/-! ## What a sequence of calls shows -/

/-- A call adds the lines of its request that pass to what was shown before. -/
theorem emitted_perform (f : Family) (call : Call) :
    (f.perform call).console.emitted.toList =
      f.console.emitted.toList ++ f.console.linesOn (f.writer call.writer) call.request := by
  by_cases hfork : call.request = .fork
  · obtain ⟨w, r⟩ := call
    obtain rfl : r = .fork := hfork
    exact (List.append_nil _).symm
  · rw [console_perform f call hfork]
    exact Array.toList_appendList ..

theorem adds_eq (f : Family) (call : Call) :
    f.adds call = f.console.linesOn (f.writer call.writer) call.request := by
  rw [Family.adds, emitted_perform]
  exact List.drop_left

/-- What is shown of some calls can be read off the calls before them. -/
theorem Tracks.emitted (h : Tracks earlier f) (calls : List Call) :
    (calls.foldl Family.perform f).console.emitted.toList =
      f.console.emitted.toList ++ earlier.transcript calls := by
  induction calls generalizing f earlier with
  | nil => exact (List.append_nil _).symm
  | cons call calls ih =>
    rw [List.foldl_cons, ih (h.perform call), emitted_perform, h.linesOn_eq, History.transcript, List.append_assoc]

/-! ## Runs that differ in their filters -/

/-- The essential calls among some calls, each with the lines that it adds. -/
def Family.essentials (f : Family) : List Call → List (Call × List Emission)
  | [] => []
  | call :: calls =>
    if call.request.isEssential then (call, f.adds call) :: (f.perform call).essentials calls
    else (f.perform call).essentials calls

/-- The families differ in their filters and in what they show. -/
structure Family.Like (f f' : Family) : Prop where
  writers : f'.writers = f.writers
  paddings : f'.console.paddings = f.console.paddings
  colors : f'.console.colors = f.console.colors

namespace Family.Like

theorem writer (h : f.Like f') (n : Nat) : f'.writer n = f.writer n := by
  rw [Family.writer, h.writers, Family.writer]

theorem padding (h : f.Like f') (w : Writer) : f'.console.padding w = f.console.padding w := by
  rw [Console.padding, h.paddings, Console.padding]

theorem indentation (h : f.Like f') (n : Nat) :
    f'.console.padding (f'.writer n) = f.console.padding (f.writer n) := by
  rw [h.writer, h.padding]

theorem perform (h : f.Like f') (call : Call) : (f.perform call).Like (f'.perform call) := by
  by_cases hfork : call.request = .fork
  · obtain ⟨w, r⟩ := call
    obtain rfl : r = .fork := hfork
    refine ⟨?_, congrArg (Array.push · 0) h.paddings, h.colors⟩
    change f'.writers ++ [⟨f'.console.paddings.size⟩] = f.writers ++ [⟨f.console.paddings.size⟩]
    rw [h.writers, h.paddings]
  · refine ⟨?_, ?_, ?_⟩
    · obtain ⟨w, r⟩ := call
      cases r with
      | fork => exact absurd rfl hfork
      | clone =>
        change f'.writers ++ [f'.writer w] = f.writers ++ [f.writer w]
        rw [h.writers, h.writer]
      | _ => exact h.writers
    · rw [console_perform f call hfork, console_perform f' call hfork, answered, answered, h.paddings, h.writer]
    · rw [console_perform f call hfork, console_perform f' call hfork, answered, answered, h.colors]

/-- A call that sets a filter changes nothing else. -/
theorem filter (h : f.Like f') {call : Call} (hfilter : call.request.isFilter = true) : (f.perform call).Like f' := by
  obtain ⟨w, r⟩ := call
  cases r with
  | setLevel level => exact ⟨h.writers, h.paddings, h.colors⟩
  | setPorcelain porcelain => exact ⟨h.writers, h.paddings, h.colors⟩
  | _ => cases hfilter

/-- Essential lines are the same whatever the filters are. -/
theorem adds (h : f.Like f') {call : Call} (hessential : call.request.isEssential = true) :
    f'.adds call = f.adds call := by
  have hpasses : ∀ level porcelain, call.request.passes level porcelain = true := by
    intro level porcelain
    obtain ⟨w, r⟩ := call
    cases r <;> first | rfl | cases hessential
  rw [adds_eq, adds_eq, linesOn, linesOn, hpasses, hpasses, h.colors, h.indentation]

theorem essentials (h : f.Like f') (calls : List Call) :
    f'.essentials (calls.filter (!·.request.isFilter)) = f.essentials calls ∧
      (calls.foldl Family.perform f).Like ((calls.filter (!·.request.isFilter)).foldl Family.perform f') := by
  induction calls generalizing f f' with
  | nil => exact ⟨rfl, h⟩
  | cons call calls ih =>
    cases hfilter : call.request.isFilter with
    | true =>
      have hessential : call.request.isEssential = false := by
        obtain ⟨w, r⟩ := call
        cases r <;> first | rfl | cases hfilter
      rw [List.filter_cons_of_neg (by simp [hfilter]), Family.essentials, hessential]
      exact ih (h.filter hfilter)
    | false =>
      obtain ⟨hessentials, hlike⟩ := ih (h.perform call)
      rw [List.filter_cons_of_pos (by simp [hfilter]), Family.essentials, Family.essentials, hessentials]
      refine ⟨?_, hlike⟩
      split
      · rename_i hessential
        rw [h.adds hessential]
      · rfl

end Family.Like

/-- Level and porcelain mode are filters and nothing more. Whatever is asked of the writers of a family, each channel
shows the lines of the calls in their order, those that the settings in force let through, indented as the writer's
clones have left it. Runs that differ only in the filters that they set show the same lines for each of their essential
calls, and leave every writer with the same indentation. -/
theorem filters_only_filter :
    (∀ calls channel, (Family.run calls).console.channelText channel =
      textOf ((History.transcript [] calls).filter (·.channel = channel))) ∧
    ∀ calls calls', calls.filter (!·.request.isFilter) = calls'.filter (!·.request.isFilter) →
      Family.essentials {} calls = Family.essentials {} calls' ∧
        ∀ n, (Family.run calls).console.padding ((Family.run calls).writer n) =
          (Family.run calls').console.padding ((Family.run calls').writer n) := by
  constructor
  · intro calls channel
    exact congrArg (fun shown => textOf (shown.filter (·.channel = channel))) (tracks_start.emitted calls)
  · intro calls calls' hsame
    have hstart : Family.Like {} {} := ⟨rfl, rfl, rfl⟩
    obtain ⟨hessentials, hlike⟩ := hstart.essentials calls
    obtain ⟨hessentials', hlike'⟩ := hstart.essentials calls'
    rw [hsame] at hessentials hlike
    exact ⟨hessentials.symm.trans hessentials', fun n => (hlike.indentation n).symm.trans (hlike'.indentation n)⟩

/-- A section of the first writer with a line of a clone, which only the level of debugging shows, and one of a fork. -/
def chatter (filters : Request) : List Call :=
  [⟨0, filters⟩, ⟨0, .enter "a"⟩, ⟨0, .clone⟩, ⟨0, .fork⟩, ⟨1, .debug "b"⟩, ⟨2, .write "c"⟩, ⟨1, .leave "d"⟩]

theorem filters_only_filter_chatter :
    (chatter (.setLevel .debug)).filter (!·.request.isFilter) =
        (chatter (.setPorcelain true)).filter (!·.request.isFilter) ∧
      Family.essentials {} (chatter (.setLevel .debug)) = Family.essentials {} (chatter (.setPorcelain true)) ∧
      (Family.run (chatter (.setLevel .debug))).console.channelText .out = "a\n  b\nc\nd\n" ∧
      (Family.run (chatter (.setPorcelain true))).console.channelText .out = "a\nc\nd\n" := by
  obtain ⟨hshown, hfiltered⟩ := filters_only_filter
  refine ⟨rfl, (hfiltered _ _ rfl).1, ?_, ?_⟩
  · rw [hshown]
    decide +kernel
  · rw [hshown]
    decide +kernel


end MovieVm.Console
