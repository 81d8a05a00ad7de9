import MovieVm.Proofs.Codec
import MovieVm.Proofs.Completion
import MovieVm.Proofs.GuardedModules
import MovieVm.Proofs.GuardedReception

/-!
# Loads under guard

A loader over a guarded parser. Whatever it is asked to do, and however the bytes of a plain file are cut, it never
traps and delivers what the loader delivers.
-/

namespace MovieVm.Movie

/-- A loader that keeps what it has received in a guarded parser. -/
structure GuardedLoader where
  parser : Parser := {}
  state : Loader.State := .header
  batches : List Batch := []
  progressDue : Bool := false
  isWaiting : Bool := false
  inputFinished : Bool := false
  acks : List Ack := []

namespace GuardedLoader

/-! ## Steps -/

structure Delivery where
  loader : GuardedLoader
  events : List LoadEvent
  result : Except Fault Unit

inductive Step where
  | next (loader : GuardedLoader) (events : List LoadEvent)
  | stop (delivery : Delivery)

def isFinished (g : GuardedLoader) : Bool :=
  g.state = .complete || g.state = .failed

def rest (g : GuardedLoader) : Step :=
  .stop ⟨g, [], .ok ()⟩

def fail (g : GuardedLoader) (fault : Fault) : Delivery :=
  ⟨{ g with state := .failed, batches := [] }, [.failed fault], .error fault⟩

def await (g : GuardedLoader) : Option Step := do
  if g.inputFinished then return .stop (g.fail (← g.parser.incomplete)) else return g.rest

def deliver (g : GuardedLoader) (b : Batch) (batches : List Batch) : Step :=
  let waits := g.acks.head? = some .pending
  let g := { g with batches, acks := g.acks.tail, isWaiting := waits }
  if waits then .stop ⟨g, Loader.batchEvents b, .ok ()⟩ else .next g (Loader.batchEvents b)

def scanned (g : GuardedLoader) (s : File.Scan) : GuardedLoader :=
  if s.tags = 0 then g
  else
    { g with
      progressDue := true
      batches := if s.eager.isEmpty then g.batches else g.batches ++ [⟨s.eager, s.bytes⟩] }

/-- An event for the file, if there is one. -/
def report (g : GuardedLoader) (event : File → LoadEvent) : List LoadEvent :=
  g.parser.file?.toList.map event

def openFile (g : GuardedLoader) : Option Step := do
  match ← g.parser.readHeader with
  | .error fault => return .stop (g.fail fault)
  | .ok none => g.await
  | .ok (some parser) =>
    let (parser, outcome) ← parser.scan
    let g := { g with parser }
    match outcome with
    | .error fault => return .stop (g.fail fault)
    | .ok s => return .next { g.scanned s with state := .opened } (g.report .opened)

def readOn (g : GuardedLoader) : Option Step := do
  let (parser, outcome) ← g.parser.scan
  let g := { g with parser }
  match outcome with
  | .error fault => return .stop (g.fail fault)
  | .ok s =>
    if s.tags ≠ 0 then return .next (g.scanned s) []
    else if g.parser.file?.any (·.isComplete) then
      return .stop ⟨{ g with state := .complete }, g.report .completed, .ok ()⟩
    else g.await

/-- What is done next depends on the state, which tells whether the header has been read. -/
def advance (g : GuardedLoader) : Option Step :=
  match g.state with
  | .header => g.openFile
  | .opened =>
    if g.progressDue then
      some (.next { g with progressDue := false } (g.report fun f => .progressed f (Loader.progressOf f)))
    else g.readOn
  | .complete | .failed => some g.rest

def step (g : GuardedLoader) : Option Step :=
  if g.isWaiting || g.isFinished then some g.rest
  else
    match g.batches with
    | b :: batches => some (g.deliver b batches)
    | [] => g.advance

/-! ## Views -/

/-- The loader that a guarded loader is. -/
def view (g : GuardedLoader) : Loader where
  reception := g.parser.reception
  state := g.state
  batches := g.batches
  progressDue := g.progressDue
  isWaiting := g.isWaiting
  inputFinished := g.inputFinished
  acks := g.acks

def Delivery.view (d : Delivery) : Loader.Delivery :=
  ⟨d.loader.view, d.events, d.result⟩

def Step.view : Step → Loader.Step
  | .next g events => .next g.view events
  | .stop d => .stop d.view

/-! ## Calls -/

/-- Takes steps until the call ends; to take more than `fuel` of them is a trap. -/
def run (g : GuardedLoader) (fuel : Nat) : Option Delivery :=
  match fuel with
  | 0 => none
  | fuel + 1 => do
    match ← g.step with
    | .stop d => return d
    | .next g events =>
      let d ← run g fuel
      return { d with events := events ++ d.events }

def process (g : GuardedLoader) : Option Delivery :=
  g.run (g.view.work + 1)

def append (g : GuardedLoader) (bytes : List UInt8) : Option Delivery := do
  if g.state = .complete && !g.inputFinished then return ⟨g, [], .ok ()⟩
  else if g.isFinished || g.inputFinished then return ⟨g, [], .error .closed⟩
  else
    match ← g.parser.buffer.push bytes with
    | .error fault => return g.fail fault
    | .ok buffer => process { g with parser := { g.parser with buffer } }

def finish (g : GuardedLoader) : Option Delivery :=
  let closed := g.state = .failed
  let g := { g with inputFinished := true }
  if closed then some ⟨g, [], .error .closed⟩ else g.process

def resume (g : GuardedLoader) : Option Delivery :=
  if g.isWaiting then process { g with isWaiting := false } else some ⟨g, [], .ok ()⟩

def call (g : GuardedLoader) : Loader.Call → Option Delivery
  | .append bytes => g.append bytes
  | .finish => g.finish
  | .resume => g.resume

/-- What each of the calls leads to. -/
def deliveries (g : GuardedLoader) : List Loader.Call → Option (List Delivery)
  | [] => some []
  | c :: calls => do
    let d ← g.call c
    return d :: (← deliveries d.loader calls)

/-! ## No trap -/

/-- A loader of a plain file of which `more` is still to arrive. It has a file when its header has been read. -/
structure Runs (g : GuardedLoader) (more : List UInt8) : Prop where
  parser : g.parser.Valid more
  header : g.state = .header → g.parser.file? = none
  opened : g.state = .opened → g.parser.file?.isSome

/-- A loader that has failed does not look at its bytes any more. -/
def Valid (g : GuardedLoader) (more : List UInt8) : Prop :=
  g.state = .failed ∨ g.Runs more

variable {g : GuardedLoader} {more : List UInt8}

/-- Behind the header there is a file in every state. -/
theorem Runs.of_read {file : File} (hparser : g.parser.Valid more) (hstate : g.state ≠ .header)
    (hfile : g.parser.file? = some file) : g.Runs more :=
  ⟨hparser, fun hheader => absurd hheader hstate, fun _ => hfile ▸ rfl⟩

/-- A step that does not trap and is the loader's; the bytes that are still to come stay the same. -/
inductive Steps (more : List UInt8) : Option Step → Loader.Step → Prop where
  | next {g' : GuardedLoader} {events : List LoadEvent} (hvalid : g'.Valid more) :
    Steps more (some (.next g' events)) (.next g'.view events)
  | stop {d : Delivery} (hvalid : d.loader.Valid more) : Steps more (some (.stop d)) (.stop d.view)

theorem steps_fail (g : GuardedLoader) (fault : Fault) :
    Steps more (some (.stop (g.fail fault))) (.stop (g.view.fail fault)) :=
  .stop (.inl rfl)

theorem view_scanned (g : GuardedLoader) (s : File.Scan) : (g.scanned s).view = g.view.scanned s := by
  unfold scanned Loader.scanned
  split <;> rfl

theorem parser_scanned (g : GuardedLoader) (s : File.Scan) : (g.scanned s).parser = g.parser := by
  unfold scanned
  split <;> rfl

theorem state_scanned (g : GuardedLoader) (s : File.Scan) : (g.scanned s).state = g.state := by
  unfold scanned
  split <;> rfl

theorem report_of_read {file : File} (h : g.parser.file? = some file) (event : File → LoadEvent) :
    g.report event = [event file] := by
  rw [report, h]
  rfl

theorem steps_await (h : g.Runs more) : Steps more g.await g.view.await := by
  have hincomplete : g.parser.incomplete = some g.view.reception.incomplete := Parser.incomplete_eq h.parser
  rw [await, Loader.await, hincomplete]
  by_cases hinput : g.inputFinished = true
  · have hview : g.view.inputFinished = true := hinput
    rw [if_pos hinput, if_pos hview]
    exact steps_fail g _
  · have hview : ¬g.view.inputFinished = true := hinput
    rw [if_neg hinput, if_neg hview]
    exact .stop (.inr h)

/-- A parser after a scan has received what the scan has left. -/
theorem exists_scan {p : Parser} {file file' : File} {rest : List UInt8} {outcome : Except Fault File.Scan}
    (hp : p.Valid more) (hfile : p.file? = some file)
    (hscan : file.scan (p.buffer.body.drop p.position) = (file', rest, outcome)) :
    ∃ after : Parser, p.scan = some (after, outcome) ∧ after.Valid more ∧ after.file? = some file' ∧
      after.reception = .tags p.buffer.intake file' rest := by
  obtain ⟨stop, hguarded, hrest, hafter⟩ := Parser.scan_eq hp hfile
  rw [hscan] at hguarded hrest hafter
  refine ⟨_, hguarded, hafter, rfl, ?_⟩
  rw [Parser.reception_of_read (hafter.reads _ rfl) rfl]
  exact congrArg _ hrest.symm

theorem view_received {after : Parser} {r : Reception} (h : after.reception = r) :
    ({ g with parser := after } : GuardedLoader).view = { g.view with reception := r } := by
  subst h
  rfl

theorem steps_openFile (h : g.Runs more) (hwhole : g.parser.buffer.preamble.length = Preamble.size)
    (hfile : g.parser.file? = none) :
    Steps more g.openFile
      (g.view.openFile g.parser.buffer.declared g.parser.buffer.intake g.parser.buffer.body) := by
  have hopens := Parser.opens h.parser hwhole hfile
  rw [openFile, Loader.openFile]
  generalize g.parser.readHeader = out at hopens
  cases hopens with
  | awaits hheader =>
    rw [hheader]
    exact steps_await h
  -- The tags that have come with the header are scanned in the same step.
  | @reads p' file hfile' hbuffer hheader hvalid =>
    rcases hscan : file.scan (p'.buffer.body.drop p'.position) with ⟨file', rest, outcome⟩
    obtain ⟨after, hguarded, hafter, hfound, hreception⟩ := exists_scan hvalid hfile' hscan
    rw [hbuffer] at hreception
    have hview := view_received (g := g) hreception
    rw [hheader]
    simp only [Option.bind_eq_bind, Option.bind_some, hguarded, hscan, ← hview]
    cases outcome with
    | error fault => exact steps_fail _ fault
    | ok s =>
      have hruns : Runs { scanned { g with parser := after } s with state := .opened } more :=
        .of_read (by rwa [parser_scanned]) (by simp) (by rwa [parser_scanned])
      rw [report_of_read (g := { g with parser := after }) hfound]
      dsimp only
      rw [← view_scanned]
      exact .next (.inr hruns)

theorem steps_readOn (h : g.Runs more) {file : File} (hstate : g.state = .opened) (hfile : g.parser.file? = some file) :
    Steps more g.readOn
      (g.view.readOn g.parser.buffer.intake file (g.parser.buffer.body.drop g.parser.position)) := by
  rcases hscan : file.scan (g.parser.buffer.body.drop g.parser.position) with ⟨file', rest, outcome⟩
  obtain ⟨after, hguarded, hafter, hfound, hreception⟩ := exists_scan h.parser hfile hscan
  have hview := view_received (g := g) hreception
  have hopened : g.state ≠ .header := by simp [hstate]
  rw [readOn, Loader.readOn]
  simp only [Option.bind_eq_bind, Option.bind_some, hguarded, hscan, ← hview]
  cases outcome with
  | error fault => exact steps_fail _ fault
  | ok s =>
    dsimp only
    split
    · have hscanned : Runs (scanned { g with parser := after } s) more :=
        .of_read (by rwa [parser_scanned]) (by rwa [state_scanned]) (by rwa [parser_scanned])
      rw [← view_scanned]
      exact .next (.inr hscanned)
    · rw [hfound, Option.any_some]
      split
      · rw [report_of_read (g := { g with parser := after }) hfound]
        have hcomplete : Runs { g with parser := after, state := .complete } more :=
          .of_read hafter (by simp) hfound
        have hended := view_received (g := { g with state := .complete }) hreception
        have hstop := Steps.stop (d := ⟨{ g with parser := after, state := .complete }, [.completed file'], .ok ()⟩)
          (.inr hcomplete)
        rw [Delivery.view, hended] at hstop
        exact hstop
      · exact steps_await (g := { g with parser := after }) (.of_read hafter hopened hfound)

theorem Runs.same (h : g.Runs more) {g' : GuardedLoader} (hparser : g'.parser = g.parser)
    (hstate : g'.state = g.state) : g'.Runs more :=
  ⟨hparser ▸ h.parser, by rw [hparser, hstate]; exact h.header, by rw [hparser, hstate]; exact h.opened⟩

theorem steps_deliver (h : g.Runs more) (b : Batch) (batches : List Batch) :
    Steps more (some (g.deliver b batches)) (g.view.deliver b batches) := by
  have hacks : g.view.acks = g.acks := rfl
  let after : GuardedLoader :=
    { g with batches, acks := g.acks.tail, isWaiting := decide (g.acks.head? = some .pending) }
  have hafter : after.Runs more := h.same rfl rfl
  rw [deliver, Loader.deliver, hacks]
  by_cases hack : g.acks.head? = some .pending
  · rw [if_pos hack, if_pos hack]
    exact .stop (d := ⟨after, Loader.batchEvents b, .ok ()⟩) (.inr hafter)
  · rw [if_neg hack, if_neg hack]
    exact .next (.inr hafter)

/-- The next step of a loader without batches. -/
def advanced (l : Loader) : Loader.Step :=
  match l.reception with
  | .preamble _ => l.await
  | .header p intake body => l.openFile p intake body
  | .tags intake file body =>
    if l.progressDue then .next { l with progressDue := false } [.progressed file (Loader.progressOf file)]
    else l.readOn intake file body

theorem steps_header (h : g.Runs more) (hstate : g.state = .header) : Steps more g.openFile (advanced g.view) := by
  have hfile := h.header hstate
  by_cases hbegun : g.parser.buffer.preamble.length < Preamble.size
  · have hreception : g.view.reception = .preamble _ := Parser.reception_of_begun hbegun
    have hread : g.parser.readHeader = some (.ok none) := by
      rw [Parser.readHeader, hfile, if_neg (by simp), if_pos hbegun]
    rw [advanced, hreception, openFile, hread]
    exact steps_await h
  · have hwhole := h.parser.whole hbegun
    have hreception : g.view.reception = .header _ _ _ := Parser.reception_of_unread hwhole hfile
    rw [advanced, hreception]
    exact steps_openFile h hwhole hfile

theorem steps_opened (h : g.Runs more) (hstate : g.state = .opened) {file : File} (hfile : g.parser.file? = some file) :
    Steps more (if g.progressDue then
        some (.next { g with progressDue := false } (g.report fun f => .progressed f (Loader.progressOf f)))
      else g.readOn) (advanced g.view) := by
  have hreception : g.view.reception = .tags _ _ _ := Parser.reception_of_read (h.parser.reads file hfile) hfile
  have hdue : g.view.progressDue = g.progressDue := rfl
  rw [advanced, hreception, hdue]
  dsimp only
  split
  · have hafter : Runs { g with progressDue := false } more := h.same rfl rfl
    rw [report_of_read hfile, ← hreception]
    exact .next (.inr hafter)
  · exact steps_readOn h hstate hfile

theorem steps_advance (h : g.Runs more) (hidle : ¬(g.isWaiting || g.isFinished) = true) :
    Steps more g.advance (advanced g.view) := by
  rw [advance]
  split
  · exact steps_header h ‹_›
  · rename_i hstate
    obtain ⟨file, hfile⟩ := Option.isSome_iff_exists.1 (h.opened hstate)
    exact steps_opened h hstate hfile
  all_goals exact absurd (by simp [isFinished, ‹g.state = _›]) hidle

/-- A step never traps, and it is the step of the loader. -/
theorem steps (h : g.Valid more) : Steps more g.step g.view.step := by
  -- A loader that has failed rests, and nothing is asked of what it has left of the file.
  obtain hfailed | h := h
  · have hfinished : (g.isWaiting || g.isFinished) = true := by simp [isFinished, hfailed]
    have hview : (g.view.isWaiting || g.view.isFinished) = true := hfinished
    rw [step, if_pos hfinished, Loader.step, if_pos hview]
    exact .stop (.inl hfailed)
  · by_cases hidle : (g.isWaiting || g.isFinished) = true
    · have hview : (g.view.isWaiting || g.view.isFinished) = true := hidle
      rw [step, if_pos hidle, Loader.step, if_pos hview]
      exact .stop (.inr h)
    · have hview : ¬(g.view.isWaiting || g.view.isFinished) = true := hidle
      have hadvanced := steps_advance h hidle
      rw [advanced] at hadvanced
      rw [step, if_neg hidle, Loader.step, if_neg hview]
      split
      · rename_i b batches hbatches
        have hview : g.view.batches = b :: batches := hbatches
        rw [hview]
        exact steps_deliver h b batches
      · rename_i hbatches
        split
        · rename_i hview
          cases hbatches.symm.trans hview
        · exact hadvanced

/-! ### Whole calls -/

/-- What a call comes to without a trap, which is what the loader comes to. -/
inductive Delivers (more : List UInt8) : Option Delivery → Loader.Delivery → Prop where
  | intro (d : Delivery) (hvalid : d.loader.Valid more) : Delivers more (some d) d.view

/-- The steps of a call come to an end before the fuel does. -/
theorem delivers_run {fuel : Nat} (h : g.Valid more) (hfuel : g.view.work < fuel) :
    Delivers more (g.run fuel) (g.view.run fuel) := by
  -- A step that does not end the call leaves less work, so the fuel is never used up before it ends.
  induction fuel generalizing g with
  | zero => exact absurd hfuel (Nat.not_lt_zero _)
  | succ fuel ih =>
    have hsteps := steps h
    rw [run, Loader.run]
    generalize hmodel : g.view.step = model at hsteps
    generalize g.step = out at hsteps
    cases hsteps with
    | stop hvalid => exact .intro _ hvalid
    | @next g' events hvalid =>
      have hwork := (Loader.goes_of_step hmodel).work
      have hrest := ih hvalid (by omega)
      simp only [Option.bind_eq_bind, Option.bind_some]
      generalize g'.view.run fuel = rest at hrest
      generalize g'.run fuel = out at hrest
      obtain ⟨d, hvalid⟩ := hrest
      exact .intro { d with events := events ++ d.events } hvalid

theorem delivers_process (h : g.Valid more) : Delivers more g.process g.view.process :=
  delivers_run h (Nat.lt_succ_self _)

theorem Valid.same (h : g.Valid more) {g' : GuardedLoader} (hparser : g'.parser = g.parser)
    (hstate : g'.state = g.state) : g'.Valid more := by
  obtain hfailed | hruns := h
  · exact .inl (hstate.trans hfailed)
  · exact .inr (hruns.same hparser hstate)

theorem delivers_append {bytes : List UInt8} (h : g.Valid (g.view.accepted (.append bytes) ++ more)) :
    Delivers more (g.append bytes) (g.view.append bytes) := by
  have hclosed : (g.view.isFinished || g.view.inputFinished) = (g.isFinished || g.inputFinished) := rfl
  have hcomplete : (decide (g.view.state = .complete) && !g.view.inputFinished) =
      (decide (g.state = .complete) && !g.inputFinished) := rfl
  rw [Loader.accepted, hclosed] at h
  rw [append, Loader.append, hcomplete, hclosed]
  cases hends : g.isFinished || g.inputFinished with
  | true =>
    rw [hends] at h
    have hvalid : g.Valid more := h
    split
    · exact .intro ⟨g, [], .ok ()⟩ hvalid
    · exact .intro ⟨g, [], .error .closed⟩ hvalid
  | false =>
    rw [hends] at h
    -- A loader that takes bytes has not failed, so what it knows of its parser still holds.
    have hruns : g.Runs (bytes ++ more) := by
      obtain hfailed | hruns := h
      · simp [isFinished, hfailed] at hends
      · exact hruns
    have hopen : ¬(decide (g.state = .complete) && !g.inputFinished) = true := by
      intro hdone
      simp only [Bool.and_eq_true, decide_eq_true_eq] at hdone
      simp [isFinished, hdone.1] at hends
    rw [if_neg hopen, if_neg hopen]
    have hpushes := Parser.pushes hruns.parser
    have hview : g.view.reception = g.parser.reception := rfl
    simp only [Bool.false_eq_true, if_false, Option.bind_eq_bind, hview]
    generalize g.parser.buffer.push bytes = out at hpushes
    cases hpushes with
    | fault hfault =>
      rw [hfault]
      exact .intro (g.fail _) (.inl rfl)
    | @taken buffer htaken hvalid =>
      have hafter : Runs { g with parser := { g.parser with buffer } } more := ⟨hvalid, hruns.header, hruns.opened⟩
      rw [htaken]
      exact delivers_process (.inr hafter)

theorem delivers_finish (h : g.Valid more) : Delivers more g.finish g.view.finish := by
  have hstate : g.view.state = g.state := rfl
  rw [finish, Loader.finish, hstate]
  split
  · exact .intro ⟨{ g with inputFinished := true }, [], .error .closed⟩ (h.same rfl rfl)
  · exact delivers_process (h.same rfl rfl)

theorem delivers_resume (h : g.Valid more) : Delivers more g.resume g.view.resume := by
  have hwaits : g.view.isWaiting = g.isWaiting := rfl
  rw [resume, Loader.resume, hwaits]
  split
  · exact delivers_process (h.same rfl rfl)
  · exact .intro ⟨g, [], .ok ()⟩ h

theorem delivers_call {c : Loader.Call} (h : g.Valid (g.view.accepted c ++ more)) :
    Delivers more (g.call c) (g.view.call c) := by
  cases c with
  | append bytes => exact delivers_append h
  | finish => exact delivers_finish h
  | resume => exact delivers_resume h

/-- What each of the calls leads to, for the loader. -/
def allDeliveries (l : Loader) : List Loader.Call → List Loader.Delivery
  | [] => []
  | c :: calls => l.call c :: allDeliveries (l.call c).loader calls

/-- A sequence of calls never traps, and each of them delivers what the loader delivers. -/
theorem deliveries_eq {calls : List Loader.Call} (h : g.Valid (g.view.arrived calls)) :
    (g.deliveries calls).map (List.map Delivery.view) = some (allDeliveries g.view calls) := by
  induction calls generalizing g with
  | nil => rfl
  | cons c calls ih =>
    have hcall := delivers_call h
    rw [deliveries, allDeliveries]
    generalize g.view.call c = model at hcall
    generalize g.call c = out at hcall
    obtain ⟨d, hvalid⟩ := hcall
    have hrest := ih hvalid
    obtain ⟨later, hlater, hviews⟩ := Option.map_eq_some_iff.1 hrest
    simp only [Option.bind_eq_bind, Option.bind_some, hlater]
    change some (d.view :: later.map Delivery.view) = some (d.view :: allDeliveries d.loader.view calls)
    rw [hviews]

theorem valid_start (acks : List Ack) {bytes : List UInt8} (hplain : bytes.take 3 ≠ Draft.signature true)
    (hroom : bytes.length < 2 ^ 63) : Valid { acks } bytes := by
  have hbuffer : Buffer.Valid {} bytes := ⟨Nat.zero_le _, fun _ => ⟨rfl, rfl⟩, rfl, hplain, hroom⟩
  exact .inr ⟨⟨hbuffer, nofun⟩, fun _ => rfl, nofun⟩

/-! ## Sessions -/

/-- The bytes that calls append, whether they are taken or not. -/
def supplied (calls : List Loader.Call) : List UInt8 :=
  calls.flatMap fun
    | .append bytes => bytes
    | .finish | .resume => []

/-- A loader that has refused bytes never takes any again. -/
theorem arrived_isPrefix (l : Loader) (calls : List Loader.Call) : l.arrived calls <+: supplied calls := by
  induction calls generalizing l with
  | nil => exact List.nil_prefix
  | cons c calls ih =>
    have hrest := ih (l.call c).loader
    cases c with
    | finish | resume => exact hrest
    | append bytes =>
      cases hclosed : l.isFinished || l.inputFinished with
      | true =>
        -- Once bytes are refused, so are all that follow, and what has arrived cannot have a gap.
        rw [Loader.arrived_of_closed hclosed]
        exact List.nil_prefix
      | false =>
        have haccepted : l.accepted (.append bytes) = bytes := if_neg (Bool.eq_false_iff.1 hclosed)
        rw [Loader.arrived, haccepted]
        exact (List.prefix_append_right_inj bytes).2 hrest

theorem plain_arrived {l : Loader} {calls : List Loader.Call}
    (hplain : (supplied calls).take 3 ≠ Draft.signature true) :
    (l.arrived calls).take 3 ≠ Draft.signature true := by
  intro hsignature
  obtain ⟨more, hmore⟩ := arrived_isPrefix l calls
  have hlong : 3 ≤ (l.arrived calls).length := by
    have hlength := congrArg List.length hsignature
    rw [List.length_take] at hlength
    have hthree : (Draft.signature true).length = 3 := rfl
    omega
  rw [← hmore, List.take_append_of_le_length hlong] at hplain
  exact hplain hsignature

end GuardedLoader

open GuardedLoader Bytecode

/-- No bytes make a decoder trap: each place that it reads at and each part that it cuts out is there, no difference
goes below zero, no word is shifted further than it is long, no place and no table outgrows what can be counted. The
decoder of modules comes to its module or its fault whatever the bytes are; and a loader that is given a plain file,
in any pieces and with any calls between them, comes to its events and its result in each call. -/
theorem decoding_never_traps :
    (∀ (bytes : List UInt8) (label : String), bytes.length < 2 ^ 63 →
        GuardedDecode.decode bytes label = some (Module.decode bytes label)) ∧
      ∀ (acks : List Ack) (calls : List Loader.Call), (supplied calls).take 3 ≠ Draft.signature true →
        (supplied calls).length < 2 ^ 63 →
        (deliveries { acks } calls).map (List.map Delivery.view) = some (allDeliveries { acks } calls) := by
  refine ⟨fun bytes label hroom => GuardedDecode.decode_eq hroom label, fun acks calls hplain hroom => ?_⟩
  have hlength := (arrived_isPrefix { acks } calls).length_le
  exact deliveries_eq (valid_start acks (plain_arrived hplain) (Nat.lt_of_le_of_lt hlength hroom))

/-- The file in two pieces, with calls before, between and behind them that have nothing to do. -/
def scatteredCalls : List Loader.Call :=
  [.resume, .append (Loader.twoModules.take 20), .resume, .append (Loader.twoModules.drop 20), .finish, .append [0]]

theorem decoding_never_traps_scattered :
    Module.tinyBytes.length < 2 ^ 63 ∧ GuardedDecode.decode Module.tinyBytes "" = some (.ok Module.tiny) ∧
      (supplied scatteredCalls).take 3 ≠ Draft.signature true ∧ (supplied scatteredCalls).length < 2 ^ 63 ∧
      ((deliveries {} scatteredCalls).map (List.map Delivery.view)).map (List.map (·.result)) =
        some [.ok (), .ok (), .ok (), .ok (), .ok (), .error .closed] := by
  obtain ⟨hdecodes, hdelivers⟩ := decoding_never_traps
  have hbytes : Module.tinyBytes.length < 2 ^ 63 := by decide
  have hmodule : Module.decode Module.tinyBytes "" = .ok Module.tiny := by rfl
  have hplain : (supplied scatteredCalls).take 3 ≠ Draft.signature true := by decide
  have hroom : (supplied scatteredCalls).length < 2 ^ 63 := by decide
  have hresults : (allDeliveries {} scatteredCalls).map (·.result) =
      [.ok (), .ok (), .ok (), .ok (), .ok (), .error .closed] := by decide +kernel
  refine ⟨hbytes, hmodule ▸ hdecodes _ "" hbytes, hplain, hroom, ?_⟩
  rw [hdelivers [] scatteredCalls hplain hroom, Option.map_some, hresults]

end MovieVm.Movie
