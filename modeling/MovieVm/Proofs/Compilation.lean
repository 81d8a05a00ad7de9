import MovieVm.Proofs.EmbeddedModules
import MovieVm.Proofs.ShellRuns
import MovieVm.Proofs.Tallies

/-!
# Compilation

A compilation reads all of its inputs before it decodes the first module, and each phase has its own way to fail: an
input that cannot be read ends the run, a movie that does not load leaves a line and is passed over, and a module that
cannot be decoded ends the run under its name.
-/

namespace MovieVm.Movie

open Loader

variable {bytes : List UInt8} {c : Console}

/-- The modules of a movie that loads are the blocks of its file, in their order. -/
theorem extract_of_ok {file : File} (hload : (load {} bytes).result = .ok ())
    (hfile : (load {} bytes).loader.file? = some file) (c : Console) :
    extract c bytes = (some (file.blocks.toList.map (·.data)), c) := by
  obtain ⟨whole, told, htelling, hevents, hwhole, -, -⟩ := load_opens_whole hload
  obtain rfl : whole = file := Option.some.inj (hwhole.symm.trans hfile)
  have htaken : (load {} bytes).events.flatMap LoadEvent.blocks = whole.blocks.toList.map (·.data) := by
    rw [hevents, List.flatMap_append, List.flatMap_cons, htelling.blocks, List.append_nil]
    exact List.append_nil _
  simp [extract, embeddedModules, hload, Except.map, htaken]

theorem extract_of_error {fault : Fault} (hload : (load {} bytes).result = .error fault) (c : Console) :
    extract c bytes = (none, c.redLine s!"Cannot parse SWF, reason: {fault.message}") := by
  simp [extract, embeddedModules, hload, Except.map]

end MovieVm.Movie

namespace MovieVm.Shell

open Bytecode Movie

/-! ## What inputs contribute -/

/-- Some bytes that are to be a module, under the name that an error gives them. -/
abbrev Buffer := String × List UInt8

def Buffer.Decodes (b : Buffer) : Prop :=
  ∃ m, Module.decode b.2 b.1 = .ok m

/-- What an input contributes to a compilation that reads it: buffers, and lines for what went wrong. -/
inductive Contributes (fs : Files) (file : String) : List Buffer → List String → Prop where
  | module {bytes : List UInt8} (hkind : InputKind.ofPath? file = some .abc) (hread : fs.read file = .ok bytes) :
    Contributes fs file [(file, bytes)] []
  /-- The blocks of a movie are numbered in the order of the file. -/
  | movie {bytes : List UInt8} {m : File} (hkind : InputKind.ofPath? file = some .swf)
    (hread : fs.read file = .ok bytes) (hload : (({} : Loader).load bytes).result = .ok ())
    (hfile : (({} : Loader).load bytes).loader.file? = some m) :
    Contributes fs file (m.blocks.toList.zipIdx.map fun (block, i) => (s!"{file}#{i}", block.data)) []
  /-- A movie that does not load contributes one line. -/
  | broken {bytes : List UInt8} {fault : Fault} (hkind : InputKind.ofPath? file = some .swf)
    (hread : fs.read file = .ok bytes) (hload : (({} : Loader).load bytes).result = .error fault) :
    Contributes fs file [] [s!"Cannot parse SWF, reason: {fault.message}"]
  | other (habc : InputKind.ofPath? file ≠ some .abc) (hswf : InputKind.ofPath? file ≠ some .swf) :
    Contributes fs file [] []

/-- Some inputs are read, and contribute one after the other. -/
inductive Gathers (fs : Files) : List String → List Buffer → List String → Prop where
  | nil : Gathers fs [] [] []
  | cons {file : String} {files : List String} {first buffers : List Buffer} {noted notes : List String}
    (hfirst : Contributes fs file first noted) (hrest : Gathers fs files buffers notes) :
    Gathers fs (file :: files) (first ++ buffers) (noted ++ notes)

/-- A compilation needs the input and cannot read it. -/
structure Unreadable (fs : Files) (file : String) (fault : FileFault) : Prop where
  kind : InputKind.ofPath? file = some .abc ∨ InputKind.ofPath? file = some .swf
  read : fs.read file = .error fault

variable {s : Shell} {fs : Files} {file : String} {files : List String} {buffers : List Buffer} {notes : List String}

/-- Every input contributes or cannot be read. -/
theorem contributes_or_unreadable (fs : Files) (file : String) :
    (∃ buffers notes, Contributes fs file buffers notes) ∨ ∃ fault, Unreadable fs file fault := by
  by_cases habc : InputKind.ofPath? file = some .abc
  · cases hread : fs.read file with
    | ok bytes => exact .inl ⟨_, _, .module habc hread⟩
    | error fault => exact .inr ⟨fault, .inl habc, hread⟩
  by_cases hswf : InputKind.ofPath? file = some .swf
  · cases hread : fs.read file with
    | error fault => exact .inr ⟨fault, .inr hswf, hread⟩
    | ok bytes =>
      cases hload : (({} : Loader).load bytes).result with
      | error fault => exact .inl ⟨_, _, .broken hswf hread hload⟩
      | ok _ =>
        obtain ⟨m, -, -, -, hfile, -, -⟩ := Loader.load_opens_whole hload
        exact .inl ⟨_, _, .movie hswf hread hload hfile⟩
  · exact .inl ⟨[], [], .other habc hswf⟩

theorem Contributes.readable (h : Contributes fs file buffers notes) (fault : FileFault) :
    ¬ Unreadable fs file fault := by
  rintro ⟨hkind, hfault⟩
  cases h with
  | module _ hread => cases hread.symm.trans hfault
  | movie _ hread => cases hread.symm.trans hfault
  | broken _ hread => cases hread.symm.trans hfault
  | other habc hswf => exact hkind.elim habc hswf

theorem Gathers.readable (h : Gathers fs files buffers notes) :
    ∀ file ∈ files, ∀ fault, ¬ Unreadable fs file fault := by
  induction h with
  | nil => exact fun _ hfile => absurd hfile List.not_mem_nil
  | cons hfirst _ ih => exact List.forall_mem_cons.2 ⟨hfirst.readable, ih⟩

/-- Either all inputs are read, or there is a first one that is not. -/
theorem gathers_or_unreadable (fs : Files) (files : List String) :
    (∃ buffers notes, Gathers fs files buffers notes) ∨
      ∃ before file after fault buffers notes, files = before ++ file :: after ∧ Gathers fs before buffers notes ∧
        Unreadable fs file fault := by
  induction files with
  | nil => exact .inl ⟨[], [], .nil⟩
  | cons file files ih =>
    obtain ⟨first, noted, hfirst⟩ | ⟨fault, hfault⟩ := contributes_or_unreadable fs file
    · obtain ⟨buffers, notes, hrest⟩ | ⟨before, file', after, fault, buffers, notes, rfl, hrest, hfault⟩ := ih
      · exact .inl ⟨_, _, .cons hfirst hrest⟩
      · exact .inr ⟨file :: before, file', after, fault, _, _, rfl, .cons hfirst hrest, hfault⟩
    · exact .inr ⟨[], file, files, fault, [], [], rfl, .nil, hfault⟩

/-! ## Reading -/

namespace Run

theorem readFile_of_ok {bytes : List UInt8} (h : fs.read file = .ok bytes) : Analysis.readFile fs file = .ok bytes := by
  rw [Analysis.readFile, h]

theorem readFile_of_error {fault : FileFault} (h : fs.read file = .error fault) :
    Analysis.readFile fs file = .error (.unreadable file fault) := by
  rw [Analysis.readFile, h]

theorem settle_ok (x : α) : (settle (.ok x) : ShellRun α) = pure x := rfl

theorem settle_error (e : ShellError) : (settle (.error e) : ShellRun α) = throw (some e) := rfl

theorem buffers_of_module (hkind : InputKind.ofPath? file = some .abc) {bytes : List UInt8}
    (hread : s.fileSystem.read file = .ok bytes) : Run.buffers file s = .ok [(file, bytes)] s := by
  simp only [Run.buffers, hkind, EStateM.bind_apply, EStateM.get_apply, readFile_of_ok hread, settle_ok,
    EStateM.pure_apply]

theorem buffers_of_movie (hkind : InputKind.ofPath? file = some .swf) {bytes : List UInt8}
    (hread : s.fileSystem.read file = .ok bytes) :
    Run.buffers file s =
      .ok (((extract s.console bytes).1.getD []).zipIdx.map fun (block, i) => (s!"{file}#{i}", block))
        { s with console := (extract s.console bytes).2 } := by
  simp only [Run.buffers, hkind, EStateM.bind_apply, EStateM.get_apply, readFile_of_ok hread, settle_ok,
    EStateM.pure_apply]
  rfl

/-- Reading an input gives what it contributes, and writes the lines that it leaves. -/
theorem buffers_of_contributes (h : Contributes s.fileSystem file buffers notes) :
    Run.buffers file s = .ok buffers { s with console := s.console.redLines notes } := by
  cases h with
  | module hkind hread => exact buffers_of_module hkind hread
  | movie hkind hread hload hfile =>
    rw [buffers_of_movie hkind hread, extract_of_ok hload hfile, Option.getD_some, List.zipIdx_map, List.map_map]
    rfl
  | broken hkind hread hload =>
    rw [buffers_of_movie hkind hread, extract_of_error hload]
    rfl
  | other habc hswf =>
    unfold Run.buffers
    cases hkind : InputKind.ofPath? file with
    | none => rfl
    | some kind =>
      cases kind with
      | abc => exact absurd hkind habc
      | swf => exact absurd hkind hswf
      | script => rfl

theorem buffers_of_unreadable {fault : FileFault} (h : Unreadable s.fileSystem file fault) :
    Run.buffers file s = .error (some (.unreadable file fault)) s := by
  obtain ⟨hkind | hkind, hread⟩ := h
  all_goals
    simp only [Run.buffers, hkind, EStateM.bind_apply, EStateM.get_apply, readFile_of_error hread, settle_error,
      EStateM.throw_apply]

/-- Inputs that are read leave their lines on the console, one after the other. -/
theorem mapM_buffers (h : Gathers s.fileSystem files buffers notes) :
    ∃ found, files.mapM Run.buffers s = .ok found { s with console := s.console.redLines notes } ∧
      found.flatten = buffers := by
  generalize hfs : s.fileSystem = fs at h
  induction h generalizing s with
  | nil =>
    subst hfs
    exact ⟨[], rfl, rfl⟩
  | @cons file files first buffers noted notes hfirst hrest ih =>
    have hread := buffers_of_contributes (hfs ▸ hfirst)
    obtain ⟨found, hfound, hflatten⟩ := ih (s := { s with console := s.console.redLines noted }) hfs
    refine ⟨first :: found, ?_, congrArg (first ++ ·) hflatten⟩
    rw [List.mapM_cons, EStateM.bind_of_ok hread, EStateM.bind_of_ok hfound, Console.redLines, Console.redLines,
      Console.redLines, List.foldl_append]
    rfl

/-- Reading ends at the first input that cannot be read. -/
theorem mapM_buffers_unreadable {before : List String} {fault : FileFault}
    (h : Gathers s.fileSystem before buffers notes) (hfault : Unreadable s.fileSystem file fault)
    (after : List String) :
    (before ++ file :: after).mapM Run.buffers s =
      .error (some (.unreadable file fault)) { s with console := s.console.redLines notes } := by
  obtain ⟨found, hfound, -⟩ := mapM_buffers h
  rw [List.mapM_append, EStateM.bind_of_ok hfound, List.mapM_cons, EStateM.bind_apply, EStateM.bind_apply,
    buffers_of_unreadable (s := { s with console := s.console.redLines notes }) hfault]

/-! ## Decoding -/

/-- Decodes some buffers, up to the first that is no module. -/
def decodeAll (buffers : List Buffer) : Except ShellError Unit :=
  buffers.forM fun (label, bytes) =>
    match Module.decode bytes label with
    | .ok _ => .ok ()
    | .error cause => .error (.unparsable label (.module cause))

theorem decodeAll_eq_ok : decodeAll buffers = .ok () ↔ ∀ b ∈ buffers, b.Decodes := by
  rw [decodeAll, Except.forM_eq_ok]
  refine forall₂_congr fun b _ => ?_
  obtain ⟨label, bytes⟩ := b
  cases hdecode : Module.decode bytes label with
  | ok m => exact iff_of_true (by simp [hdecode]) ⟨m, hdecode⟩
  | error cause =>
    refine iff_of_false (by simp [hdecode]) ?_
    rintro ⟨m, hm⟩
    cases hdecode.symm.trans hm

/-- The first buffer that is no module is the one that decoding fails with. -/
theorem decodeAll_eq_error {before after : List Buffer} {label : String} {bytes : List UInt8} {cause : ModuleError}
    (hbefore : ∀ b ∈ before, b.Decodes) (hcause : Module.decode bytes label = .error cause) :
    decodeAll (before ++ (label, bytes) :: after) = .error (.unparsable label (.module cause)) := by
  have hpassed := decodeAll_eq_ok.2 hbefore
  unfold decodeAll at hpassed ⊢
  rw [List.forM_eq_forM] at hpassed ⊢
  rw [List.forM_append, hpassed, List.forM_cons]
  simp only [hcause]
  rfl

/-- Either all buffers are modules, or there is a first one that is not. -/
theorem decodes_or_fails (buffers : List Buffer) :
    (∀ b ∈ buffers, b.Decodes) ∨ ∃ (before after : List Buffer) (label : String) (bytes : List UInt8)
      (cause : ModuleError), buffers = before ++ (label, bytes) :: after ∧ (∀ b ∈ before, b.Decodes) ∧
        Module.decode bytes label = .error cause := by
  induction buffers with
  | nil => exact .inl fun _ hb => absurd hb List.not_mem_nil
  | cons b buffers ih =>
    obtain ⟨label, bytes⟩ := b
    cases hdecode : Module.decode bytes label with
    | error cause => exact .inr ⟨[], buffers, label, bytes, cause, rfl, fun _ hb => absurd hb List.not_mem_nil, hdecode⟩
    | ok m =>
      have hfirst : Buffer.Decodes (label, bytes) := ⟨m, hdecode⟩
      obtain hall | ⟨before, after, label', bytes', cause, rfl, hbefore, hcause⟩ := ih
      · exact .inl (List.forall_mem_cons.2 ⟨hfirst, hall⟩)
      · exact .inr ⟨(label, bytes) :: before, after, label', bytes', cause, rfl,
          List.forall_mem_cons.2 ⟨hfirst, hbefore⟩, hcause⟩

/-- Once all inputs are read, the section of the timeline is closed, whatever decoding comes to. -/
theorem compile_of_gathers (h : Gathers s.fileSystem s.files buffers notes) :
    compile s = (settle (decodeAll buffers) >>= fun _ => do
      if (← get).options.has .verbose then write (·.writeLine s!"Loading {buffers.length} ABCs")
      let timeline := (← get).timeline
      write timeline.trace : ShellRun Unit)
      { s with console := s.console.redLines notes, timeline := s.timeline.time "Parse" s.stopwatch } := by
  obtain ⟨found, hfound, rfl⟩ := mapM_buffers h
  simp only [compile]
  rw [EStateM.bind_of_ok (EStateM.get_apply s), EStateM.bind_of_ok hfound]
  rfl

end Run

/-! ## How a compilation ends -/

/-- How a compilation ends, and the shell that it leaves. -/
inductive Compiles (s : Shell) : Except ShellError Unit → Shell → Prop where
  /-- All inputs are read and every buffer is a module. -/
  | done {buffers : List Buffer} {notes : List String} {timeline : Timeline} {console : Console}
    (hgathers : Gathers s.fileSystem s.files buffers notes) (hdecodes : ∀ b ∈ buffers, b.Decodes)
    (htimeline : timeline = s.timeline.time "Parse" s.stopwatch)
    (hconsole : console =
      if s.options.has .verbose then (s.console.redLines notes).writeLine s!"Loading {buffers.length} ABCs"
      else s.console.redLines notes) :
    Compiles s (.ok ()) { s with timeline, console := timeline.trace console }
  /-- All inputs are read and some buffer is no module; the first of them is named. -/
  | unparsable {before after : List Buffer} {label : String} {bytes : List UInt8} {cause : ModuleError}
    {notes : List String} (hgathers : Gathers s.fileSystem s.files (before ++ (label, bytes) :: after) notes)
    (hbefore : ∀ b ∈ before, b.Decodes) (hcause : Module.decode bytes label = .error cause) :
    Compiles s (.error (.unparsable label (.module cause)))
      { s with timeline := s.timeline.time "Parse" s.stopwatch, console := s.console.redLines notes }
  /-- Some input cannot be read; the first of them is named, and no buffer is decoded. -/
  | unreadable {before after : List String} {file : String} {fault : FileFault} {buffers : List Buffer}
    {notes : List String} (hfiles : s.files = before ++ file :: after)
    (hgathers : Gathers s.fileSystem before buffers notes) (hfault : Unreadable s.fileSystem file fault) :
    Compiles s (.error (.unreadable file fault)) { s with console := s.console.redLines notes }

/-- The result of an action that never runs out of fuel. -/
def ended (result : Except ShellError Unit) (left : Shell) : EStateM.Result (Option ShellError) Shell Unit :=
  match result with
  | .ok () => .ok () left
  | .error e => .error (some e) left

theorem Compiles.compile_eq {result : Except ShellError Unit} {left : Shell} (h : s.Compiles result left) :
    Run.compile s = ended result left := by
  cases h with
  | done hgathers hdecodes htimeline hconsole =>
    subst htimeline hconsole
    rw [Run.compile_of_gathers hgathers, Run.decodeAll_eq_ok.2 hdecodes]
    simp only [Run.settle_ok, EStateM.bind_apply, EStateM.pure_apply, EStateM.get_apply]
    split <;> rfl
  | unparsable hgathers hbefore hcause =>
    rw [Run.compile_of_gathers hgathers, Run.decodeAll_eq_error hbefore hcause]
    rfl
  | @unreadable before after _ _ _ _ hfiles hgathers hfault =>
    have hread := Run.mapM_buffers_unreadable hgathers hfault after
    rw [← hfiles] at hread
    rw [Run.compile, EStateM.bind_of_ok (EStateM.get_apply s), EStateM.bind_apply, hread]
    rfl

theorem exists_compiles (s : Shell) : ∃ result left, s.Compiles result left := by
  obtain ⟨buffers, notes, hgathers⟩ | ⟨before, file, after, fault, buffers, notes, hfiles, hgathers, hfault⟩ :=
    gathers_or_unreadable s.fileSystem s.files
  · obtain hdecodes | ⟨before, after, label, bytes, cause, rfl, hbefore, hcause⟩ := Run.decodes_or_fails buffers
    · exact ⟨_, _, .done hgathers hdecodes rfl rfl⟩
    · exact ⟨_, _, .unparsable hgathers hbefore hcause⟩
  · exact ⟨_, _, .unreadable hfiles hgathers hfault⟩

theorem ended_injective {result result' : Except ShellError Unit} {left left' : Shell}
    (h : ended result left = ended result' left') : result = result' ∧ left = left' := by
  cases result <;> cases result' <;> cases h <;> exact ⟨rfl, rfl⟩

theorem compile_eq_ended {result : Except ShellError Unit} {left : Shell} :
    Run.compile s = ended result left ↔ s.Compiles result left := by
  constructor
  · intro h
    obtain ⟨result', left', hcompiles⟩ := exists_compiles s
    obtain ⟨rfl, rfl⟩ := ended_injective (h.symm.trans hcompiles.compile_eq)
    exact hcompiles
  · exact Compiles.compile_eq

/-- A compilation passes if all of its inputs can be read and all of its buffers are modules, and only then. -/
theorem compile_passes_iff : (∃ left, s.Compiles (.ok ()) left) ↔
    (∀ file ∈ s.files, ∀ fault, ¬ Unreadable s.fileSystem file fault) ∧
      ∀ buffers notes, Gathers s.fileSystem s.files buffers notes → ∀ b ∈ buffers, b.Decodes := by
  constructor
  · rintro ⟨left, hpasses⟩
    cases hpasses with
    | done hgathers hdecodes htimeline hconsole =>
      refine ⟨hgathers.readable, fun buffers notes hgathers' => ?_⟩
      -- Other buffers would have failed the compilation, which has only one result.
      obtain hdecodes' | ⟨before, after, label, bytes, cause, rfl, hbefore, hcause⟩ := Run.decodes_or_fails buffers
      · exact hdecodes'
      · have hfails := (Compiles.unparsable hgathers' hbefore hcause).compile_eq
        cases (hfails.symm.trans (Compiles.done hgathers hdecodes htimeline hconsole).compile_eq)
  · rintro ⟨hreadable, hdecodes⟩
    obtain ⟨buffers, notes, hgathers⟩ | ⟨before, file, after, fault, -, -, hfiles, -, hfault⟩ :=
      gathers_or_unreadable s.fileSystem s.files
    · exact ⟨_, .done hgathers (hdecodes _ _ hgathers) rfl rfl⟩
    · have hfile : file ∈ s.files := hfiles ▸ List.mem_append_right _ List.mem_cons_self
      exact absurd hfault (hreadable file hfile fault)

/-- How many times a compilation decodes its buffers: not at all if an input cannot be read. -/
def decodings : Except ShellError Unit → Nat
  | .error (.unreadable _ _) => 0
  | _ => 1

theorem opened_time (t : Timeline) (name : String) (time : Double) : (t.time name time).opened = t.opened := by
  simp [Timeline.time, Timeline.enter, Timeline.leave]

/-- The section of decoding is closed when it was opened. -/
theorem Compiles.timeline {result : Except ShellError Unit} {left : Shell} (h : s.Compiles result left) :
    left.timeline.opened = s.timeline.opened ∧ (s.timeline.sections.Ordered →
      left.timeline.closed "Parse" = s.timeline.closed "Parse" + decodings result) := by
  have htimed : (s.timeline.time "Parse" s.stopwatch).opened = s.timeline.opened ∧ (s.timeline.sections.Ordered →
      (s.timeline.time "Parse" s.stopwatch).closed "Parse" = s.timeline.closed "Parse" + 1) :=
    ⟨opened_time .., fun hordered => Timeline.closed_time hordered ..⟩
  cases h with
  | done _ _ htimeline _ => exact htimeline ▸ htimed
  | unparsable => exact htimed
  | unreadable => exact ⟨rfl, fun _ => rfl⟩

/-- A compilation ends as its inputs tell, always. It passes if and only if all of them can be read and all that they
contribute is decoded; otherwise the first input that cannot be read ends it, before any buffer is decoded, or else the
first buffer that is no module. The section of decoding is closed in either case. -/
theorem compilation_is_exact (s : Shell) :
    (∃ result left, Run.compile s = ended result left) ∧
      (∀ result left, Run.compile s = ended result left ↔ s.Compiles result left) ∧
      ((∃ left, Run.compile s = .ok () left) ↔
        (∀ file ∈ s.files, ∀ fault, ¬ Unreadable s.fileSystem file fault) ∧
          ∀ buffers notes, Gathers s.fileSystem s.files buffers notes → ∀ b ∈ buffers, b.Decodes) ∧
      ∀ result left, Run.compile s = ended result left →
        left.timeline.opened = s.timeline.opened ∧ (s.timeline.sections.Ordered →
          left.timeline.closed "Parse" = s.timeline.closed "Parse" + decodings result) := by
  refine ⟨?_, fun _ _ => compile_eq_ended, ?_, fun _ _ h => (compile_eq_ended.1 h).timeline⟩
  · obtain ⟨result, left, hcompiles⟩ := exists_compiles s
    exact ⟨result, left, hcompiles.compile_eq⟩
  · rw [← compile_passes_iff]
    exact exists_congr fun left => @compile_eq_ended s (.ok ()) left

/-- A movie that does not load, a module that cannot be decoded, and a file that is not there. -/
def mixedInputs : Shell where
  options := {}
  files := ["broken.swf", "bad.abc", "missing.abc"]
  fileSystem := { entries := [(["broken.swf"], .file [1]), (["bad.abc"], .file [0])] }

theorem compilation_is_exact_mixedInputs :
    ∃ note left, Run.compile mixedInputs = .error (some (.unreadable "missing.abc" .notFound)) left ∧
      left.console = mixedInputs.console.redLines [note] ∧ left.timeline.opened = [] := by
  have hbroken : ∃ note, Contributes mixedInputs.fileSystem "broken.swf" [] [note] := by
    cases hload : (({} : Loader).load [1]).result with
    | ok _ =>
      have hfails : (({} : Loader).load [1]).result.isOk = false := by decide +kernel
      rw [hload] at hfails
      cases hfails
    | error fault => exact ⟨_, .broken (by decide +kernel) (by decide +kernel) hload⟩
  obtain ⟨note, hbroken⟩ := hbroken
  have hbad : Contributes mixedInputs.fileSystem "bad.abc" [("bad.abc", [0])] [] :=
    .module (by decide +kernel) (by decide +kernel)
  have hmissing : Unreadable mixedInputs.fileSystem "missing.abc" .notFound :=
    ⟨.inl (by decide +kernel), by decide +kernel⟩
  have hcompiles : mixedInputs.Compiles (.error (.unreadable "missing.abc" .notFound)) _ :=
    .unreadable rfl (.cons hbroken (.cons hbad .nil)) hmissing
  obtain ⟨-, hexact, -, hclosed⟩ := compilation_is_exact mixedInputs
  have hended := (hexact _ _).2 hcompiles
  exact ⟨note, _, hended, rfl, (hclosed _ _ hended).1⟩

end MovieVm.Shell
