import Mathlib.Data.List.Basic
import Mathlib.Data.String.Basic
import MovieVm.Proofs.ConsistentFiles
import MovieVm.Proofs.Tallies

/-!
# Analysis under a filter

A movie is visited tag by tag, and each tag of a module brings the module that came in it, whether the filter keeps
the tag or not. So a filter drops tags together with their own modules: what is left is analysed as if nothing had
been dropped.
-/

namespace MovieVm

/-! ## Filters -/

namespace Movie.Tag

/-- An empty list of names keeps every tag. Another one keeps the tags whose name is in it, as it is or behind
`CODE_`. -/
def Keeps (filters : List String) (t : Tag) : Prop :=
  filters = [] ∨ ∃ known, (t.code, known) ∈ names ∧ (known ∈ filters ∨ "CODE_" ++ known ∈ filters)

/-- A tag has one name, and a name one tag. -/
theorem names_injective : ∀ a ∈ names, ∀ b ∈ names, a.2 = b.2 → a = b := by
  decide +kernel

/-- No name could be taken for another one with `CODE_` in front. -/
theorem names_bare : ∀ entry ∈ names, ¬ ['C', 'O', 'D', 'E', '_'] <+: entry.2.toList := by
  decide +kernel

theorem find?_names {known : String} {t : Tag} :
    (names.find? (·.2 = known)).map (fun entry => (⟨entry.1⟩ : Tag)) = some t ↔ (t.code, known) ∈ names := by
  constructor
  · intro h
    obtain ⟨entry, hfind, rfl⟩ := Option.map_eq_some_iff.1 h
    have hname : entry.2 = known := by simpa using List.find?_some hfind
    exact hname ▸ List.mem_of_find?_eq_some hfind
  · intro hmem
    cases hfind : names.find? (·.2 = known) with
    | none =>
      have hnot := List.find?_eq_none.1 hfind _ hmem
      simp at hnot
    | some entry =>
      have hname : entry.2 = known := by simpa using List.find?_some hfind
      rw [names_injective entry (List.mem_of_find?_eq_some hfind) _ hmem hname]
      rfl

theorem ofName?_eq_some {name : String} {t : Tag} :
    ofName? name = some t ↔ ∃ known, (t.code, known) ∈ names ∧ (name = known ∨ name = "CODE_" ++ known) := by
  unfold ofName?
  split
  · rename_i rest hname
    have hprefixed : name = "CODE_" ++ String.ofList rest := by
      rw [← String.toList_inj]
      simp [hname]
    rw [find?_names]
    constructor
    · exact fun hmem => ⟨_, hmem, .inr hprefixed⟩
    · rintro ⟨known, hmem, rfl | heq⟩
      · exact absurd ⟨rest, by simp [hname]⟩ (names_bare _ hmem)
      · -- Only one `CODE_` is taken off, and then the rest is the name.
        rw [hprefixed] at heq
        rwa [(String.append_right_inj _).1 heq]
  · rename_i hplain
    rw [find?_names]
    constructor
    · exact fun hmem => ⟨_, hmem, .inl rfl⟩
    · rintro ⟨known, hmem, rfl | rfl⟩
      · exact hmem
      · -- A name with `CODE_` in front would have been taken apart.
        exact absurd (by simp) (hplain known.toList)

theorem isKept_iff {t : Tag} {filters : List String} : t.isKept filters = true ↔ t.Keeps filters := by
  simp only [isKept, Keeps, Bool.or_eq_true, List.isEmpty_iff, List.any_eq_true, decide_eq_true_eq, ofName?_eq_some]
  constructor
  · rintro (hempty | ⟨name, hname, known, hmem, rfl | rfl⟩)
    · exact .inl hempty
    · exact .inr ⟨_, hmem, .inl hname⟩
    · exact .inr ⟨_, hmem, .inr hname⟩
  · rintro (hempty | ⟨known, hmem, hplain | hprefixed⟩)
    · exact .inl hempty
    · exact .inr ⟨_, hplain, known, hmem, .inl rfl⟩
    · exact .inr ⟨_, hprefixed, known, hmem, .inr rfl⟩

instance (filters : List String) (t : Tag) : Decidable (t.Keeps filters) :=
  decidable_of_iff _ isKept_iff

end Movie.Tag

/-! ## Blocks of records -/

namespace Movie

/-- A text before the first zero byte is the same, however it is written down. -/
theorem text_unique {text text' rest rest' : List UInt8} (h : 0 ∉ text) (h' : 0 ∉ text')
    (heq : text ++ 0 :: rest = text' ++ 0 :: rest') : text = text' ∧ rest = rest' := by
  induction text generalizing text' with
  | nil =>
    cases text' with
    | nil => exact ⟨rfl, (List.cons.inj heq).2⟩
    | cons b text' => exact absurd (List.mem_cons_self (l := text')) ((List.cons.inj heq).1 ▸ h')
  | cons b text ih =>
    cases text' with
    | nil => exact absurd (List.mem_cons_self (l := text)) ((List.cons.inj heq).1 ▸ h)
    | cons b' text' =>
      obtain ⟨hb, hrest⟩ := List.cons.inj heq
      obtain ⟨htext, hrest⟩ := ih (List.not_mem_of_not_mem_cons h) (List.not_mem_of_not_mem_cons h') hrest
      exact ⟨by rw [hb, htext], hrest⟩

/-- The data of a block are what its tag says. -/
theorem File.RawTag.Yields.data_unique {raw : RawTag} {b b' : AbcBlock} (h : raw.Yields b) (h' : raw.Yields b') :
    b.data = b'.data := by
  cases h with
  | bare => cases h' with
    | bare => rfl
  | @named _ flags name data _ hflags hname =>
    generalize hbody : flags ++ name ++ 0 :: data = body at h'
    cases h' with
    | @named _ flags' name' data' _ hflags' hname' =>
      rw [List.append_assoc, List.append_assoc] at hbody
      have hbehind := (List.append_inj hbody (hflags.trans hflags'.symm)).2
      exact (text_unique hname hname' hbehind).2
    | @cut _ flags' name' _ hflags' hname' =>
      rw [List.append_assoc] at hbody
      have hbehind := (List.append_inj hbody (hflags.trans hflags'.symm)).2
      exact absurd (hbehind ▸ by simp) hname'
  | @cut _ flags name _ hflags hname =>
    generalize hbody : flags ++ name = body at h'
    cases h' with
    | @named _ flags' name' data' _ hflags' hname' =>
      rw [List.append_assoc] at hbody
      have hbehind := (List.append_inj hbody (hflags.trans hflags'.symm)).2
      exact absurd (hbehind ▸ by simp) hname
    | cut => rfl

theorem File.Produces.data_unique {content : List UInt8} {r : TagRecord} {b b' : AbcBlock} (h : Produces content r b)
    (h' : Produces content r b') : b.data = b'.data := by
  obtain @⟨offset, raw, rest, _, hsplit, hyields⟩ := h
  generalize hrecord : (⟨raw.tag, offset, raw.body.length⟩ : TagRecord) = r at h'
  obtain @⟨offset', raw', rest', _, hsplit', hyields'⟩ := h'
  obtain rfl : offset = offset' := congrArg TagRecord.offset hrecord
  obtain ⟨rfl, -⟩ := Prod.mk.inj (Option.some.inj (hsplit.symm.trans hsplit'))
  exact hyields.data_unique hyields'

/-- Only the tags of modules yield blocks. -/
theorem File.Produces.isAbc {content : List UInt8} {r : TagRecord} {b : AbcBlock} (h : Produces content r b) :
    r.tag.isAbc = true := by
  obtain ⟨_, hyields⟩ := h
  cases hyields <;> rfl

end Movie

/-! ## Visits -/

namespace Shell.Analysis

open Bytecode Movie

/-- The module of a block is read. -/
def Decodes (b : AbcBlock) : Prop :=
  ∃ m, Module.decode b.data moduleLabel = .ok m

theorem checkModule_eq_ok {path : String} {b : AbcBlock} : checkModule path b.data = .ok () ↔ Decodes b := by
  unfold checkModule Decodes
  cases Module.decode b.data moduleLabel <;> simp

/-- The blocks of the tags that the filter keeps, if blocks matter at all. -/
def wanted (o : AnalysisOptions) (entries : List (Tag × Option AbcBlock)) : List AbcBlock :=
  if o.forDatabase then []
  else entries.filterMap fun (tag, block) => if tag.isKept o.filters then block else none

/-- The blocks up to the first that does not decode, and that one. -/
def attempted : List AbcBlock → List AbcBlock
  | [] => []
  | b :: rest =>
    match Module.decode b.data moduleLabel with
    | .ok _ => b :: attempted rest
    | .error _ => [b]

theorem attempted_cons_of_decodes {b : AbcBlock} (h : Decodes b) (rest : List AbcBlock) :
    attempted (b :: rest) = b :: attempted rest := by
  obtain ⟨m, hm⟩ := h
  rw [attempted, hm]

theorem attempted_cons_of_not_decodes {b : AbcBlock} (h : ¬ Decodes b) (rest : List AbcBlock) :
    attempted (b :: rest) = [b] := by
  rw [attempted]
  cases hm : Module.decode b.data moduleLabel with
  | ok m => exact absurd ⟨m, hm⟩ h
  | error cause => rfl

variable {o : AnalysisOptions} {path : String} {time : Double} {f g : Findings} {r : Except ShellError Unit}
  {tag : Tag} {block : Option AbcBlock} {b : AbcBlock} {entries : List (Tag × Option AbcBlock)}

/-- A tag that is counted. -/
def Findings.counted (f : Findings) (tag : Tag) (time : Double) : Findings :=
  { f with counter := f.counter.count tag.name 1 time }

/-- A module that is decoded, or is tried to. -/
def Findings.parsed (f : Findings) (time : Double) : Findings :=
  { f with timeline := f.timeline.time "Parse ABC" time }

theorem visit_of_dropped (h : tag.isKept o.filters = false) : visit o path time f (tag, block) = (f, .ok ()) := by
  simp [visit, h]

theorem visit_of_bare (h : tag.isKept o.filters = true) (hbare : block = none ∨ o.forDatabase = true) :
    visit o path time f (tag, block) = (f.counted tag time, .ok ()) := by
  obtain rfl | hdatabase := hbare
  · simp [visit, h, Findings.counted]
  · cases block <;> simp [visit, h, hdatabase, Findings.counted]

theorem visit_of_decodes (h : tag.isKept o.filters = true) (hmodules : o.forDatabase = false) (hb : Decodes b) :
    visit o path time f (tag, some b) = ((f.parsed time).counted tag time, .ok ()) := by
  simp [visit, h, hmodules, checkModule_eq_ok.2 hb, Findings.counted, Findings.parsed]

theorem visit_of_not_decodes (h : tag.isKept o.filters = true) (hmodules : o.forDatabase = false) (hb : ¬ Decodes b) :
    ∃ e, visit o path time f (tag, some b) = (f.parsed time, .error e) := by
  cases hcheck : checkModule path b.data with
  | ok _ => exact absurd (checkModule_eq_ok.1 hcheck) hb
  | error e => exact ⟨e, by simp [visit, h, hmodules, hcheck, Findings.parsed]⟩

/-- The ledgers of what is found are in order. -/
structure Findings.Ordered (f : Findings) : Prop where
  sections : f.timeline.sections.Ordered
  counter : Ledger.Ordered f.counter

theorem Findings.Ordered.counted (h : f.Ordered) (tag : Tag) (time : Double) : (f.counted tag time).Ordered :=
  ⟨h.sections, h.counter.update⟩

theorem Findings.Ordered.parsed (h : f.Ordered) (time : Double) : (f.parsed time).Ordered where
  sections := by
    rw [Findings.parsed, Timeline.time_sections]
    exact h.sections.update
  counter := h.counter

/-- What comes of visiting tags: the blocks that were tried, the outcome, and the counts. -/
structure Visited (o : AnalysisOptions) (entries : List (Tag × Option AbcBlock)) (f g : Findings)
    (r : Except ShellError Unit) : Prop where
  tried : g.timeline.closed "Parse ABC" = f.timeline.closed "Parse ABC" + (attempted (wanted o entries)).length
  succeeds : r = .ok () ↔ ∀ b ∈ wanted o entries, Decodes b
  counts : r = .ok () → ∀ name, g.counter.get name =
    f.counter.get name + entries.countP fun entry => entry.1.isKept o.filters && entry.1.name = name

theorem wanted_cons_of_kept (h : tag.isKept o.filters = true) (hmodules : o.forDatabase = false) (b : AbcBlock)
    (entries : List (Tag × Option AbcBlock)) : wanted o ((tag, some b) :: entries) = b :: wanted o entries := by
  simp [wanted, h, hmodules]

theorem wanted_cons_of_not (h : tag.isKept o.filters = false ∨ block = none ∨ o.forDatabase = true)
    (entries : List (Tag × Option AbcBlock)) : wanted o ((tag, block) :: entries) = wanted o entries := by
  unfold wanted
  rcases h with hdropped | rfl | hdatabase
  · simp [hdropped]
  · simp
  · simp [hdatabase]

theorem Findings.get_counted (h : f.Ordered) (hkept : tag.isKept o.filters = true) (time : Double) (name : String)
    (entries : List (Tag × Option AbcBlock)) :
    (f.counted tag time).counter.get name +
        entries.countP (fun entry => entry.1.isKept o.filters && entry.1.name = name) =
      f.counter.get name +
        ((tag, block) :: entries).countP (fun entry => entry.1.isKept o.filters && entry.1.name = name) := by
  rw [Findings.counted, Counter.get_count h.counter, List.countP_cons, Nat.add_assoc, Nat.add_comm (ite ..)]
  simp [hkept, eq_comm]

theorem Visited.of_dropped (h : Visited o entries f g r) (hdropped : tag.isKept o.filters = false) :
    Visited o ((tag, block) :: entries) f g r := by
  have hskipped : wanted o ((tag, block) :: entries) = wanted o entries := wanted_cons_of_not (.inl hdropped) entries
  obtain ⟨htried, hsucceeds, hcounts⟩ := h
  rw [← hskipped] at htried hsucceeds
  exact ⟨htried, hsucceeds, fun hok name => (hcounts hok name).trans (by simp [hdropped])⟩

theorem Visited.of_bare (hf : f.Ordered) (h : Visited o entries (f.counted tag time) g r)
    (hkept : tag.isKept o.filters = true) (hbare : block = none ∨ o.forDatabase = true) :
    Visited o ((tag, block) :: entries) f g r := by
  obtain ⟨htried, hsucceeds, hcounts⟩ := h
  rw [← wanted_cons_of_not (.inr hbare)] at htried hsucceeds
  exact ⟨htried, hsucceeds, fun hok name => (hcounts hok name).trans (f.get_counted hf hkept ..)⟩

theorem Visited.of_decodes (hf : f.Ordered) (h : Visited o entries ((f.parsed time).counted tag time) g r)
    (hkept : tag.isKept o.filters = true) (hmodules : o.forDatabase = false) (hb : Decodes b) :
    Visited o ((tag, some b) :: entries) f g r := by
  have hparsed : (f.parsed time).timeline.closed "Parse ABC" = f.timeline.closed "Parse ABC" + 1 :=
    Timeline.closed_time hf.sections ..
  obtain ⟨htried, hsucceeds, hcounts⟩ := h
  refine ⟨?_, ?_, fun hok name => (hcounts hok name).trans ((f.parsed time).get_counted (hf.parsed time) hkept ..)⟩
  · rw [wanted_cons_of_kept hkept hmodules, attempted_cons_of_decodes hb, List.length_cons, htried]
    change (f.parsed time).timeline.closed "Parse ABC" + _ = _
    omega
  · rw [wanted_cons_of_kept hkept hmodules, hsucceeds]
    simp [hb]

/-- A module that cannot be decoded has been tried, but its tag is not counted any more. -/
theorem Visited.of_not_decodes (hf : f.Ordered) (hkept : tag.isKept o.filters = true)
    (hmodules : o.forDatabase = false) (hb : ¬ Decodes b) (e : ShellError) :
    Visited o ((tag, some b) :: entries) f (f.parsed time) (.error e) := by
  refine ⟨?_, ?_, nofun⟩
  · rw [wanted_cons_of_kept hkept hmodules, attempted_cons_of_not_decodes hb]
    exact Timeline.closed_time hf.sections ..
  · rw [wanted_cons_of_kept hkept hmodules]
    simp [hb]

theorem visited_visitAll (hf : f.Ordered) :
    Visited o entries f (visitAll o path time f entries).1 (visitAll o path time f entries).2 := by
  -- The ledgers stay in order from entry to entry, which is what their look-ups need.
  induction entries generalizing f with
  | nil => refine ⟨?_, ?_, fun _ name => rfl⟩ <;> simp [visitAll, wanted, attempted]
  | cons entry entries ih =>
    obtain ⟨tag, block⟩ := entry
    rw [visitAll]
    cases hkept : tag.isKept o.filters with
    | false =>
      rw [visit_of_dropped hkept]
      exact (ih hf).of_dropped hkept
    | true =>
      by_cases hbare : block = none ∨ o.forDatabase = true
      · rw [visit_of_bare hkept hbare]
        exact .of_bare hf (ih (hf.counted tag time)) hkept hbare
      · obtain ⟨hblock, hmodules⟩ := not_or.1 hbare
        obtain ⟨b, rfl⟩ := Option.ne_none_iff_exists'.1 hblock
        have hmodules : o.forDatabase = false := by simpa using hmodules
        by_cases hb : Decodes b
        · rw [visit_of_decodes hkept hmodules hb]
          exact .of_decodes hf (ih ((hf.parsed time).counted tag time)) hkept hmodules hb
        · obtain ⟨e, hvisit⟩ : ∃ e, visit o path time f (tag, some b) = (f.parsed time, .error e) :=
            visit_of_not_decodes hkept hmodules hb
          rw [hvisit]
          exact .of_not_decodes hf hkept hmodules hb e

/-- Tags that the filter drops could as well not be there. -/
theorem visitAll_filter :
    visitAll o path time f (entries.filter fun entry => entry.1.isKept o.filters) =
      visitAll o path time f entries := by
  induction entries generalizing f with
  | nil => rfl
  | cons entry entries ih =>
    obtain ⟨tag, block⟩ := entry
    cases hkept : tag.isKept o.filters with
    | false =>
      rw [List.filter_cons_of_neg (by simp [hkept]), ih, visitAll, visit_of_dropped hkept]
    | true =>
      rw [List.filter_cons_of_pos (by simp [hkept]), visitAll, visitAll]
      obtain ⟨g, r⟩ := visit o path time f (tag, block)
      cases r with
      | ok _ => exact ih
      | error e => rfl

/-! ## Movies -/

/-- A file reads and loads; `content` is what its bytes unpack to. -/
structure Opens (fs : Files) (path : String) (bytes : List UInt8) (file : File) (content : List UInt8) : Prop where
  read : fs.read path = .ok bytes
  loads : (({} : Loader).load bytes).result = .ok ()
  file : (({} : Loader).load bytes).loader.file? = some file
  content : ∃ p intake body, Unpacks bytes p intake body ∧ content = contents bytes body

variable {fs : Files} {bytes content content' : List UInt8} {file file' : File}

theorem exists_opens (hread : fs.read path = .ok bytes) (hloads : (({} : Loader).load bytes).result = .ok ()) :
    ∃ file content, Opens fs path bytes file content := by
  obtain ⟨intake, file, rest, s, harrives⟩ := Loader.exists_arrives hloads
  obtain ⟨p, intake, body, first, hunpacks, -⟩ := harrives.holds.fits
  exact ⟨file, _, hread, hloads, harrives.file_load [], p, intake, body, hunpacks, rfl⟩

/-- A path opens as one file only. -/
theorem Opens.unique (h : Opens fs path bytes file content) {bytes' : List UInt8}
    (h' : Opens fs path bytes' file' content') : bytes = bytes' ∧ file = file' ∧ content = content' := by
  obtain rfl : bytes = bytes' := Except.ok.inj (h.read.symm.trans h'.read)
  obtain ⟨p, intake, body, hunpacks, rfl⟩ := h.content
  obtain ⟨p', intake', body', hunpacks', rfl⟩ := h'.content
  exact ⟨rfl, Option.some.inj (h.file.symm.trans h'.file), by rw [(hunpacks.unique hunpacks').2]⟩

theorem Opens.loadFile_eq (h : Opens fs path bytes file content) : loadFile path bytes = .ok (some file) := by
  simp only [loadFile, h.loads, h.file]

/-- The tags of a file, each with its block. -/
def paired (file : File) : List (Tag × Option AbcBlock) :=
  withBlocks file.tags.toList file.blocks.toList

theorem Opens.visits (h : Opens fs path bytes file content) :
    List.Forall₂ (Visits (File.Produces content)) file.tags.toList (paired file) := by
  obtain ⟨p, intake, body, hunpacks, hvisits⟩ := loadFile_visits h.loadFile_eq
  obtain ⟨p', intake', body', hunpacks', rfl⟩ := h.content
  rwa [(hunpacks'.unique hunpacks).2]

/-- What is found in a file before its tags are visited. -/
def start (time : Double) : Findings :=
  { timeline := ({} : Timeline).time "Load" time }

theorem ordered_start (time : Double) : (start time).Ordered :=
  ⟨List.pairwise_singleton .., .nil⟩

theorem Opens.analyseMovie_eq (h : Opens fs path bytes file content) (o : AnalysisOptions) (time : Double)
    (c : Console) :
    analyseMovie o fs path time c =
      match visitAll o path time (start time) (paired file) with
      | (f, .error e) => (c, f.timeline, .error e)
      | (f, .ok ()) => (conclude o path bytes.length time f c, f.timeline, .ok ()) := by
  simp only [analyseMovie, readFile, h.read, h.loadFile_eq]
  rfl

theorem Opens.analyseMovie_snd (h : Opens fs path bytes file content) (o : AnalysisOptions) (time : Double)
    (c : Console) :
    (analyseMovie o fs path time c).2 = ((visitAll o path time (start time) (paired file)).1.timeline,
      (visitAll o path time (start time) (paired file)).2) := by
  rw [h.analyseMovie_eq]
  obtain ⟨f, _ | _⟩ := visitAll o path time (start time) (paired file) <;> rfl

theorem opens_of_analyseMovie {c : Console} (h : (analyseMovie o fs path time c).2.2 = .ok ()) :
    ∃ bytes file content, Opens fs path bytes file content := by
  cases hread : fs.read path with
  | error fault => simp [analyseMovie, readFile, hread] at h
  | ok bytes =>
    cases hloads : (({} : Loader).load bytes).result with
    | error cause => simp [analyseMovie, readFile, hread, loadFile, hloads] at h
    | ok _ => exact ⟨bytes, exists_opens hread hloads⟩

theorem mem_wanted : b ∈ wanted o entries ↔
    o.forDatabase = false ∧ ∃ tag, (tag, some b) ∈ entries ∧ tag.isKept o.filters = true := by
  unfold wanted
  split
  · rename_i hdatabase
    simp [hdatabase]
  · rename_i hmodules
    simp [hmodules]

theorem mem_of_mem_attempted {blocks : List AbcBlock} (h : b ∈ attempted blocks) : b ∈ blocks := by
  induction blocks with
  | nil => exact h
  | cons first rest ih =>
    rw [attempted] at h
    split at h
    · exact List.mem_cons.2 ((List.mem_cons.1 h).imp_right ih)
    · exact List.mem_singleton.1 h ▸ List.mem_cons_self

section Records

variable {records : List TagRecord} {record : TagRecord}

/-- A block that is visited comes from the record that it is visited with. -/
theorem exists_record (h : List.Forall₂ (Visits (File.Produces content)) records entries)
    (hentry : (tag, some b) ∈ entries) : ∃ record ∈ records, record.tag = tag ∧ File.Produces content record b := by
  obtain ⟨i, hi, hget⟩ := List.getElem_of_mem hentry
  have hi' : i < records.length := h.length_eq ▸ hi
  have hvisits : Visits (File.Produces content) records[i] entries[i] := h.get hi' hi
  rw [hget] at hvisits
  refine ⟨records[i], List.getElem_mem hi', hvisits.tag.symm, ?_⟩
  -- A tag without modules is visited with no block, so the block is of a tag that has them.
  cases habc : records[i].tag.isAbc with
  | false => cases hvisits.bare habc
  | true =>
    obtain ⟨b', hb', hproduces⟩ := hvisits.block habc
    rwa [Option.some.inj hb']

/-- The record of a module's tag is visited with a block of its own. -/
theorem exists_visit (h : List.Forall₂ (Visits (File.Produces content)) records entries) (hrecord : record ∈ records)
    (habc : record.tag.isAbc = true) : ∃ b, (record.tag, some b) ∈ entries ∧ File.Produces content record b := by
  obtain ⟨i, hi, rfl⟩ := List.getElem_of_mem hrecord
  have hi' : i < entries.length := h.length_eq ▸ hi
  have hvisits : Visits (File.Produces content) records[i] entries[i] := h.get hi hi'
  obtain ⟨b, hb, hproduces⟩ := hvisits.block habc
  exact ⟨b, by rw [← hvisits.tag, ← hb]; exact List.getElem_mem hi', hproduces⟩

theorem wanted_decodes_iff (h : List.Forall₂ (Visits (File.Produces content)) records entries) :
    (∀ b ∈ wanted o entries, Decodes b) ↔
      (o.forDatabase = false → ∀ record ∈ records, record.tag.Keeps o.filters →
        ∀ b, File.Produces content record b → Decodes b) := by
  constructor
  · intro hdecodes hmodules record hrecord hkeeps b hproduces
    obtain ⟨b', hentry, hproduces'⟩ := exists_visit h hrecord hproduces.isAbc
    have hdecoded := hdecodes b' (mem_wanted.2 ⟨hmodules, _, hentry, Tag.isKept_iff.2 hkeeps⟩)
    rwa [Decodes, ← hproduces.data_unique hproduces'] at hdecoded
  · intro hdecodes b hb
    obtain ⟨hmodules, tag, hentry, hkept⟩ := mem_wanted.1 hb
    obtain ⟨record, hrecord, rfl, hproduces⟩ := exists_record h hentry
    exact hdecodes hmodules record hrecord (Tag.isKept_iff.1 hkept) b hproduces

theorem countP_visits (h : List.Forall₂ (Visits (File.Produces content)) records entries) (p : Tag → Bool) :
    entries.countP (fun entry => p entry.1) = records.countP fun record => p record.tag := by
  induction h with
  | nil => rfl
  | cons hvisits _ ih => rw [List.countP_cons, List.countP_cons, ih, hvisits.tag]

end Records

/-- How the tags of a file are visited, with what is found. -/
structure Honours (o : AnalysisOptions) (path : String) (time : Double) (file : File) (content : List UInt8)
    (f : Findings) (r : Except ShellError Unit) : Prop where
  /-- The tags come in their order, each tag of a module with the block that it yields. -/
  pairs : List.Forall₂ (Visits (File.Produces content)) file.tags.toList (paired file)
  visited : visitAll o path time (start time) (paired file) = (f, r)
  /-- It comes to the same as if only the tags that are kept were there. -/
  skips : visitAll o path time (start time) ((paired file).filter fun entry => entry.1.isKept o.filters) = (f, r)
  /-- As many modules are timed as are wanted, up to the first that cannot be decoded. -/
  tried : f.timeline.closed "Parse ABC" = (attempted (wanted o (paired file))).length
  /-- Each module that is tried comes from a tag that is kept. -/
  kept : ∀ b ∈ attempted (wanted o (paired file)), o.forDatabase = false ∧
    ∃ record ∈ file.tags.toList, record.tag.Keeps o.filters ∧ File.Produces content record b
  counts : r = .ok () → ∀ name, f.counter.get name = file.tags.toList.countP fun record =>
    decide (record.tag.Keeps o.filters ∧ record.tag.name = name)

theorem Opens.honours (h : Opens fs path bytes file content) (o : AnalysisOptions) (time : Double) :
    Honours o path time file content (visitAll o path time (start time) (paired file)).1
      (visitAll o path time (start time) (paired file)).2 := by
  have hvisited : Visited o (paired file) (start time) (visitAll o path time (start time) (paired file)).1
      (visitAll o path time (start time) (paired file)).2 := visited_visitAll (ordered_start time)
  refine ⟨h.visits, rfl, visitAll_filter, hvisited.tried.trans (Nat.zero_add _), fun b hb => ?_, fun hok name => ?_⟩
  · obtain ⟨hmodules, tag, hentry, hkept⟩ := mem_wanted.1 (mem_of_mem_attempted hb)
    obtain ⟨record, hrecord, rfl, hproduces⟩ := exists_record h.visits hentry
    exact ⟨hmodules, record, hrecord, Tag.isKept_iff.1 hkept, hproduces⟩
  · rw [hvisited.counts hok, countP_visits h.visits fun tag => tag.isKept o.filters && decide (tag.name = name)]
    refine (Nat.zero_add _).trans (List.countP_congr fun record _ => ?_)
    simp [Tag.isKept_iff]

theorem Opens.analyseMovie_eq_ok (h : Opens fs path bytes file content) (o : AnalysisOptions) (time : Double)
    (c : Console) : (analyseMovie o fs path time c).2.2 = .ok () ↔
      (o.forDatabase = false → ∀ record ∈ file.tags.toList, record.tag.Keeps o.filters →
        ∀ b, File.Produces content record b → Decodes b) := by
  rw [h.analyseMovie_snd, (visited_visitAll (ordered_start time)).succeeds, wanted_decodes_iff h.visits]

/-- The analysis of a movie succeeds exactly when its file reads, it loads, and each module whose own tag the filter
keeps can be decoded, unless modules do not matter. The modules under other tags are not tried, and after a success
the tags that are kept have been counted by their names, for what is then written. -/
theorem analysis_honours_filter (o : AnalysisOptions) (fs : Files) (path : String) (time : Double) (c : Console) :
    (∀ bytes, fs.read path = .ok bytes ∧ (({} : Loader).load bytes).result = .ok () ↔
        ∃ file content, Opens fs path bytes file content) ∧
      ((analyseMovie o fs path time c).2.2 = .ok () ↔
        ∃ bytes file content, Opens fs path bytes file content ∧
          (o.forDatabase = false → ∀ record ∈ file.tags.toList, record.tag.Keeps o.filters →
            ∀ b, File.Produces content record b → Decodes b)) ∧
      ∀ bytes file content, Opens fs path bytes file content →
        ∃ f r, Honours o path time file content f r ∧ (analyseMovie o fs path time c).2 = (f.timeline, r) ∧
          (r = .ok () → (analyseMovie o fs path time c).1 = conclude o path bytes.length time f c) := by
  refine ⟨fun bytes => ⟨fun h => exists_opens h.1 h.2, fun ⟨_, _, h⟩ => ⟨h.read, h.loads⟩⟩, ⟨fun hok => ?_, ?_⟩,
    fun bytes file content h => ⟨_, _, h.honours o time, h.analyseMovie_snd o time c, fun hok => ?_⟩⟩
  · obtain ⟨bytes, file, content, h⟩ := opens_of_analyseMovie hok
    exact ⟨bytes, file, content, h, (h.analyseMovie_eq_ok o time c).1 hok⟩
  · rintro ⟨bytes, file, content, h, hdecodes⟩
    exact (h.analyseMovie_eq_ok o time c).2 hdecodes
  · rw [h.analyseMovie_eq]
    generalize visitAll o path time (start time) (paired file) = run at hok ⊢
    obtain ⟨f, r⟩ := run
    obtain rfl : r = .ok () := hok
    rfl

/-- A tree with nothing but a movie, whose modules cannot be decoded. -/
def movieOnly : Files :=
  { entries := [(["m.swf"], .file Loader.twoModules)] }

/-- The first name is no tag. -/
def framesOnly : AnalysisOptions :=
  { filters := ["CODE_FRAME", "CODE_SHOW_FRAME"] }

/-- Modules that cannot be decoded do not matter where only frames are kept. -/
theorem analysis_honours_filter_framesOnly :
    ∃ file content, ∃ f : Findings, Opens movieOnly "m.swf" Loader.twoModules file content ∧
      (analyseMovie framesOnly movieOnly "m.swf" .zero {}).2 = (f.timeline, .ok ()) ∧
      f.counter.get "SHOW_FRAME" = 1 ∧ f.counter.get "DO_ABC" = 0 := by
  have hread : movieOnly.read "m.swf" = .ok Loader.twoModules := by decide +kernel
  have hloads : (({} : Loader).load Loader.twoModules).result = .ok () := by decide +kernel
  have htags : (({} : Loader).load Loader.twoModules).loader.file?.map (·.tags.toList.map (·.tag)) =
      some [.doAbcDefine, .showFrame, .doAbc, .finish] := by decide +kernel
  obtain ⟨hopens, hok, hhonours⟩ := analysis_honours_filter framesOnly movieOnly "m.swf" .zero {}
  obtain ⟨file, content, h⟩ := (hopens _).1 ⟨hread, hloads⟩
  have htags : file.tags.toList.map (·.tag) = [.doAbcDefine, .showFrame, .doAbc, .finish] := by
    simpa [h.file] using htags
  have hframes : ∀ tag ∈ [Tag.doAbcDefine, .showFrame, .doAbc, .finish],
      tag.Keeps framesOnly.filters → tag.isAbc = false := by decide +kernel
  have hsucceeds : (analyseMovie framesOnly movieOnly "m.swf" .zero {}).2.2 = .ok () := by
    refine hok.2 ⟨_, file, content, h, fun _ record hrecord hkeeps b hproduces => ?_⟩
    have hmem : record.tag ∈ file.tags.toList.map (·.tag) := List.mem_map_of_mem hrecord
    cases (hframes _ (htags ▸ hmem) hkeeps).symm.trans hproduces.isAbc
  obtain ⟨f, r, hfound, hanalysis, -⟩ := hhonours _ file content h
  obtain rfl : r = .ok () := by rw [← hsucceeds, hanalysis]
  have hcount (name : String) : f.counter.get name = (file.tags.toList.map (·.tag)).countP fun tag =>
      decide (tag.Keeps framesOnly.filters ∧ tag.name = name) := by
    rw [hfound.counts rfl, List.countP_map]
    rfl
  refine ⟨file, content, f, h, hanalysis, ?_, ?_⟩
  · rw [hcount, htags]
    decide +kernel
  · rw [hcount, htags]
    decide +kernel

end Shell.Analysis

end MovieVm
