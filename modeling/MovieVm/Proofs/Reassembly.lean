import MovieVm.Proofs.Statements
import MovieVm.Proofs.TraceText

/-!
# Disassembling and assembling again

The assembler builds the canonical form of a module from its text. While it reads the lines, its pool holds
the constants mentioned so far, its drafts become the canonical methods and definitions, and the method that
is open has the instructions and labels written so far.
-/

namespace MovieVm.Bytecode

namespace Assembly

open Text Bytecode.Module

variable {m : Module} {s : State} {seen : List Nat} {methods : List Method} {method : Method}
variable {definitions : List Definition} {written : List Instruction} {labelled : Nat → Prop}

/-! ## What has been read -/

/-- The draft of a method has the instructions that were written, and the labels that were placed. -/
structure Drafts (m : Module) (method : Method) (written : List Instruction) (labelled : Nat → Prop)
    (d : MethodDraft) : Prop where
  name : d.name = m.renumber method.name
  params : d.params = method.params
  locals : d.locals = method.locals
  size : d.code.size = written.length
  code : ∀ (final : State) (labels : List (String × Nat)), final.methodNames.toList = m.names →
    (∀ i ∈ written, ∀ t, i.target? = some t →
      labels.lookup (labelName t) = some (min t method.code.size)) →
    d.code.toList.mapM (final.resolve labels) =
      .ok (written.map (Instruction.mapOperand (m.canonicalOperand method.code.size)))
  placed : ∀ t, labelled t → d.labels.lookup (labelName t) = some (min t method.code.size)
  unplaced : ∀ t, ¬ labelled t → d.labels.lookup (labelName t) = none

/-- The tables hold what the methods and definitions that were read are in the canonical form. -/
structure Built (m : Module) (seen : List Nat) (methods : List Method) (definitions : List Definition)
    (s : State) : Prop where
  pool : s.pool = .after (m.usesOf seen)
  resolveCode : ∀ final : State, final.methodNames.toList = m.names →
    s.methods.toList.mapM final.resolveCode = .ok (methods.map m.canonicalMethod)
  resolveDefinition : ∀ final : State, final.methodNames.toList = m.names →
    s.definitions.toList.mapM final.resolveDefinition = .ok (definitions.map m.canonicalDefinition)
  noInit : s.init = none

structure Outside (m : Module) (seen : List Nat) (methods : List Method)
    (definitions : List Definition) (s : State) : Prop extends Built m seen methods definitions s where
  closed : s.current = none
  names : s.methodNames.toList = methods.map m.nameOf

structure Inside (m : Module) (seen : List Nat) (methods : List Method) (method : Method)
    (written : List Instruction) (labelled : Nat → Prop) (s : State) : Prop
    extends Built m seen methods [] s where
  opened : ∃ d start, s.current = some (d, start) ∧ Drafts m method written labelled d
  names : s.methodNames.toList = (methods ++ [method]).map m.nameOf

theorem Drafts.congr {labelled' : Nat → Prop} {d : MethodDraft} (h : Drafts m method written labelled d)
    (hiff : ∀ t, labelled t ↔ labelled' t) : Drafts m method written labelled' d :=
  { h with
    placed := fun t ht => h.placed t ((hiff t).2 ht)
    unplaced := fun t ht => h.unplaced t fun hl => ht ((hiff t).1 hl) }

theorem Inside.congr {labelled' : Nat → Prop} (h : Inside m seen methods method written labelled s)
    (hiff : ∀ t, labelled t ↔ labelled' t) : Inside m seen methods method written labelled' s := by
  obtain ⟨d, start, hcurrent, hd⟩ := h.opened
  exact { h with opened := ⟨d, start, hcurrent, hd.congr hiff⟩ }

theorem outside_start : Outside m [] [] [] {} where
  pool := rfl
  resolveCode _ _ := rfl
  resolveDefinition _ _ := rfl
  noInit := rfl
  closed := rfl
  names := rfl

/-! ## From lines to states -/

/-- The lines are read, and lead from states of one kind to the other. -/
def Leads (P Q : State → Prop) (lines : List TraceLine) : Prop :=
  ∀ s number, P s → ∃ s', s.addLines number (lines.map TraceLine.chars) = .ok s' ∧ Q s'

variable {P Q R : State → Prop} {lines more : List TraceLine} {line : TraceLine}

theorem Leads.nil : Leads P P [] :=
  fun s _ h => ⟨s, rfl, h⟩

theorem Leads.append (h : Leads P Q lines) (hmore : Leads Q R more) : Leads P R (lines ++ more) := by
  intro s number hs
  obtain ⟨s₁, hfirst, hs₁⟩ := h s number hs
  obtain ⟨s₂, hsecond, hs₂⟩ := hmore s₁ _ hs₁
  refine ⟨s₂, ?_, hs₂⟩
  rw [List.map_append, addLines_append, hfirst, Except.ok_bind, hsecond]

theorem Leads.single (h : ∀ s number, P s → ∃ s', s.addLine number line.chars = .ok s' ∧ Q s') :
    Leads P Q [line] := by
  intro s number hs
  obtain ⟨s', hs', hQ⟩ := h s number hs
  exact ⟨s', by simp [State.addLines, hs'], hQ⟩

theorem Leads.mono {P' Q' : State → Prop} (h : Leads P Q lines) (hP : ∀ s, P' s → P s)
    (hQ : ∀ s, Q s → Q' s) : Leads P' Q' lines := by
  intro s number hs
  obtain ⟨s', hs', hQ'⟩ := h s number (hP s hs)
  exact ⟨s', hs', hQ s' hQ'⟩

theorem addLine_outside {d : Directive} {number : Nat} (hpiece : Piece line.text.toList) (hclosed : s.current = none)
    (hread : Directive.read? line.text.toList = some d) : s.addLine number line.chars = s.addDirective number d := by
  have hcontent : content line.chars = line.text.toList := hpiece.content _
  obtain ⟨c, rest, hfirst, _⟩ := hpiece.first
  simp only [State.addLine, hcontent, hclosed, hread]
  simp [hfirst]

theorem addLine_inside {d : MethodDraft} {start number : Nat} (hpiece : Piece line.text.toList)
    (hcurrent : s.current = some (d, start)) :
    s.addLine number line.chars = s.addBodyLine number d start line.text.toList := by
  have hcontent : content line.chars = line.text.toList := hpiece.content _
  obtain ⟨c, rest, hfirst, _⟩ := hpiece.first
  simp only [State.addLine, hcontent, hcurrent]
  simp [hfirst]

/-- A directive outside a method. -/
theorem Leads.directive {d : Directive} {indent : Nat} {text : String} {chars : List Char}
    (htext : text.toList = chars) (hpiece : Piece chars) (hread : Directive.read? chars = some d)
    (hclosed : ∀ s, P s → s.current = none)
    (h : ∀ s number, P s → ∃ s', s.addDirective number d = .ok s' ∧ Q s') :
    Leads P Q [⟨indent, text⟩] := by
  subst htext
  have hpiece : Piece (TraceLine.mk indent text).text.toList := hpiece
  refine .single fun s number hs => ?_
  rw [addLine_outside hpiece (hclosed s hs) hread]
  exact h s number hs

/-- A line inside a method. -/
theorem Leads.body (hpiece : Piece line.text.toList)
    (h : ∀ s number, Inside m seen methods method written labelled s → ∀ d start,
      s.current = some (d, start) → Drafts m method written labelled d →
      ∃ s', s.addBodyLine number d start line.text.toList = .ok s' ∧ Q s') :
    Leads (Inside m seen methods method written labelled) Q [line] := by
  refine .single fun s number hs => ?_
  obtain ⟨d, start, hcurrent, hd⟩ := hs.opened
  rw [addLine_inside hpiece hcurrent]
  exact h s number hs d start hcurrent hd

/-! ## Lines of a method -/

theorem addBodyLine_of_head {d : MethodDraft} {start number : Nat} {text : List Char}
    (h : text.head? ≠ some '.') :
    s.addBodyLine number d start text = match BodyLine.read? text with
      | none => .error (.unreadable (String.ofList text))
      | some (.label name) =>
        let name := String.ofList name
        if (d.labels.lookup name).isSome then .error (.duplicateLabel name)
        else .ok { s with
          current := some ({ d with labels := (name, d.code.size) :: d.labels }, start) }
      | some (.instruction mnemonic operand) => do
        let (draft, s) ← s.addInstruction number mnemonic operand
        return { s with current := some ({ d with code := d.code.push draft }, start) } := by
  have hend : text ≠ ".end".toList := fun heq => h (heq ▸ rfl)
  exact (if_neg hend).trans (if_neg h)

/-- An instruction that is read is the next of its method. -/
theorem leads_instruction (hm : m.Legible) (hmethod : method ∈ m.methods) {i : Instruction}
    (hi : i ∈ method.code) (hseen : seenAfter seen i <+: m.mentions) :
    Leads (Inside m seen methods method written labelled)
      (Inside m (seenAfter seen i) methods method (written ++ [i]) labelled)
      [⟨1, m.instructionText i⟩] := by
  have hresolves := hm.resolved.code method hmethod i hi
  refine .body (piece_instructionText hresolves) fun s number hs d start hcurrent hd => ?_
  obtain ⟨operand, draft, hread, hadd, hbecomes⟩ := addInstruction_text method.code.size number hm
    hresolves (hm.operands method hmethod i hi) hs.pool hseen
  refine ⟨{ s with
    pool := .after (m.usesOf (seenAfter seen i))
    current := some ({ d with code := d.code.push draft }, start) }, ?_, ?_⟩
  · rw [addBodyLine_of_head (head?_instructionText i), hread]
    simp only [hadd, Except.ok_bind]
    rfl
  · exact {
      pool := rfl
      resolveCode := hs.resolveCode
      resolveDefinition := hs.resolveDefinition
      noInit := hs.noInit
      names := hs.names
      opened := ⟨_, start, rfl, {
        -- The labels are not touched.
        hd with
        size := by simp [hd.size]
        code := by
          intro final labels hfinal hlabels
          have hbefore := hd.code final labels hfinal
            fun j hj => hlabels j (List.mem_append_left _ hj)
          have hnext := hbecomes final labels hfinal (hlabels i (by simp))
          rw [Array.toList_push, List.map_append]
          exact Except.mapM_concat hbefore hnext }⟩ }

theorem labelName_injective {t u : Nat} (h : labelName t = labelName u) : t = u := by
  have hchars := congrArg String.toList h
  rw [toList_labelName, toList_labelName] at hchars
  have hvalue := congrArg (Decimal.digitsValue 0) (List.cons.inj hchars).2
  rwa [Decimal.digitsValue_toDigits, Decimal.digitsValue_toDigits] at hvalue

theorem lookup_label_cons (labels : List (String × Nat)) (target place t : Nat) :
    List.lookup (labelName t) ((labelName target, place) :: labels) =
      if t = target then some place else labels.lookup (labelName t) := by
  by_cases h : t = target
  · simp [h]
  · have hne : labelName t ≠ labelName target := fun heq => h (labelName_injective heq)
    rw [List.lookup_cons, if_neg h, beq_false_of_ne hne]

/-- A label that is read stands where the code ends so far. -/
theorem leads_label {target : Nat} (hnew : ¬ labelled target)
    (hplace : min target method.code.size = written.length) :
    Leads (Inside m seen methods method written labelled)
      (Inside m seen methods method written fun t => labelled t ∨ t = target)
      [⟨1, s!"L{target}:"⟩] := by
  have hname : String.ofList (labelChars target) = labelName target := by
    rw [← toList_labelName, String.ofList_toList]
  refine .body (piece_labelLine target) fun s number hs d start hcurrent hd => ?_
  refine ⟨{ s with
    current := some ({ d with labels := (labelName target, d.code.size) :: d.labels }, start) }, ?_, ?_⟩
  · rw [toList_labelLine, addBodyLine_of_head (by simp [labelChars]), read?_label]
    simp only [hname, hd.unplaced target hnew, Option.isSome_none]
    rfl
  · exact {
      hs with
      opened := ⟨_, start, rfl, {
        hd with
        placed := by
          intro t ht
          -- The label that is new stands at the end of the code; the others keep their places.
          rw [lookup_label_cons]
          by_cases htarget : t = target
          · rw [if_pos htarget, htarget, hplace, hd.size]
          · rw [if_neg htarget, hd.placed t (ht.resolve_right htarget)]
        unplaced := by
          intro t ht
          obtain ⟨hunplaced, htarget⟩ := not_or.1 ht
          rw [lookup_label_cons, if_neg htarget, hd.unplaced t hunplaced] }⟩ }

/-- The end of a method closes it. -/
theorem leads_end (hlabelled : ∀ i ∈ method.code, ∀ t, i.target? = some t → labelled t) :
    Leads (Inside m seen methods method method.code.toList labelled)
      (Outside m seen (methods ++ [method]) []) [⟨0, ".end"⟩] := by
  refine .body piece_end fun s number hs d start hcurrent hd => ?_
  refine ⟨{ s with methods := s.methods.push d, current := none }, ?_, ?_⟩
  · rw [State.addBodyLine, if_pos rfl]
  · exact {
      hs with
      resolveCode := by
        intro final hfinal
        -- All labels of the method are placed by now, so its branches find them.
        have hcode := hd.code final d.labels hfinal
          fun i hi t ht => hd.placed t (hlabelled i (by simpa using hi) t ht)
        have hresolve : final.resolveCode d = .ok (m.canonicalMethod method) := by
          rw [State.resolveCode, hcode, Except.ok_bind, hd.name, hd.params, hd.locals, canonicalMethod,
            ← Array.toList_map, Array.toArray_toList]
          rfl
        rw [Array.toList_push, List.map_append]
        exact Except.mapM_concat (hs.resolveCode final hfinal) hresolve
      closed := rfl
      names := hs.names }

/-- The labels that stand before the instruction at `pc`. -/
def labelledBefore (method : Method) (pc t : Nat) : Prop :=
  t ∈ Method.targets method ∧ t < pc

theorem labelledBefore_succ {place target : Nat} :
    labelledBefore method (place + 1) target ↔
      labelledBefore method place target ∨ place ∈ Method.targets method ∧ target = place := by
  simp only [labelledBefore]
  constructor
  · rintro ⟨htarget, hlt⟩
    obtain hlt | rfl := Nat.lt_succ_iff_lt_or_eq.1 hlt
    · exact .inl ⟨htarget, hlt⟩
    · exact .inr ⟨htarget, rfl⟩
  · rintro (⟨htarget, hlt⟩ | ⟨htarget, rfl⟩)
    · exact ⟨htarget, Nat.lt_succ_of_lt hlt⟩
    · exact ⟨htarget, Nat.lt_succ_self _⟩

/-- The label of a place is written only when some branch goes to it. -/
theorem leads_place (hplace : written.length < method.code.size) :
    Leads (Inside m seen methods method written (labelledBefore method written.length))
      (Inside m seen methods method written (labelledBefore method (written.length + 1)))
      (if (Method.targets method).contains written.length then [⟨1, s!"L{written.length}:"⟩] else []) := by
  split
  · rename_i hmem
    have htarget : written.length ∈ Method.targets method := by simpa using hmem
    have hnew : ¬ labelledBefore method written.length written.length := fun h => Nat.lt_irrefl _ h.2
    have hhere := Nat.min_eq_left (Nat.le_of_lt hplace)
    refine (leads_label hnew hhere).mono (fun _ h => h) fun s hs => hs.congr fun t => ?_
    rw [labelledBefore_succ, and_iff_right htarget]
  · rename_i hmem
    have htarget : written.length ∉ Method.targets method := by simpa using hmem
    refine Leads.nil.mono (fun _ h => h) fun s hs => hs.congr fun t => ?_
    rw [labelledBefore_succ, or_iff_left fun h => htarget h.1]

/-- The code of a method: by induction on what is left of it. -/
theorem leads_code (hm : m.Legible) (hmethod : method ∈ m.methods) {code : List Instruction}
    (hcode : written ++ code = method.code.toList)
    (hseen : seen ++ code.filterMap Instruction.constant? <+: m.mentions) :
    Leads (Inside m seen methods method written (labelledBefore method written.length))
      (Inside m (seen ++ code.filterMap Instruction.constant?) methods method method.code.toList
        (labelledBefore method method.code.size))
      (m.codeLines (Method.targets method) written.length code) := by
  induction code generalizing written seen with
  | nil =>
    obtain rfl : written = method.code.toList := by simpa using hcode
    simp only [List.filterMap_nil, List.append_nil, codeLines, Array.length_toList]
    exact .nil
  | cons i code ih =>
    have hi : i ∈ method.code := by
      rw [← Array.mem_toList_iff, ← hcode]
      simp
    have hsize : written.length < method.code.size := by
      have hlength := congrArg List.length hcode
      simp only [List.length_append, List.length_cons, Array.length_toList] at hlength
      omega
    have hafter : seenAfter seen i ++ code.filterMap Instruction.constant? =
        seen ++ (i :: code).filterMap Instruction.constant? := by
      rw [seenAfter, List.append_assoc, List.filterMap_cons]
      cases i.constant? <;> rfl
    rw [← hafter] at hseen ⊢
    have hdone : written ++ [i] ++ code = method.code.toList := by simpa using hcode
    have hrest := ih hdone hseen
    rw [List.length_append, List.length_singleton] at hrest
    have hthis : seenAfter seen i <+: m.mentions := (List.prefix_append _ _).trans hseen
    exact (leads_place hsize).append ((leads_instruction hm hmethod hi hthis).append hrest)

/-- The labels past the end of the code. -/
theorem leads_lateLabels {late : List Nat} (hlate : ∀ t ∈ late, method.code.size ≤ t)
    (hnodup : late.Nodup) (hnew : ∀ t ∈ late, ¬ labelled t) :
    Leads (Inside m seen methods method method.code.toList labelled)
      (Inside m seen methods method method.code.toList fun t => labelled t ∨ t ∈ late)
      (late.map fun target => ⟨1, s!"L{target}:"⟩) := by
  -- All of them are placed at the end of the code, each for the first time.
  induction late generalizing labelled with
  | nil => exact Leads.nil.mono (fun _ h => h) fun s h => h.congr (by simp)
  | cons target late ih =>
    obtain ⟨htarget, hrest⟩ := List.forall_mem_cons.1 hlate
    obtain ⟨hfresh, hnodup⟩ := List.nodup_cons.1 hnodup
    obtain ⟨hfirst, hnew⟩ := List.forall_mem_cons.1 hnew
    have hplace : min target method.code.size = method.code.toList.length := by
      rw [Nat.min_eq_right htarget, Array.length_toList]
    have hstill : ∀ t ∈ late, ¬ (labelled t ∨ t = target) := fun t ht h =>
      h.elim (hnew t ht) fun heq => hfresh (heq ▸ ht)
    refine ((leads_label hfirst hplace).append (ih hrest hnodup hstill)).mono (fun _ h => h)
      fun s hs => hs.congr fun t => ?_
    rw [List.mem_cons, or_assoc]

/-- The first line of a method opens it. -/
theorem leads_open (hm : m.Legible) (hmethod : method ∈ m.methods)
    (hseen : seen ++ [method.name] <+: m.mentions) (hnew : m.nameOf method ∉ methods.map m.nameOf)
    {head : String} (htext : head.toList = methodText (m.nameOf method) method.params method.locals) :
    Leads (Outside m seen methods [])
      (Inside m (seen ++ [method.name]) methods method [] fun _ => False) [⟨0, head⟩] := by
  refine .directive htext (piece_methodText _ _ _) (read?_methodText _ _ _) (fun s hs => hs.closed)
    fun s number hs => ?_
  have hname := stringConstant_eq_ok.1 (hm.resolved.stringConstant_name hmethod)
  have hintern := intern_mentioned hs.pool hseen hname
  have hfresh : s.methodNames.contains (m.nameOf method) = false := by
    rw [← Array.contains_toList, hs.names]
    simpa using hnew
  obtain ⟨hparams, hlocals⟩ := hm.counts method hmethod
  have hle := hm.params method hmethod
  refine ⟨{ s with
    pool := .after (m.usesOf (seen ++ [method.name]))
    methodNames := s.methodNames.push (m.nameOf method)
    current := some (⟨m.renumber method.name, method.params, method.locals, #[], []⟩, number) }, ?_, ?_⟩
  · simp only [State.addDirective, State.openMethod, readName_nameText, Except.ok_bind, hfresh, readCount,
      readIndex_toDigits hparams, readIndex_toDigits hlocals, Nat.not_lt.2 hle, hintern]
    rfl
  · exact {
      hs with
      pool := rfl
      opened := ⟨_, number, rfl, {
        name := rfl
        params := rfl
        locals := rfl
        size := rfl
        code := fun _ _ _ _ => rfl
        placed := fun _ h => h.elim
        unplaced := fun _ _ => rfl }⟩
      names := by simp [hs.names] }

theorem mem_targets {i : Instruction} (hi : i ∈ method.code) {t : Nat} (ht : i.target? = some t) :
    t ∈ Method.targets method :=
  mem_sortedNats.2 (List.mem_filterMap.2 ⟨i, by simpa using hi, ht⟩)

theorem leads_method (hm : m.Legible) {index : Nat} (hindex : m.methods[index]? = some method)
    (hseen : seen ++ methodMentions method <+: m.mentions)
    (hnew : m.nameOf method ∉ methods.map m.nameOf) :
    Leads (Outside m seen methods []) (Outside m (seen ++ methodMentions method) (methods ++ [method]) [])
      (m.methodLines index method) := by
  have hmethod : method ∈ m.methods := Array.mem_of_getElem? hindex
  have hmentions : seen ++ methodMentions method =
      seen ++ [method.name] ++ method.code.toList.filterMap Instruction.constant? := by
    simp [methodMentions]
  rw [hmentions] at hseen ⊢
  have hlate : ∀ t ∈ (Method.targets method).filter (method.code.size ≤ ·), method.code.size ≤ t :=
    fun t ht => by simpa using (List.mem_filter.1 ht).2
  have hnodup : ((Method.targets method).filter (method.code.size ≤ ·)).Nodup :=
    (nodup_sortedNats _).sublist List.filter_sublist
  -- Every target gets its label, inside the code or past its end.
  have hplaced : ∀ i ∈ method.code, ∀ t, i.target? = some t →
      labelledBefore method method.code.size t ∨
        t ∈ (Method.targets method).filter (method.code.size ≤ ·) := by
    intro i hi t ht
    have hmem := mem_targets hi ht
    rcases Nat.lt_or_ge t method.code.size with hlt | hge
    · exact .inl ⟨hmem, hlt⟩
    · exact .inr (List.mem_filter.2 ⟨hmem, by simpa using hge⟩)
  have htext := toList_methodHead hindex
  unfold methodLines
  generalize m.methodHead index method = head at htext ⊢
  have hhead := leads_open hm hmethod ((List.prefix_append _ _).trans hseen) hnew htext
  have hbody := hhead.append <| (leads_code hm hmethod rfl hseen).mono
    (fun s hs => hs.congr fun t => by simp [labelledBefore]) fun _ h => h
  have hlabels := hbody.append <| leads_lateLabels hlate hnodup
    fun t ht h => Nat.not_lt.2 (hlate t ht) h.2
  exact hlabels.append (leads_end hplaced)

/-- All methods: by induction on those that are left. -/
theorem leads_methods (hm : m.Legible) {left : List Method} (hleft : methods ++ left = m.methods.toList) :
    Leads (Outside m (methods.flatMap methodMentions) methods [])
      (Outside m (m.methods.toList.flatMap methodMentions) m.methods.toList [])
      ((left.zipIdx methods.length).flatMap fun (method, index) => m.methodLines index method) := by
  induction left generalizing methods with
  | nil =>
    obtain rfl : methods = m.methods.toList := by simpa using hleft
    exact .nil
  | cons method left ih =>
    have hindex : m.methods[methods.length]? = some method := by
      rw [← Array.getElem?_toList, ← hleft]
      simp
    -- The constants mentioned so far are those of the methods that were read.
    have hseen : methods.flatMap methodMentions ++ methodMentions method <+: m.mentions := by
      rw [mentions, ← hleft]
      exact ⟨left.flatMap methodMentions ++ m.definitions.flatMap definitionMentions, by simp⟩
    -- The names are distinct, so this one was not read before.
    have hnew : m.nameOf method ∉ methods.map m.nameOf := by
      have hnodup := hm.names
      rw [names, ← hleft, List.map_append, List.nodup_append] at hnodup
      exact fun hmem => hnodup.2.2 _ hmem _ (by simp) rfl
    have hmore : methods ++ [method] ++ left = m.methods.toList := by simpa using hleft
    have hrest := ih hmore
    rw [List.flatMap_append, List.flatMap_singleton, List.length_append, List.length_singleton] at hrest
    rw [List.zipIdx_cons, List.flatMap_cons]
    exact (leads_method hm hindex hseen hnew).append hrest

/-! ## Definitions -/

/-- The value of a slot is read back, and enters the pool. -/
theorem slotValue_literal (hm : m.Legible) {index : Nat} {c : Constant}
    (hs : s.pool = .after (m.usesOf seen)) (hseen : seen ++ [index] <+: m.mentions)
    (hc : m.constants[index]? = some c) :
    s.slotValue (slotKind c) (some c.literal.toList) =
      .ok (some (m.renumber index), { s with pool := .after (m.usesOf (seen ++ [index])) }) := by
  have hintern := intern_mentioned hs hseen hc
  cases c with
  | int v =>
    simp only [slotKind, State.slotValue, Constant.literal, readInt, Decimal.readInt32?_toString,
      Except.ok_bind, hintern]
    rfl
  | double x =>
    simp only [slotKind, State.slotValue, Constant.literal, readDouble,
      hm.doubles x (Array.mem_of_getElem? hc), Except.ok_bind, hintern]
    rfl
  | string t =>
    simp only [slotKind, State.slotValue, Constant.literal, readString_quote, Except.ok_bind, hintern]
    rfl

/-- The definition that was read last is the canonical one. -/
theorem Outside.define (h : Outside m seen methods definitions s) {seen' : List Nat} {d : Definition}
    (draft : DefinitionDraft)
    (hresolve : ∀ final : State, final.methodNames.toList = m.names →
      final.resolveDefinition draft = .ok (m.canonicalDefinition d)) :
    Outside m seen' methods (definitions ++ [d])
      { s with pool := .after (m.usesOf seen'), definitions := s.definitions.push draft } :=
  { h with
    pool := rfl
    resolveDefinition := fun final hfinal => by
      rw [Array.toList_push, List.map_append]
      exact Except.mapM_concat (h.resolveDefinition final hfinal) (hresolve final hfinal) }

section

variable {d : Definition} {name : String} {index : Nat} (hname : m.constants[d.name]? = some (.string name))
  (hfirst : seen ++ [d.name] <+: m.mentions)

include hname hfirst

theorem leads_undefinedSlot (hslot : d.binding = .slot none) :
    Leads (Outside m seen methods definitions) (Outside m (seen ++ [d.name]) methods (definitions ++ [d]))
      [⟨0, s!".slot {nameText name} undefined"⟩] := by
  have hline := toList_undefinedLine name
  generalize (s!".slot {nameText name} undefined") = text at hline ⊢
  refine .directive hline (piece_slotText name .undefined (.inl rfl))
    (read?_slotText name .undefined rfl) (fun s hs => hs.closed) fun s number hs => ?_
  have hintern := intern_mentioned hs.pool hfirst hname
  refine ⟨_, ?_, hs.define ⟨m.renumber d.name, .slot none⟩ fun final _ => ?_⟩
  · simp only [State.addDirective, readName_nameText, Except.ok_bind, hintern, State.slotValue]
    rfl
  · simp [State.resolveDefinition, canonicalDefinition, hslot, canonicalBinding]

/-- The name enters the pool first, and the value behind it. -/
theorem leads_slot (hm : m.Legible) {c : Constant} (hslot : d.binding = .slot (some index))
    (hc : m.constants[index]? = some c) (hseen : seen ++ [d.name] ++ [index] <+: m.mentions) :
    Leads (Outside m seen methods definitions)
      (Outside m (seen ++ [d.name] ++ [index]) methods (definitions ++ [d]))
      [⟨0, s!".slot {nameText name} {c.slotText}"⟩] := by
  have hline := toList_slotLine name c
  generalize (s!".slot {nameText name} {c.slotText}") = text at hline ⊢
  refine .directive hline (piece_slotText name _ (.inr ⟨_, rfl, piece_literal c⟩))
    (read?_slotText name _ (operandText?_space (piece_literal c))) (fun s hs => hs.closed) fun s number hs => ?_
  have hintern := intern_mentioned hs.pool hfirst hname
  have hvalue := fun s hs => slotValue_literal (s := s) hm hs hseen hc
  refine ⟨_, ?_, hs.define ⟨m.renumber d.name, .slot (some (m.renumber index))⟩ fun final _ => ?_⟩
  · simp only [State.addDirective, readName_nameText, Except.ok_bind, hintern, hvalue]
    rfl
  · simp [State.resolveDefinition, canonicalDefinition, hslot, canonicalBinding]

theorem leads_function (hm : m.Legible) (hslot : d.binding = .method index) (hindex : index < m.methods.size) :
    Leads (Outside m seen methods definitions) (Outside m (seen ++ [d.name]) methods (definitions ++ [d]))
      [⟨0, s!".function {nameText name} {nameText (m.methodName index)}"⟩] := by
  have hline := toList_functionLine name (m.methodName index)
  generalize (s!".function {nameText name} {nameText (m.methodName index)}") = text at hline ⊢
  refine .directive hline (piece_functionText _ _) (read?_functionText _ _) (fun s hs => hs.closed)
    fun s number hs => ?_
  have hintern := intern_mentioned hs.pool hfirst hname
  refine ⟨_, ?_, hs.define ⟨m.renumber d.name, .method (m.methodName index) number⟩ fun final hfinal => ?_⟩
  · simp only [State.addDirective, readName_nameText, Except.ok_bind, hintern]
    rfl
  · simp only [State.resolveDefinition, resolveMethod_of_names hm hfinal hindex]
    simp [canonicalDefinition, hslot, canonicalBinding, Except.map]

end

theorem leads_definition (hm : m.Legible) {d : Definition} (hd : d ∈ m.definitions)
    (hseen : seen ++ definitionMentions d <+: m.mentions) :
    Leads (Outside m seen methods definitions)
      (Outside m (seen ++ definitionMentions d) methods (definitions ++ [d])) [m.definitionLine d] := by
  obtain ⟨name, hname⟩ := hm.resolved.definitionName d hd
  have htext : (m.stringConstant d.name).toOption.getD "" = name := by
    rw [stringConstant_eq_ok.2 hname]
    rfl
  have hfirst : seen ++ [d.name] <+: m.mentions :=
    (show seen ++ [d.name] <+: seen ++ definitionMentions d from
      (List.prefix_append_right_inj _).2 ⟨_, rfl⟩).trans hseen
  have hbinding := hm.resolved.binding d hd
  unfold definitionLine
  simp only [htext]
  rcases hslot : d.binding with (_ | index) | index
  · have hmentions : definitionMentions d = [d.name] := by simp [definitionMentions, hslot]
    rw [hmentions]
    exact leads_undefinedSlot hname hfirst hslot
  · have hmentions : definitionMentions d = [d.name] ++ [index] := by simp [definitionMentions, hslot]
    rw [hslot] at hbinding
    obtain ⟨c, hc⟩ : ∃ c, m.constants[index]? = some c := ⟨_, Array.getElem?_eq_getElem hbinding⟩
    rw [hmentions, ← List.append_assoc] at hseen ⊢
    simp only [hc]
    exact leads_slot hname hfirst hm hslot hc hseen
  · have hmentions : definitionMentions d = [d.name] := by simp [definitionMentions, hslot]
    rw [hslot] at hbinding
    rw [hmentions]
    exact leads_function hname hfirst hm hslot hbinding

theorem leads_definitions (hm : m.Legible) {left : List Definition}
    (hleft : definitions ++ left = m.definitions) :
    Leads (Outside m (m.methods.toList.flatMap methodMentions ++ definitions.flatMap definitionMentions)
        methods definitions)
      (Outside m m.mentions methods m.definitions) (left.map m.definitionLine) := by
  induction left generalizing definitions with
  | nil =>
    obtain rfl : definitions = m.definitions := by simpa using hleft
    exact .nil
  | cons d left ih =>
    have hd : d ∈ m.definitions := by
      rw [← hleft]
      simp
    have hseen : m.methods.toList.flatMap methodMentions ++ definitions.flatMap definitionMentions ++
        definitionMentions d <+: m.mentions := by
      rw [mentions, ← hleft]
      exact ⟨left.flatMap definitionMentions, by simp⟩
    have hmore : definitions ++ [d] ++ left = m.definitions := by simpa using hleft
    have hrest := ih hmore
    rw [List.flatMap_append, List.flatMap_singleton, ← List.append_assoc] at hrest
    exact (leads_definition hm hd hseen).append hrest

/-! ## The whole text -/

/-- The first line is a comment. -/
theorem leads_header : Leads P P [m.headerLine] := by
  obtain ⟨text, hchars⟩ := chars_headerLine (m := m)
  refine .single fun s number hs => ⟨s, ?_, hs⟩
  have hcontent : content m.headerLine.chars = [] := by
    rw [hchars]
    exact content_comment _
  simp [State.addLine, hcontent]

structure Finished (m : Module) (s : State) : Prop extends
    Built m m.mentions m.methods.toList m.definitions { s with init := none } where
  closed : s.current = none
  names : s.methodNames.toList = m.names
  init : ∃ number, s.init = some (m.methodName m.init, number)

theorem leads_init : Leads (Outside m m.mentions m.methods.toList m.definitions) (Finished m)
    [⟨0, s!".init {nameText (m.methodName m.init)}"⟩] := by
  have hline := toList_initLine (m.methodName m.init)
  generalize (s!".init {nameText (m.methodName m.init)}") = text at hline ⊢
  refine .directive hline (piece_initText _) (read?_initText _) (fun s hs => hs.closed)
    fun s number hs => ?_
  refine ⟨{ s with init := some (m.methodName m.init, number) }, ?_, ?_⟩
  · simp only [State.addDirective, hs.noInit, readName_nameText, Except.ok_bind]
    rfl
  · exact {
      hs with
      noInit := rfl
      init := ⟨number, rfl⟩ }

theorem leads_trace (hm : m.Legible) : Leads (Outside m [] [] []) (Finished m) m.trace := by
  have hmethods : Leads (Outside m [] [] [])
      (Outside m (m.methods.toList.flatMap methodMentions) m.methods.toList [])
      (m.methods.toList.zipIdx.flatMap fun (method, index) => m.methodLines index method) :=
    leads_methods hm (List.nil_append m.methods.toList)
  have hdefinitions : Leads (Outside m (m.methods.toList.flatMap methodMentions) m.methods.toList [])
      (Outside m m.mentions m.methods.toList m.definitions) (m.definitions.map m.definitionLine) := by
    simpa only [List.flatMap_nil, List.append_nil] using
      leads_definitions hm (List.nil_append m.definitions)
  exact ((leads_header.append hmethods).append hdefinitions).append leads_init

theorem finish_of_finished (hm : m.Legible) (h : Finished m s) (lastLine : Nat) :
    s.finish m.label lastLine = .ok m.canonical := by
  obtain ⟨number, hinit⟩ := h.init
  -- Names are resolved only now, when all methods have theirs.
  have hresolve : s.resolveMethod (m.methodName m.init) number = .ok m.init :=
    resolveMethod_of_names hm h.names hm.resolved.init
  have hmethods : s.methods.toList.mapM s.resolveCode = .ok (m.methods.toList.map m.canonicalMethod) :=
    h.resolveCode s h.names
  have hdefinitions : s.definitions.toList.mapM s.resolveDefinition =
      .ok (m.definitions.map m.canonicalDefinition) := h.resolveDefinition s h.names
  have hpool : s.pool.constants = m.pool.toArray := by
    rw [h.pool]
    exact Pool.constants_after m.uses
  simp only [State.finish, h.closed, hinit, hresolve, Except.ok_bind, hmethods, hdefinitions, hpool]
  rw [canonical, ← Array.toList_map, Array.toArray_toList]
  rfl

end Assembly

/-- The assembler reads the canonical form of a module from its text. -/
theorem Module.Legible.assemble_disassemble {m : Module} (hm : m.Legible) :
    Module.assemble m.disassemble m.label = .ok m.canonical := by
  obtain ⟨s, hread, hfinished⟩ := Assembly.leads_trace hm {} 1 Assembly.outside_start
  rw [Module.assemble, lines_disassemble hm.resolved hm.label, hread, Except.ok_bind]
  exact Assembly.finish_of_finished hm hfinished _

theorem Module.assemble_disassemble {m : Module} (hm : m.Printable) :
    Module.assemble m.disassemble m.label = .ok m.canonical :=
  hm.legible.assemble_disassemble

end MovieVm.Bytecode
