import MovieVm.Proofs.Statements

/-!
# What the assembler builds

While the lines are taken, the tables follow the declarations that were read, and the method that is open follows its
lines so far. What names a method or a label is kept as a draft, which becomes an instruction once the whole text is
read.
-/

namespace MovieVm.Bytecode.Assembly

variable {s s' final : State} {pool pool' : Pool} {line : Nat} {labels' : List (String × Nat)}

/-! ## Labels -/

section Labels

variable {body : List Entry} {e : Entry} {label : String} {place : Nat}

theorem instructions_concat : instructions (body ++ [e]) = instructions body ++ e.instruction?.toList := by
  cases e <;> simp [instructions, Entry.instruction?]

theorem labels_concat : labels (body ++ [e]) = labels body ++ e.label?.toList := by
  cases e <;> simp [labels, Entry.label?]

theorem standsAt_nil : ¬ StandsAt [] label place := by
  rintro ⟨before, after, hbody, _⟩
  cases before <;> cases hbody

/-- Another line leaves the labels where they are. -/
theorem standsAt_concat : StandsAt (body ++ [e]) label place ↔
    StandsAt body label place ∨ e = .label label ∧ place = (instructions body).length := by
  constructor
  · rintro ⟨before, after, hbody, hplace⟩
    -- The label is the line itself, or stands before it.
    rcases List.eq_nil_or_concat after with rfl | ⟨after, last, rfl⟩
    · obtain ⟨rfl, hlast⟩ := List.append_inj' hbody rfl
      exact .inr ⟨List.head_eq_of_cons_eq hlast, hplace⟩
    · rw [List.concat_eq_append, ← List.cons_append, ← List.append_assoc] at hbody
      exact .inl ⟨before, after, List.append_inj_left' hbody rfl, hplace⟩
  · rintro (⟨before, after, rfl, hplace⟩ | ⟨rfl, hplace⟩)
    · exact ⟨before, after ++ [e], by rw [List.append_assoc, List.cons_append], hplace⟩
    · exact ⟨body, [], rfl, hplace⟩

theorem mem_labels : label ∈ labels body ↔ ∃ place, StandsAt body label place := by
  constructor
  · intro h
    obtain ⟨e, he, hlabel⟩ := List.mem_filterMap.1 h
    obtain ⟨before, after, rfl⟩ := List.append_of_mem he
    cases e with
    | label name =>
      obtain rfl := Option.some.inj hlabel
      exact ⟨_, before, after, rfl, rfl⟩
    | instruction i => cases hlabel
  · rintro ⟨place, before, after, rfl, _⟩
    exact List.mem_filterMap.2 ⟨.label label, by simp, rfl⟩

end Labels

/-! ## Drafts -/

/-- Once the names and the labels are known, the draft becomes what its line says. They are known at the end of the
text only, so the draft says so of every state that keeps the constants of the pool. -/
def Draft.Promises (pool : Pool) (source : InstructionSource) (d : Draft) : Prop :=
  ∀ (final : State) (labels : List (String × Nat)) (i : Instruction), pool.Stays final.pool →
    final.resolve labels d = .ok i →
      source.Becomes final.pool.constants final.methodNames.toList (fun l n => labels.lookup l = some n) i

structure MethodDraft.Promises (pool : Pool) (source : MethodSource) (d : MethodDraft) : Prop where
  name : pool.constants[d.name]? = some (.string source.name)
  params : d.params = source.params
  locals : d.locals = source.locals
  code : List.Forall₂ (Draft.Promises pool) (instructions source.body) d.code.toList
  labels : ∀ label place, d.labels.lookup label = some place ↔ StandsAt source.body label place

theorem MethodDraft.Promises.size_eq {source : MethodSource} {d : MethodDraft} (h : d.Promises pool source) :
    d.code.size = (instructions source.body).length := by
  rw [← Array.length_toList, h.code.length_eq]

/-- A new label is at the place behind the instructions so far. -/
theorem MethodDraft.Promises.label {source : MethodSource} {d : MethodDraft} (h : d.Promises pool source)
    {name : String} (hfresh : d.labels.lookup name = none) :
    MethodDraft.Promises pool { source with body := source.body ++ [.label name] }
      { d with labels := (name, d.code.size) :: d.labels } :=
  { h with
    code := by simpa [instructions_concat, Entry.instruction?] using h.code
    labels := by
      intro label place
      rw [standsAt_concat, ← h.labels, Pool.lookup_cons_eq, h.size_eq]
      -- Without `hfresh` the new entry could hide an older one.
      by_cases hsame : label = name
      · rw [if_pos hsame, hsame, hfresh]
        simp [eq_comm]
      · rw [if_neg hsame]
        simp [Ne.symm hsame] }

theorem MethodDraft.Promises.nodup_label {source : MethodSource} {d : MethodDraft} (h : d.Promises pool source)
    {name : String} (hlabels : (Assembly.labels source.body).Nodup) (hfresh : d.labels.lookup name = none) :
    (Assembly.labels (source.body ++ [.label name])).Nodup := by
  have hnew : name ∉ Assembly.labels source.body := by
    rw [mem_labels]
    rintro ⟨place, hplace⟩
    cases hfresh.symm.trans ((h.labels name place).2 hplace)
  rw [labels_concat]
  exact List.nodup_append.2 ⟨hlabels, List.pairwise_singleton _ _, by
    rintro label hlabel other hother rfl
    exact hnew (List.mem_singleton.1 hother ▸ hlabel)⟩

theorem MethodDraft.Promises.instruction {source : MethodSource} {d : MethodDraft} (h : d.Promises pool source)
    {i : InstructionSource} {draft : Draft} (hdraft : draft.Promises pool i) :
    MethodDraft.Promises pool { source with body := source.body ++ [.instruction i] }
      { d with code := d.code.push draft } :=
  { h with
    code := by
      rw [instructions_concat, Array.toList_push]
      exact List.rel_append h.code (.cons hdraft .nil)
    labels := by
      intro label place
      rw [h.labels, standsAt_concat]
      simp }

def DefinitionDraft.Promises (pool : Pool) (source : DefinitionSource) (d : DefinitionDraft) : Prop :=
  ∀ (final : State) (result : Definition), pool.Stays final.pool → final.resolveDefinition d = .ok result →
    source.Becomes final.pool.constants final.methodNames.toList result

section Growth

variable (h : pool.Stays pool')
include h

theorem Draft.Promises.grow {source : InstructionSource} {d : Draft} (hd : d.Promises pool source) :
    d.Promises pool' source :=
  fun final labels i hpool => hd final labels i (h.trans hpool)

theorem MethodDraft.Promises.grow {source : MethodSource} {d : MethodDraft} (hd : d.Promises pool source) :
    d.Promises pool' source :=
  { hd with
    name := h _ _ hd.name
    code := hd.code.imp fun _ _ => Draft.Promises.grow h }

theorem DefinitionDraft.Promises.grow {source : DefinitionSource} {d : DefinitionDraft}
    (hd : d.Promises pool source) : d.Promises pool' source :=
  fun final result hpool => hd final result (h.trans hpool)

end Growth

/-- The operand of a closure is a method. -/
theorem newFunction_eq {opcode : Opcode} (h : opcode.kind = .method) (n : Nat) :
    .newFunction n = opcode.withOperand n := by
  cases opcode <;> first | rfl | nomatch h

theorem resolveMethod_eq_ok {name : String} {index : Nat} (h : s.resolveMethod name line = .ok index) :
    s.methodNames.toList[index]? = some name := by
  unfold State.resolveMethod State.methodIndex? at h
  cases hfind : s.methodNames.findIdx? (· = name) with
  | none =>
    rw [hfind] at h
    cases h
  | some found =>
    rw [hfind] at h
    obtain rfl := Except.ok.inj h
    obtain ⟨hlt, hname, _⟩ := Array.findIdx?_eq_some_iff_getElem.1 hfind
    rw [Array.getElem?_toList, Array.getElem?_eq_getElem hlt, of_decide_eq_true hname]

/-- A constant that is drafted is at its index from then on. -/
theorem becomes_placeConstant (hs : s.pool.Agrees) {opcode : Opcode} {c : Constant} {i : Instruction}
    (hpool : (s.placeConstant opcode c).2.pool.Stays final.pool)
    (hi : final.resolve labels' (s.placeConstant opcode c).1 = .ok i) :
    ∃ n, i = opcode.withOperand n ∧ final.pool.constants[n]? = some c :=
  ⟨(s.intern c).1, (Except.ok.inj hi).symm, hpool _ _ (hs.getElem?_intern c)⟩

theorem becomes_place (hs : s.pool.Agrees) {opcode : Opcode} {kind : OperandKind} (hkind : opcode.kind = kind)
    (operand : Operand kind) {i : Instruction} (hpool : (s.place line opcode operand).2.pool.Stays final.pool)
    (hi : final.resolve labels' (s.place line opcode operand).1 = .ok i) :
    ∃ n, i = opcode.withOperand n ∧
      operand.Means final.pool.constants final.methodNames.toList (fun l n => labels'.lookup l = some n) n := by
  cases operand with
  | none | slot n | count n | place n => exact ⟨_, (Except.ok.inj hi).symm, rfl⟩
  | int n | double x | string t | name t => exact becomes_placeConstant hs hpool hi
  | label l =>
    simp only [State.place, State.resolve] at hi
    cases hlookup : labels'.lookup l with
    | none =>
      rw [hlookup] at hi
      cases hi
    | some target =>
      rw [hlookup] at hi
      exact ⟨target, (Except.ok.inj hi).symm, hlookup⟩
  | method m =>
    obtain ⟨index, hresolve, rfl⟩ := Except.map_eq_ok.1 hi
    exact ⟨index, newFunction_eq hkind index, resolveMethod_eq_ok hresolve⟩

theorem promises_place (hs : s.pool.Agrees) (i : InstructionSource) :
    (s.place line i.opcode i.operand).1.Promises (s.place line i.opcode i.operand).2.pool i :=
  fun _ _ _ hpool hi => becomes_place hs rfl i.operand hpool hi

/-- What is bound is at its index from then on, or is a method once all names are known. -/
theorem becomes_bind (hs : s.pool.Agrees) (binding : BindingSource) {name : Nat} {d : Definition}
    (hpool : (s.bind line binding).2.pool.Stays final.pool)
    (hd : final.resolveDefinition ⟨name, (s.bind line binding).1⟩ = .ok d) :
    d.name = name ∧ binding.Becomes final.pool.constants final.methodNames.toList d.binding := by
  rcases binding with (_ | c) | method
  · obtain rfl := Except.ok.inj hd
    exact ⟨rfl, rfl⟩
  · obtain rfl := Except.ok.inj hd
    exact ⟨rfl, (s.intern c).1, rfl, hpool _ _ (hs.getElem?_intern c)⟩
  · obtain ⟨index, hresolve, rfl⟩ := Except.map_eq_ok.1 hd
    exact ⟨rfl, index, rfl, resolveMethod_eq_ok hresolve⟩

theorem promises_define (hs : s.pool.Agrees) (source : DefinitionSource) :
    (s.define line source).1.Promises (s.define line source).2.pool source := by
  have hnamed : (s.intern (.string source.name)).2.pool.Agrees := hs.intern _
  have hgrown : (s.intern (.string source.name)).2.pool.Stays (s.define line source).2.pool := by
    rw [define_snd]
    exact Pool.stays_enter _ _
  intro final d hpool hd
  obtain ⟨hname, hbinding⟩ := becomes_bind hnamed source.binding hpool hd
  refine ⟨?_, hbinding⟩
  rw [hname]
  exact hpool _ _ (hgrown _ _ (hs.getElem?_intern _))

/-! ## Progress -/

/-- How much of a listing has been read: some declarations, and maybe a part of one more method. -/
structure Progress where
  done : Listing
  part : Option MethodSource

namespace Progress

variable (p : Progress)

def statements : List Statement :=
  p.done.statements ++ match p.part with
    | none => []
    | some source => .opening source.toHeading :: source.body.map .entry

def methods : List MethodSource :=
  p.done.methods ++ p.part.toList

/-- The tables hold what the declarations say. -/
structure Drafted (pool : Pool) (s : State) : Prop where
  methods : List.Forall₂ (MethodDraft.Promises pool) p.done.methods s.methods.toList
  part : Option.Rel (fun source opened => MethodDraft.Promises pool source opened.1) p.part s.current
  definitions : List.Forall₂ (DefinitionDraft.Promises pool) p.done.definitions s.definitions.toList

structure Reached (s : State) : Prop extends p.Drafted s.pool s where
  agrees : s.pool.Agrees
  methodNames : s.methodNames.toList = p.methods.map (·.name)
  init : p.done.inits = (s.init.map Prod.fst).toList
  sound : Sound p.methods

end Progress

variable {p : Progress}

theorem Progress.Drafted.grow (h : pool.Stays pool') (hp : p.Drafted pool s) : p.Drafted pool' s where
  methods := hp.methods.imp fun _ _ => MethodDraft.Promises.grow h
  part := by
    have hpart := hp.part
    generalize p.part = part, s.current = current at hpart ⊢
    cases hpart with
    | none => exact .none
    | some hpart => exact .some (hpart.grow h)
  definitions := hp.definitions.imp fun _ _ => DefinitionDraft.Promises.grow h

/-! ## Methods with their labels -/

section Sound

variable {methods : List MethodSource} {source : MethodSource}

/-- A method with a new name is opened. -/
theorem Sound.opening (h : Sound methods) {heading : Heading} (hfresh : heading.name ∉ methods.map (·.name))
    (hroom : heading.params ≤ heading.locals) : Sound (methods ++ [⟨heading, []⟩]) where
  names := by
    rw [List.map_append, List.map_singleton, List.nodup_append]
    refine ⟨h.names, List.pairwise_singleton _ _, fun name hname other hother heq => hfresh ?_⟩
    rwa [heq, List.mem_singleton.1 hother] at hname
  room := List.forall_mem_append.2 ⟨h.room, List.forall_mem_singleton.2 hroom⟩
  labels := List.forall_mem_append.2 ⟨h.labels, List.forall_mem_singleton.2 List.nodup_nil⟩

/-- The open method gets another line. -/
theorem Sound.entry (h : Sound (methods ++ [source])) {body : List Entry}
    (hlabels : (Assembly.labels body).Nodup) :
    Sound (methods ++ [{ source with body }]) where
  names := by simpa only [List.map_append, List.map_singleton] using h.names
  room := by
    obtain ⟨hrest, hroom⟩ := List.forall_mem_append.1 h.room
    refine List.forall_mem_append.2 ⟨hrest, List.forall_mem_singleton.2 ?_⟩
    exact hroom source (List.mem_singleton_self source)
  labels := by
    obtain ⟨hrest, _⟩ := List.forall_mem_append.1 h.labels
    exact List.forall_mem_append.2 ⟨hrest, List.forall_mem_singleton.2 hlabels⟩

end Sound

/-! ## Statements -/

namespace Progress.Reached

variable {method : MethodDraft} {start : Nat}

theorem closed_of (h : p.Reached s) (hclosed : s.current = none) : p.part = none := by
  have hpart := h.part
  rw [hclosed] at hpart
  cases hrest : p.part with
  | none => rfl
  | some source =>
    rw [hrest] at hpart
    cases hpart

theorem inside_of (h : p.Reached s) (hinside : s.current = some (method, start)) :
    ∃ source, p.part = some source ∧ method.Promises s.pool source := by
  have hpart := h.part
  rw [hinside] at hpart
  cases hrest : p.part with
  | none =>
    rw [hrest] at hpart
    cases hpart
  | some source =>
    rw [hrest] at hpart
    cases hpart with
    | some hmethod => exact ⟨source, rfl, hmethod⟩

theorem of_opening {done : Listing} (h : (Progress.mk done none).Reached s) {heading : Heading}
    (hfresh : heading.name ∉ s.methodNames) (hroom : heading.params ≤ heading.locals) :
    (Progress.mk done (some ⟨heading, []⟩)).Reached (s.opened line heading) where
  toDrafted :=
    { h.toDrafted.grow (s.pool.stays_intern (.string heading.name)) with
      part := .some {
        name := h.agrees.getElem?_intern _
        params := rfl
        locals := rfl
        code := .nil
        labels := fun label place => iff_of_false (fun hnone => nomatch hnone) standsAt_nil } }
  agrees := h.agrees.intern _
  methodNames := by
    have hnames := h.methodNames
    simp only [Progress.methods, Option.toList_none, List.append_nil] at hnames
    simp [Progress.methods, State.opened, State.intern, hnames]
  init := h.init
  sound := by
    have hsound := h.sound
    have hnames := h.methodNames
    simp only [Progress.methods, Option.toList_none, List.append_nil] at hsound hnames
    refine hsound.opening ?_ hroom
    rwa [← hnames, Array.mem_toList_iff]

/-- The open method gets another line. -/
theorem of_entry {done : Listing} {source : MethodSource} {body : List Entry} {pool : Pool} (start : Nat)
    (h : (Progress.mk done (some source)).Reached s) (hpool : s.pool.Stays pool) (hagrees : pool.Agrees)
    (hmethod : method.Promises pool { source with body }) (hlabels : (Assembly.labels body).Nodup) :
    (Progress.mk done (some { source with body })).Reached { s with pool, current := some (method, start) } where
  toDrafted := { h.toDrafted.grow hpool with part := .some hmethod }
  agrees := hagrees
  methodNames := by simpa [Progress.methods] using h.methodNames
  init := h.init
  sound := h.sound.entry hlabels

theorem nodup_labels {done : Listing} {source : MethodSource} (h : (Progress.mk done (some source)).Reached s) :
    (Assembly.labels source.body).Nodup :=
  h.sound.labels source (by simp [Progress.methods])

theorem of_closing {done : Listing} {source : MethodSource} (h : (Progress.mk done (some source)).Reached s)
    (hmethod : method.Promises s.pool source) :
    (Progress.mk (done ++ [.method source]) none).Reached
      { s with methods := s.methods.push method, current := none } where
  methods := by
    simp only [Listing.methods_concat, Declaration.method?, Option.toList_some, Array.toList_push]
    exact List.rel_append h.methods (.cons hmethod .nil)
  part := .none
  definitions := by simpa using h.definitions
  agrees := h.agrees
  methodNames := by simpa [Progress.methods] using h.methodNames
  init := by simpa using h.init
  sound := by simpa [Progress.methods] using h.sound

theorem of_definition {done : Listing} (h : (Progress.mk done none).Reached s) (d : DefinitionSource) :
    (Progress.mk (done ++ [.definition d]) none).Reached
      { (s.define line d).2 with
        definitions := (s.define line d).2.definitions.push (s.define line d).1 } where
  toDrafted := by
    have hdraft : (s.define line d).1.Promises (s.define line d).2.pool d := promises_define h.agrees d
    have hpool : s.pool.Stays (s.define line d).2.pool := by
      rw [define_snd]
      exact Pool.stays_enter _ _
    have hgrown := h.toDrafted.grow hpool
    exact {
      methods := by simpa using hgrown.methods
      part := by simpa using hgrown.part
      definitions := by
        simp only [Listing.definitions_concat, Declaration.definition?, Option.toList_some, Array.toList_push,
          define_snd] at hgrown hdraft ⊢
        exact List.rel_append hgrown.definitions (.cons hdraft .nil) }
  agrees := by
    rw [define_snd]
    exact h.agrees.enter _
  methodNames := by simpa [Progress.methods] using h.methodNames
  init := by simpa using h.init
  sound := by simpa [Progress.methods] using h.sound

theorem of_init {done : Listing} (h : (Progress.mk done none).Reached s) {name : String} (hfirst : s.init = none) :
    (Progress.mk (done ++ [.init name]) none).Reached { s with init := some (name, line) } where
  methods := by simpa using h.methods
  part := h.part
  definitions := by simpa using h.definitions
  agrees := h.agrees
  methodNames := by simpa [Progress.methods] using h.methodNames
  init := by
    have hnone := h.init
    rw [hfirst] at hnone
    simpa using hnone
  sound := by simpa [Progress.methods] using h.sound

/-- One more statement is read. -/
theorem takes {statement : Statement} (h : p.Reached s) (ht : s.Takes line statement s') :
    ∃ p' : Progress, p'.statements = p.statements ++ [statement] ∧ p'.Reached s' := by
  obtain ⟨done, part⟩ := p
  -- The pool has only grown, so what the drafts have promised so far they still promise.
  have hpool : s.pool.Stays s'.pool := ht.stays
  have hagrees : s'.pool.Agrees := by
    rw [ht.pool_eq]
    exact h.agrees.enter _
  cases ht with
  | opening closed fresh room =>
    obtain rfl : part = none := h.closed_of closed
    exact ⟨⟨done, some ⟨_, []⟩⟩, by simp [Progress.statements], h.of_opening fresh room⟩
  | label inside fresh =>
    obtain ⟨source, rfl, hmethod⟩ := h.inside_of inside
    refine ⟨⟨done, some { source with body := source.body ++ [.label _] }⟩, ?_,
      of_entry _ h (.refl s.pool) h.agrees (hmethod.label fresh) (hmethod.nodup_label h.nodup_labels fresh)⟩
    simp [Progress.statements]
  | @instruction method start i inside =>
    obtain ⟨source, rfl, hmethod⟩ := h.inside_of inside
    refine ⟨⟨done, some { source with body := source.body ++ [.instruction i] }⟩, ?_, ?_⟩
    · simp [Progress.statements]
    · have hnext := (hmethod.grow hpool).instruction (promises_place h.agrees i)
      have hlabels : (Assembly.labels (source.body ++ [.instruction i])).Nodup := by
        simpa [labels_concat, Entry.label?] using h.nodup_labels
      have hreached := of_entry start h hpool hagrees hnext hlabels
      simp only [place_snd] at hreached ⊢
      exact hreached
  | closing inside =>
    obtain ⟨source, rfl, hmethod⟩ := h.inside_of inside
    refine ⟨⟨done ++ [.method source], none⟩, ?_, h.of_closing hmethod⟩
    simp [Progress.statements, Listing.statements_concat, Declaration.statements]
  | definition closed =>
    obtain rfl : part = none := h.closed_of closed
    refine ⟨⟨done ++ [.definition _], none⟩, ?_, h.of_definition _⟩
    simp [Progress.statements, Listing.statements_concat, Declaration.statements]
  | init closed first =>
    obtain rfl : part = none := h.closed_of closed
    refine ⟨⟨done ++ [.init _], none⟩, ?_, h.of_init first⟩
    simp [Progress.statements, Listing.statements_concat, Declaration.statements]

/-- All statements are read, from the first to the last. -/
theorem accepts {statements : List Statement} (h : p.Reached s) (hs : s.Accepts statements s') :
    ∃ p' : Progress, p'.statements = p.statements ++ statements ∧ p'.Reached s' := by
  induction hs generalizing p with
  | nil => exact ⟨p, (List.append_nil _).symm, h⟩
  | cons head _ ih =>
    obtain ⟨p₁, hfirst, h₁⟩ := h.takes head
    obtain ⟨p', hrest, h'⟩ := ih h₁
    refine ⟨p', ?_, h'⟩
    rw [hrest, hfirst, List.append_assoc, List.singleton_append]

theorem empty : (Progress.mk [] none).Reached {} where
  methods := .nil
  part := .none
  definitions := .nil
  agrees := Pool.agrees_empty
  methodNames := rfl
  init := rfl
  sound := ⟨List.nodup_nil, List.forall_mem_nil _, List.forall_mem_nil _⟩

end Progress.Reached

/-! ## Resolution -/

theorem forall₂_mapM {α β γ ε : Type} {R : α → β → Prop} {S : α → γ → Prop} {f : β → Except ε γ} {xs : List α}
    {drafts : List β} {results : List γ} (h : List.Forall₂ R xs drafts) (hresults : drafts.mapM f = .ok results)
    (hstep : ∀ x draft result, R x draft → f draft = .ok result → S x result) : List.Forall₂ S xs results := by
  induction h generalizing results with
  | nil =>
    obtain rfl := Except.ok.inj hresults
    exact .nil
  | cons hhead _ ih =>
    rw [List.mapM_cons] at hresults
    obtain ⟨result, hresult, hresults⟩ := Except.bind_eq_ok.1 hresults
    obtain ⟨rest, hrest, hpure⟩ := Except.bind_eq_ok.1 hresults
    obtain rfl := Except.ok.inj hpure
    exact .cons (hstep _ _ _ hhead hresult) (ih hrest)

theorem MethodDraft.Promises.becomes {source : MethodSource} {d : MethodDraft} {method : Method}
    (h : d.Promises s.pool source) (hmethod : s.resolveCode d = .ok method) :
    source.Becomes s.pool.constants s.methodNames.toList method := by
  obtain ⟨code, hcode, hpure⟩ := Except.bind_eq_ok.1 hmethod
  obtain rfl := Except.ok.inj hpure
  have hplaces : (fun label place => d.labels.lookup label = some place) = StandsAt source.body := by
    funext label place
    exact propext (h.labels label place)
  exact {
    name := h.name
    params := h.params
    locals := h.locals
    code := by
      refine forall₂_mapM h.code hcode fun i draft result hdraft hresult => ?_
      rw [← hplaces]
      exact hdraft s d.labels result (.refl s.pool) hresult }

/-- The text ends outside of the methods, with an initializer. -/
theorem finish_eq_ok {label : String} {lastLine : Nat} {m : Module} (h : s.finish label lastLine = .ok m) :
    s.current = none ∧ (m.majorVersion = supportedMajor ∧ m.minorVersion = supportedMinor) ∧
      m.constants = s.pool.constants ∧
      (∃ name line, s.init = some (name, line) ∧ s.resolveMethod name line = .ok m.init) ∧
      s.methods.toList.mapM s.resolveCode = .ok m.methods.toList ∧
      s.definitions.toList.mapM s.resolveDefinition = .ok m.definitions := by
  unfold State.finish at h
  cases hcurrent : s.current with
  | some opened =>
    rw [hcurrent] at h
    cases h
  | none =>
    cases hinit : s.init with
    | none =>
      rw [hcurrent, hinit] at h
      cases h
    | some init =>
      simp only [hcurrent, hinit] at h
      obtain ⟨index, hindex, h⟩ := Except.bind_eq_ok.1 h
      obtain ⟨methods, hmethods, h⟩ := Except.bind_eq_ok.1 h
      obtain ⟨definitions, hdefinitions, hpure⟩ := Except.bind_eq_ok.1 h
      obtain rfl := Except.ok.inj hpure
      exact ⟨rfl, ⟨rfl, rfl⟩, rfl, ⟨_, _, rfl, hindex⟩, hmethods, hdefinitions⟩

/-- What is assembled is what the listing says. -/
theorem Progress.Reached.becomes {label : String} {lastLine : Nat} {m : Module} (h : p.Reached s)
    (hpool : s.pool = .after (p.statements.flatMap Statement.uses)) (hm : s.finish label lastLine = .ok m) :
    p.statements = p.done.statements ∧ Sound p.done.methods ∧ p.done.Becomes m := by
  obtain ⟨hclosed, hversion, hconstants, ⟨name, line, hinit, hindex⟩, hmethods, hdefinitions⟩ := finish_eq_ok hm
  obtain ⟨done, part⟩ := p
  obtain rfl : part = none := h.closed_of hclosed
  have hstatements : (Progress.mk done none).statements = done.statements := List.append_nil _
  have hlisted : (Progress.mk done none).methods = done.methods := List.append_nil _
  have hnames : s.methodNames.toList = done.names := by
    rw [h.methodNames, hlisted]
    rfl
  refine ⟨hstatements, hlisted ▸ h.sound, hversion, ?_, ?_, ?_, name, ?_, ?_⟩
  · rw [hconstants, hpool, Pool.constants_after, hstatements]
    rfl
  · rw [hconstants, ← hnames]
    exact forall₂_mapM h.methods hmethods fun source d method hd hmethod => hd.becomes hmethod
  · rw [hconstants, ← hnames]
    exact forall₂_mapM h.definitions hdefinitions fun source d result hd hresult => hd s result (.refl s.pool) hresult
  · rw [h.init, hinit]
    rfl
  · rw [← hnames]
    exact resolveMethod_eq_ok hindex

end MovieVm.Bytecode.Assembly

namespace MovieVm.Bytecode

open Assembly

/-- Whatever is assembled has a listing, and is what it says. -/
theorem Module.listing_of_assemble {source label : String} {m : Module} (h : Module.assemble source label = .ok m) :
    ∃ listing, Declares source listing ∧ Sound listing.methods ∧ listing.Becomes m := by
  obtain ⟨s, hlines, hfinish⟩ := Except.bind_eq_ok.1 h
  obtain ⟨statements, hsay, haccepts⟩ := addLines_eq_ok hlines
  obtain ⟨p, hstatements, hreached⟩ := Progress.Reached.empty.accepts haccepts
  have hsame : p.statements = statements := hstatements.trans (List.nil_append _)
  have hpool : s.pool = .after (p.statements.flatMap Statement.uses) := by
    rw [hsame]
    exact haccepts.pool_eq
  obtain ⟨hdone, hsound, hbecomes⟩ := hreached.becomes hpool hfinish
  refine ⟨p.done, ?_, hsound, hbecomes⟩
  rw [Declares, ← hdone, hsame]
  exact hsay

end MovieVm.Bytecode
