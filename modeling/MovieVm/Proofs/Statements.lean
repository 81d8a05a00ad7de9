import MovieVm.Proofs.ConstantPool
import MovieVm.Proofs.Listing
import MovieVm.Proofs.Success

/-!
# What a line does

The assembler takes a line after the other. A line that it accepts says something, and what it does to the tables is
told by what it says.
-/

namespace MovieVm.Bytecode.Assembly

open Text

variable {s s' : State} {line start : Nat} {method : MethodDraft}

/-! ## Effects -/

namespace State

def placeConstant (s : State) (opcode : Opcode) (c : Constant) : Draft × State :=
  let (index, s) := s.intern c
  (.ready (opcode.withOperand index), s)

/-- The draft of an instruction; the constant that it uses enters the pool. -/
def place (s : State) (line : Nat) (opcode : Opcode) : Operand kind → Draft × State
  | .none => (.ready (opcode.withOperand 0), s)
  | .int n => s.placeConstant opcode (.int n)
  | .double x => s.placeConstant opcode (.double x)
  | .string t | .name t => s.placeConstant opcode (.string t)
  | .slot n | .count n | .place n => (.ready (opcode.withOperand n), s)
  | .label l => (.branch opcode l line, s)
  | .method m => (.closure m line, s)

def bind (s : State) (line : Nat) : BindingSource → BindingDraft × State
  | .slot none => (.slot none, s)
  | .slot (some c) =>
    let (index, s) := s.intern c
    (.slot (some index), s)
  | .method name => (.method name line, s)

/-- The draft of a definition; its name enters the pool first. -/
def define (s : State) (line : Nat) (d : DefinitionSource) : DefinitionDraft × State :=
  let (name, s) := s.intern (.string d.name)
  let (binding, s) := s.bind line d.binding
  (⟨name, binding⟩, s)

def opened (s : State) (line : Nat) (heading : Heading) : State :=
  let (name, s) := s.intern (.string heading.name)
  { s with
    methodNames := s.methodNames.push heading.name
    current := some ({ name, params := heading.params, locals := heading.locals }, line) }

/-- The statement of a line is accepted, and leads from one state to another. -/
inductive Takes (line : Nat) : State → Statement → State → Prop where
  | opening {s : State} {heading : Heading} (closed : s.current = none) (fresh : heading.name ∉ s.methodNames)
      (room : heading.params ≤ heading.locals) : Takes line s (.opening heading) (s.opened line heading)
  | label {s : State} {method : MethodDraft} {start : Nat} {name : String}
      (inside : s.current = some (method, start)) (fresh : method.labels.lookup name = none) :
      Takes line s (.entry (.label name))
        { s with current := some ({ method with labels := (name, method.code.size) :: method.labels }, start) }
  | instruction {s : State} {method : MethodDraft} {start : Nat} {i : InstructionSource}
      (inside : s.current = some (method, start)) :
      Takes line s (.entry (.instruction i))
        { (s.place line i.opcode i.operand).2 with
          current := some ({ method with code := method.code.push (s.place line i.opcode i.operand).1 }, start) }
  | closing {s : State} {method : MethodDraft} {start : Nat} (inside : s.current = some (method, start)) :
      Takes line s .closing { s with methods := s.methods.push method, current := none }
  | definition {s : State} {d : DefinitionSource} (closed : s.current = none) :
      Takes line s (.definition d)
        { (s.define line d).2 with definitions := (s.define line d).2.definitions.push (s.define line d).1 }
  | init {s : State} {name : String} (closed : s.current = none) (first : s.init = none) :
      Takes line s (.init name) { s with init := some (name, line) }

end State

/-! ## The pool -/

@[simp]
theorem place_snd {kind : OperandKind} (opcode : Opcode) (operand : Operand kind) :
    (s.place line opcode operand).2 = { s with pool := s.pool.enter operand.constant?.toList } := by
  cases operand <;> rfl

@[simp]
theorem bind_snd (binding : BindingSource) :
    (s.bind line binding).2 = { s with pool := s.pool.enter binding.constant?.toList } := by
  rcases binding with (_ | c) | name <;> rfl

@[simp]
theorem define_snd (d : DefinitionSource) : (s.define line d).2 =
    { s with pool := s.pool.enter (.string d.name :: d.binding.constant?.toList) } := by
  simp only [State.define, bind_snd]
  rfl

/-- The constants that a line uses enter the pool from left to right. -/
theorem State.Takes.pool_eq {statement : Statement} (h : s.Takes line statement s') :
    s'.pool = s.pool.enter statement.uses := by
  cases h with
  | opening => rfl
  | label => rfl
  | instruction => simp only [place_snd, Statement.uses]
  | closing => rfl
  | definition => simp only [define_snd, Statement.uses]
  | init => rfl

theorem State.Takes.stays {statement : Statement} (h : s.Takes line statement s') : s.pool.Stays s'.pool := by
  rw [h.pool_eq]
  exact Pool.stays_enter _ _

/-! ## Lines of a method -/

/-- An operand is read, and then drafted as it says. -/
theorem draft_eq_ok {opcode : Opcode} {kind : OperandKind} {text : List Char} {result : Draft × State}
    (hkind : opcode.kind = kind) (hne : kind ≠ .none) (h : s.draft line opcode text = .ok result) :
    ∃ operand : Operand kind, Operand.read? kind (some text) = some operand ∧
      s.place line opcode operand = result := by
  unfold State.draft at h
  rw [hkind] at h
  cases kind with
  | none => exact absurd rfl hne
  | intConstant | doubleConstant | stringConstant | name | «local» | count | method =>
    obtain ⟨value, hread, hpure⟩ := Except.bind_eq_ok.1 h
    refine ⟨_, congrArg (Option.map _) (Except.toOption_eq_some hread), ?_⟩
    exact Except.ok.inj hpure
  | target =>
    simp only at h
    cases hnumber : Decimal.readNat? (0x100000000) text with
    | some n =>
      rw [hnumber] at h
      refine ⟨.place n, ?_, Except.ok.inj h⟩
      simp only [Operand.read?, hnumber]
    | none =>
      rw [hnumber] at h
      refine ⟨.label (String.ofList text), ?_, Except.ok.inj h⟩
      simp only [Operand.read?, hnumber]

theorem addInstruction_eq_ok {mnemonic : List Char} {operand : Option (List Char)} {result : Draft × State}
    (h : s.addInstruction line mnemonic operand = .ok result) :
    ∃ i : InstructionSource, Entry.ofLine? (.instruction mnemonic operand) = some (.instruction i) ∧
      s.place line i.opcode i.operand = result := by
  unfold State.addInstruction at h
  cases hopcode : Opcode.ofMnemonic? (String.ofList mnemonic) with
  | none =>
    rw [hopcode] at h
    cases h
  | some opcode =>
    simp only [hopcode] at h
    -- It is enough to read the operand, once there is an opcode.
    suffices ∃ read : Operand opcode.kind, Operand.read? opcode.kind operand = some read ∧
        s.place line opcode read = result by
      obtain ⟨read, hread, hplace⟩ := this
      refine ⟨⟨opcode, read⟩, ?_, hplace⟩
      simp only [Entry.ofLine?, hopcode, Option.bind_some, hread, Option.map_some]
    cases operand with
    | none =>
      simp only at h
      split at h
      case isTrue hkind =>
        rw [hkind]
        exact ⟨.none, rfl, Except.ok.inj h⟩
      case isFalse => cases h
    | some text =>
      simp only at h
      split at h
      case isTrue => cases h
      case isFalse hkind => exact draft_eq_ok rfl hkind h

theorem after?_eq_none {c : Char} {fixed text : List Char} (h : text.head? ≠ some c) :
    after? (c :: fixed) text = none := by
  cases text with
  | nil => rfl
  | cons first rest =>
    have hne : c ≠ first := fun heq => h (heq ▸ rfl)
    exact if_neg hne

/-- Every directive begins with a dot. -/
theorem read?_eq_none_of_head {text : List Char} (h : text.head? ≠ some '.') : Directive.read? text = none := by
  have hkeyword : ∀ {keyword : String} {fixed : List Char}, keyword.toList = '.' :: fixed →
      afterKeyword? keyword text = none := by
    intro keyword fixed hfixed
    rw [afterKeyword?, hfixed, after?_eq_none h]
    rfl
  have hmethod : readMethod? text = none := by
    rw [readMethod?, hkeyword rfl]
    rfl
  have hslot : readSlot? text = none := by
    rw [readSlot?, hkeyword rfl]
    rfl
  have hfunction : readFunction? text = none := by
    rw [readFunction?, hkeyword rfl]
    rfl
  have hinit : readInit? text = none := by
    rw [readInit?, hkeyword rfl]
    rfl
  rw [Directive.read?, hmethod, hslot, hfunction, hinit]
  rfl

theorem addBodyLine_eq_ok {text : List Char} (hinside : s.current = some (method, start))
    (h : s.addBodyLine line method start text = .ok s') :
    ∃ statement, Statement.read? text = some statement ∧ s.Takes line statement s' := by
  unfold State.addBodyLine at h
  split at h
  case isTrue hend =>
    obtain rfl := Except.ok.inj h
    exact ⟨.closing, if_pos hend, .closing hinside⟩
  case isFalse hend =>
    split at h
    case isTrue => cases h
    case isFalse hhead =>
      -- A line that begins with a dot is refused within a method, so this one is no directive.
      have hread : Statement.read? text = ((BodyLine.read? text).bind Entry.ofLine?).map .entry := by
        rw [Statement.read?, if_neg hend, read?_eq_none_of_head hhead]
      rw [hread]
      rcases hbody : BodyLine.read? text with _ | name | ⟨mnemonic, operand⟩
      · rw [hbody] at h
        cases h
      · simp only [hbody] at h
        split at h
        case isTrue => cases h
        case isFalse hfresh =>
          obtain rfl := Except.ok.inj h
          exact ⟨_, rfl, .label hinside (Option.not_isSome_iff_eq_none.1 hfresh)⟩
      · rw [hbody] at h
        obtain ⟨result, hadd, hpure⟩ := Except.bind_eq_ok.1 h
        obtain ⟨i, hi, rfl⟩ := addInstruction_eq_ok hadd
        obtain rfl := Except.ok.inj hpure
        exact ⟨.entry (.instruction i), by rw [Option.bind_some, hi, Option.map_some], .instruction hinside⟩

/-! ## Lines outside of the methods -/

theorem openMethod_eq_ok {name : List Char} {params locals : Option (List Char)} (hclosed : s.current = none)
    (h : s.openMethod line name params locals = .ok s') :
    ∃ statement, Statement.ofDirective? (.method name params locals) = some statement ∧
      s.Takes line statement s' := by
  obtain ⟨name, hname, h⟩ := Except.bind_eq_ok.1 h
  obtain ⟨hfresh, h⟩ := Except.refuse_eq_ok.1 h
  obtain ⟨params, hparams, h⟩ := Except.bind_eq_ok.1 h
  obtain ⟨locals, hlocals, h⟩ := Except.bind_eq_ok.1 h
  obtain ⟨hroom, hpure⟩ := Except.refuse_eq_ok.1 h
  obtain rfl := Except.ok.inj hpure
  refine ⟨.opening ⟨name, params, locals⟩, ?_, .opening hclosed ?_ (Nat.le_of_not_lt hroom)⟩
  · simp [Statement.ofDirective?, Except.toOption_eq_some hname, Except.toOption_eq_some hparams,
      Except.toOption_eq_some hlocals]
  · simpa using hfresh

theorem slotValue_eq_ok (line : Nat) {kind : SlotKind} {text : Option (List Char)} {result : Option Nat × State}
    (h : s.slotValue kind text = .ok result) :
    ∃ value, readValue? kind text = some value ∧ s.bind line (.slot value) = (.slot result.1, result.2) := by
  unfold State.slotValue at h
  split at h
  case h_1 =>
    obtain rfl := Except.ok.inj h
    exact ⟨none, rfl, rfl⟩
  case h_2 | h_3 | h_4 =>
    obtain ⟨value, hread, hpure⟩ := Except.bind_eq_ok.1 h
    obtain rfl := Except.ok.inj hpure
    exact ⟨_, congrArg (Option.map _) (Except.toOption_eq_some hread), rfl⟩
  case h_5 => cases h

theorem addDirective_eq_ok {directive : Directive} (hclosed : s.current = none)
    (h : s.addDirective line directive = .ok s') :
    ∃ statement, Statement.ofDirective? directive = some statement ∧ s.Takes line statement s' := by
  cases directive with
  | method name params locals => exact openMethod_eq_ok hclosed h
  | slot name kind text =>
    obtain ⟨name, hname, h⟩ := Except.bind_eq_ok.1 h
    cases hintern : s.intern (.string name) with
    | mk index s₁ =>
      rw [hintern] at h
      obtain ⟨⟨constant, s₂⟩, hvalue, hpure⟩ := Except.bind_eq_ok.1 h
      obtain ⟨value, hread, hbind⟩ := slotValue_eq_ok line hvalue
      obtain rfl := Except.ok.inj hpure
      refine ⟨.definition ⟨name, .slot value⟩, ?_, ?_⟩
      · simp [Statement.ofDirective?, Except.toOption_eq_some hname, hread]
      · have hdefine : s.define line ⟨name, .slot value⟩ = (⟨index, .slot constant⟩, s₂) := by
          simp only [State.define, hintern, hbind]
        have htakes : s.Takes line (.definition ⟨name, .slot value⟩) _ := .definition hclosed
        simpa only [hdefine] using htakes
  | function name method =>
    obtain ⟨name, hname, h⟩ := Except.bind_eq_ok.1 h
    obtain ⟨method, hmethod, hpure⟩ := Except.bind_eq_ok.1 h
    obtain rfl := Except.ok.inj hpure
    refine ⟨.definition ⟨name, .method method⟩, ?_, .definition hclosed⟩
    simp [Statement.ofDirective?, Except.toOption_eq_some hname, Except.toOption_eq_some hmethod]
  | init method =>
    obtain ⟨hfirst, h⟩ := Except.refuse_eq_ok.1 h
    obtain ⟨name, hname, hpure⟩ := Except.bind_eq_ok.1 h
    obtain rfl := Except.ok.inj hpure
    refine ⟨.init name, ?_, .init hclosed (Option.not_isSome_iff_eq_none.1 hfirst)⟩
    simp [Statement.ofDirective?, Except.toOption_eq_some hname]

/-- A line that is accepted is empty, or says what it does. -/
theorem addLine_eq_ok {text : List Char} (h : s.addLine line text = .ok s') :
    content text = [] ∧ s' = s ∨ content text ≠ [] ∧
      ∃ statement, Statement.read? (content text) = some statement ∧ s.Takes line statement s' := by
  unfold State.addLine at h
  by_cases hempty : content text = []
  · rw [hempty] at h
    exact .inl ⟨hempty, (Except.ok.inj h).symm⟩
  right
  refine ⟨hempty, ?_⟩
  simp only [List.isEmpty_iff, hempty, if_false] at h
  cases hcurrent : s.current with
  | some inside =>
    obtain ⟨method, start⟩ := inside
    rw [hcurrent] at h
    exact addBodyLine_eq_ok hcurrent h
  | none =>
    rw [hcurrent] at h
    cases hdirective : Directive.read? (content text) with
    | none =>
      simp only [hdirective] at h
      split at h <;> cases h
    | some directive =>
      simp only [hdirective] at h
      -- The end of a method is no directive, so it is refused here.
      have hend : content text ≠ ".end".toList := by
        intro heq
        rw [heq] at hdirective
        cases hdirective
      rw [Statement.read?, if_neg hend, hdirective]
      exact addDirective_eq_ok hcurrent h

/-! ## All lines -/

theorem addLines_append (s : State) (number : Nat) (first rest : List (List Char)) :
    s.addLines number (first ++ rest) =
      s.addLines number first >>= fun s' => s'.addLines (number + first.length) rest := by
  induction first generalizing s number with
  | nil => rfl
  | cons text first ih =>
    rw [List.cons_append, State.addLines, State.addLines]
    cases s.addLine number text with
    | error fault => rfl
    | ok s₁ => simp only [ih, List.length_cons, Nat.add_comm first.length, Nat.add_assoc]

/-- The statements are accepted one after the other, each at some line. -/
inductive State.Accepts : State → List Statement → State → Prop where
  | nil {s : State} : Accepts s [] s
  | cons {s s₁ s' : State} {line : Nat} {statement : Statement} {statements : List Statement}
      (head : s.Takes line statement s₁) (rest : s₁.Accepts statements s') : s.Accepts (statement :: statements) s'

theorem State.Accepts.pool_eq {statements : List Statement} (h : s.Accepts statements s') :
    s'.pool = s.pool.enter (statements.flatMap Statement.uses) := by
  induction h with
  | nil => rfl
  | cons head _ ih => rw [ih, head.pool_eq, List.flatMap_cons, Pool.enter_append]

theorem say_cons_of_empty {text : List Char} {texts : List (List Char)} {statements : List Statement}
    (hempty : content text = []) (h : Say texts statements) : Say (text :: texts) statements := by
  have hcontents : contents (text :: texts) = contents texts := by
    simp [contents, hempty]
  rwa [Say, hcontents]

theorem Say.cons {text : List Char} {texts : List (List Char)} {statement : Statement}
    {statements : List Statement} (hne : content text ≠ []) (hread : Statement.read? (content text) = some statement)
    (h : Say texts statements) : Say (text :: texts) (statement :: statements) := by
  have hcontents : contents (text :: texts) = content text :: contents texts := by
    simp [contents, hne]
  rw [Say, hcontents, List.map_cons, List.map_cons, hread, h]

/-- Lines that are accepted say what they do. -/
theorem addLines_eq_ok {texts : List (List Char)} (h : s.addLines line texts = .ok s') :
    ∃ statements, Say texts statements ∧ s.Accepts statements s' := by
  induction texts generalizing s line with
  | nil =>
    obtain rfl := Except.ok.inj h
    exact ⟨[], rfl, .nil⟩
  | cons text texts ih =>
    rw [State.addLines] at h
    cases hadd : s.addLine line text with
    | error fault =>
      rw [hadd] at h
      cases h
    | ok s₁ =>
      rw [hadd] at h
      obtain ⟨statements, hsay, haccepts⟩ := ih h
      rcases addLine_eq_ok hadd with ⟨hempty, rfl⟩ | ⟨hne, statement, hread, htakes⟩
      · exact ⟨statements, say_cons_of_empty hempty hsay, haccepts⟩
      · exact ⟨statement :: statements, hsay.cons hne hread, .cons htakes haccepts⟩

end MovieVm.Bytecode.Assembly
