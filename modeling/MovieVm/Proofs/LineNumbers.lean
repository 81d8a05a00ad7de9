import MovieVm.Bytecode.Assembly.Basic
import MovieVm.Proofs.Layout
import MovieVm.Proofs.Success

/-!
# Assembly without line numbers

The assembler keeps line numbers for its faults and for nothing else. Without them what it makes of a text follows
from the contents of the lines, so texts that differ in their layout are assembled alike.
-/

namespace MovieVm.Bytecode.Assembly

/-! ## States without lines -/

def Draft.unplaced : Draft → Draft
  | .ready i => .ready i
  | .branch opcode label _ => .branch opcode label 0
  | .closure method _ => .closure method 0

def MethodDraft.unplaced (d : MethodDraft) : MethodDraft :=
  { d with code := d.code.map Draft.unplaced }

def BindingDraft.unplaced : BindingDraft → BindingDraft
  | .slot constant => .slot constant
  | .method name _ => .method name 0

def DefinitionDraft.unplaced (d : DefinitionDraft) : DefinitionDraft :=
  { d with binding := d.binding.unplaced }

namespace State

/-- The state with all its line numbers set to zero. -/
def unplaced (s : State) : State :=
  { s with
    methods := s.methods.map MethodDraft.unplaced
    definitions := s.definitions.map DefinitionDraft.unplaced
    init := s.init.map fun (name, _) => (name, 0)
    current := s.current.map fun (method, _) => (method.unplaced, 0) }

variable (s : State) (line : Nat)

/-- A draft and the state behind it, without lines. -/
def unplacedDraft (result : Draft × State) : Draft × State :=
  (result.1.unplaced, result.2.unplaced)

theorem unplaced_intern (c : Constant) :
    s.unplaced.intern c = ((s.intern c).1, (s.intern c).2.unplaced) := rfl

theorem unplaced_draft (opcode : Opcode) (text : List Char) :
    (s.draft line opcode text).map unplacedDraft = s.unplaced.draft 0 opcode text := by
  unfold draft
  cases opcode.kind with
  | intConstant => cases readInt text <;> rfl
  | doubleConstant => cases readDouble text <;> rfl
  | stringConstant => cases readString text <;> rfl
  | name => cases readName text <;> rfl
  | «local» => cases readIndex text <;> rfl
  | count => cases readIndex text <;> rfl
  | target => dsimp only; cases Decimal.readNat? 0x100000000 text <;> rfl
  | method => cases readName text <;> rfl
  | none => rfl

theorem unplaced_addInstruction (mnemonic : List Char) (operand : Option (List Char)) :
    (s.addInstruction line mnemonic operand).map unplacedDraft = s.unplaced.addInstruction 0 mnemonic operand := by
  unfold addInstruction
  cases Opcode.ofMnemonic? (String.ofList mnemonic) with
  | none => rfl
  | some opcode =>
    cases operand with
    | none => dsimp only; split <;> rfl
    | some text =>
      dsimp only
      split
      · rfl
      · exact s.unplaced_draft line opcode text

theorem unplaced_addBodyLine (method : MethodDraft) (start : Nat) (text : List Char) :
    (s.addBodyLine line method start text).map unplaced =
      s.unplaced.addBodyLine 0 method.unplaced 0 text := by
  have hsize : method.unplaced.code.size = method.code.size := Array.size_map
  unfold addBodyLine
  split
  · simp [Except.map, unplaced]
  · split
    · rfl
    · cases BodyLine.read? text with
      | none => rfl
      | some read =>
        cases read with
        | label name =>
          dsimp only
          rw [hsize]
          -- The labels of the two methods are the same, so both sides decide on one condition.
          change Except.map unplaced (if (method.labels.lookup _).isSome = true then _ else _) =
            if (method.labels.lookup _).isSome = true then _ else _
          split <;> rfl
        | instruction mnemonic operand =>
          dsimp only
          rw [← unplaced_addInstruction s line]
          cases s.addInstruction line mnemonic operand with
          | error fault => rfl
          | ok result =>
            obtain ⟨draft, s'⟩ := result
            simp [Except.map, unplaced, unplacedDraft, MethodDraft.unplaced]

theorem unplaced_openMethod (name : List Char) (params locals : Option (List Char)) :
    (s.openMethod line name params locals).map unplaced = s.unplaced.openMethod 0 name params locals := by
  unfold openMethod
  cases readName name with
  | error fault => rfl
  | ok name =>
    change Except.map unplaced (if s.methodNames.contains name = true then _ else _) =
      if s.methodNames.contains name = true then _ else _
    split
    · rfl
    · cases readCount 0 params with
      | error fault => rfl
      | ok params =>
        change Except.map unplaced (readCount params locals >>= _) = readCount params locals >>= _
        cases readCount params locals with
        | error fault => rfl
        | ok locals =>
          change Except.map unplaced (if locals < params then _ else _) = if locals < params then _ else _
          split
          · rfl
          · simp [Except.map, unplaced, MethodDraft.unplaced, pure, Except.pure]

theorem unplaced_slotValue (kind : SlotKind) (text : Option (List Char)) :
    (s.slotValue kind text).map (fun result => (result.1, result.2.unplaced)) = s.unplaced.slotValue kind text := by
  cases kind <;> cases text with
  | none => rfl
  | some text =>
    unfold slotValue
    dsimp only
    first
    | rfl
    | cases readInt text <;> rfl
    | cases readDouble text <;> rfl
    | cases readString text <;> rfl

theorem unplaced_addDirective (directive : Directive) :
    (s.addDirective line directive).map unplaced = s.unplaced.addDirective 0 directive := by
  unfold addDirective
  cases directive with
  | method name params locals => exact s.unplaced_openMethod line name params locals
  | slot name kind value =>
    dsimp only
    cases readName name with
    | error fault => rfl
    | ok name =>
      simp only [Except.ok_bind, unplaced_intern]
      rw [← unplaced_slotValue]
      cases (s.intern (.string name)).2.slotValue kind value with
      | error fault => rfl
      | ok result =>
        simp [Except.map, unplaced, DefinitionDraft.unplaced, BindingDraft.unplaced, pure, Except.pure]
  | function name method =>
    dsimp only
    cases readName name with
    | error fault => rfl
    | ok name =>
      cases readName method with
      | error fault => rfl
      | ok method =>
        simp [Except.map, unplaced, DefinitionDraft.unplaced, BindingDraft.unplaced, intern, pure, Except.pure]
  | init method =>
    have hinit : s.unplaced.init.isSome = s.init.isSome := Option.isSome_map
    dsimp only
    rw [hinit]
    split
    · rfl
    · cases readName method <;> rfl

theorem unplaced_addLine (text : List Char) :
    (s.addLine line text).map unplaced = s.unplaced.addLine 0 text := by
  unfold addLine
  dsimp only
  split
  · rfl
  · cases hcurrent : s.current with
    | some opened =>
      obtain ⟨method, start⟩ := opened
      have hopened : s.unplaced.current = some (method.unplaced, 0) := by simp [unplaced, hcurrent]
      simp only [hopened, unplaced_addBodyLine]
    | none =>
      have hclosed : s.unplaced.current = none := by simp [unplaced, hcurrent]
      simp only [hclosed]
      cases Directive.read? (content text) with
      | some directive => exact s.unplaced_addDirective line directive
      | none => dsimp only; split <;> rfl

theorem addLine_content (text : List Char) : s.addLine line (content text) = s.addLine line text := by
  rw [addLine, addLine, content_content]

end State

/-! ## Faults without lines -/

/-- What came out, without the line of a fault. -/
def withoutLine (x : Except AssemblyError α) : Except AssemblyFault α :=
  x.mapError AssemblyError.fault

theorem withoutLine_bind (x : Except AssemblyError α) (k : α → Except AssemblyError β) :
    withoutLine (x >>= k) = withoutLine x >>= fun a => withoutLine (k a) := by
  cases x <;> rfl

theorem withoutLine_map (f : α → β) (x : Except AssemblyError α) : withoutLine (x.map f) = (withoutLine x).map f := by
  cases x <;> rfl

theorem withoutLine_mapM {f : α → Except AssemblyError β} {f' : γ → Except AssemblyError β} {g : α → γ}
    (h : ∀ a, withoutLine (f a) = withoutLine (f' (g a))) (items : List α) :
    withoutLine (items.mapM f) = withoutLine ((items.map g).mapM f') := by
  induction items with
  | nil => rfl
  | cons a items ih => simp only [List.map_cons, List.mapM_cons, withoutLine_bind, h, ih]

namespace State

variable (s : State)

/-- Adds contents, wherever their lines stand. -/
def addContents (s : State) : List (List Char) → Except AssemblyFault State
  | [] => .ok s
  | text :: rest => s.addLine 0 text >>= fun s => s.addContents rest

theorem addLines_contents (line : Nat) (texts : List (List Char)) :
    (withoutLine (s.addLines line texts)).map unplaced = s.unplaced.addContents (contents texts) := by
  induction texts generalizing s line with
  | nil => rfl
  | cons text texts ih =>
    rw [addLines]
    -- A line without content is counted and nothing else.
    by_cases hempty : content text = []
    · have hadd : s.addLine line text = .ok s := by simp [addLine, hempty]
      have hcontents : contents (text :: texts) = contents texts := by simp [contents, hempty]
      rw [hadd, hcontents]
      exact ih s (line + 1)
    · have hcontents : contents (text :: texts) = content text :: contents texts := by simp [contents, hempty]
      rw [hcontents, addContents, addLine_content, ← unplaced_addLine s line]
      cases s.addLine line text with
      | error fault => rfl
      | ok s' => exact ih s' (line + 1)

theorem unplaced_resolveMethod (name : String) (line line' : Nat) :
    withoutLine (s.resolveMethod name line) = withoutLine (s.unplaced.resolveMethod name line') := by
  have hindex : s.unplaced.methodIndex? name = s.methodIndex? name := rfl
  rw [resolveMethod, resolveMethod, hindex]
  cases s.methodIndex? name <;> rfl

theorem unplaced_resolve (labels : List (String × Nat)) (d : Draft) :
    withoutLine (s.resolve labels d) = withoutLine (s.unplaced.resolve labels d.unplaced) := by
  cases d with
  | ready i => rfl
  | branch opcode label line =>
    rw [Draft.unplaced, resolve, resolve]
    cases labels.lookup label <;> rfl
  | closure method line =>
    rw [Draft.unplaced, resolve, resolve, withoutLine_map, withoutLine_map, s.unplaced_resolveMethod method line 0]

theorem unplaced_resolveCode (m : MethodDraft) :
    withoutLine (s.resolveCode m) = withoutLine (s.unplaced.resolveCode m.unplaced) := by
  have hcode : m.unplaced.code.toList = m.code.toList.map Draft.unplaced := by simp [MethodDraft.unplaced]
  rw [resolveCode, resolveCode, withoutLine_bind, withoutLine_bind, hcode,
    withoutLine_mapM (s.unplaced_resolve m.labels)]
  rfl

theorem unplaced_resolveDefinition (d : DefinitionDraft) :
    withoutLine (s.resolveDefinition d) = withoutLine (s.unplaced.resolveDefinition d.unplaced) := by
  obtain ⟨name, binding⟩ := d
  cases binding with
  | slot constant => rfl
  | method method line =>
    simp only [resolveDefinition, DefinitionDraft.unplaced, BindingDraft.unplaced, withoutLine_map,
      s.unplaced_resolveMethod method line 0]

theorem unplaced_finish (label : String) (lastLine : Nat) :
    withoutLine (s.finish label lastLine) = withoutLine (s.unplaced.finish label 0) := by
  have hmethods : s.unplaced.methods.toList = s.methods.toList.map MethodDraft.unplaced := by simp [unplaced]
  have hdefinitions : s.unplaced.definitions.toList = s.definitions.toList.map DefinitionDraft.unplaced := by
    simp [unplaced]
  -- Only whether a method is open, and which one is the initializer, decides on what follows; no line does.
  unfold finish
  cases hcurrent : s.current with
  | some opened =>
    obtain ⟨method, start⟩ := opened
    have hopened : s.unplaced.current = some (method.unplaced, 0) := by simp [unplaced, hcurrent]
    rw [hopened]
    rfl
  | none =>
    have hclosed : s.unplaced.current = none := by simp [unplaced, hcurrent]
    cases hinit : s.init with
    | none =>
      have hnone : s.unplaced.init = none := by simp [unplaced, hinit]
      rw [hclosed, hnone]
      rfl
    | some init =>
      obtain ⟨name, line⟩ := init
      have hsome : s.unplaced.init = some (name, 0) := by simp [unplaced, hinit]
      rw [hclosed, hsome]
      simp only [withoutLine_bind, hmethods, hdefinitions, s.unplaced_resolveMethod name line 0,
        withoutLine_mapM s.unplaced_resolveCode, withoutLine_mapM s.unplaced_resolveDefinition]
      rfl

end State

/-- Without line numbers a module is made of the contents of the lines. -/
theorem withoutLine_assemble (source label : String) :
    withoutLine (Module.assemble source label) =
      ({} : State).addContents (contents (Text.lines source.toList)) >>= fun s => withoutLine (s.finish label 0) := by
  have hempty : ({} : State).unplaced = {} := by simp [State.unplaced]
  have hcontents := ({} : State).addLines_contents 1 (Text.lines source.toList)
  rw [hempty] at hcontents
  rw [Module.assemble, withoutLine_bind, ← hcontents]
  cases ({} : State).addLines 1 (Text.lines source.toList) with
  | error e => rfl
  | ok s => exact s.unplaced_finish label _

/-! ## Texts that differ in their layout -/

/-- Both give the same module, or break the same rule, if at another line. -/
structure SameOutcome (x y : Except AssemblyError Module) : Prop where
  module : ∀ m, x = .ok m ↔ y = .ok m
  fault : ∀ fault, (∃ line, x = .error ⟨line, fault⟩) ↔ ∃ line, y = .error ⟨line, fault⟩

theorem withoutLine_eq_ok {x : Except AssemblyError α} {a : α} : withoutLine x = .ok a ↔ x = .ok a := by
  cases x <;> simp [withoutLine, Except.mapError]

theorem withoutLine_eq_error {x : Except AssemblyError α} {fault : AssemblyFault} :
    withoutLine x = .error fault ↔ ∃ line, x = .error ⟨line, fault⟩ := by
  cases x with
  | ok a => simp [withoutLine, Except.mapError]
  | error e =>
    obtain ⟨line, fault'⟩ := e
    simp [withoutLine, Except.mapError]

theorem sameOutcome_of_withoutLine {x y : Except AssemblyError Module} (h : withoutLine x = withoutLine y) :
    SameOutcome x y where
  module m := by rw [← withoutLine_eq_ok, h, withoutLine_eq_ok]
  fault fault := by rw [← withoutLine_eq_error, h, withoutLine_eq_error]

/-- Layout does not matter to the assembler. -/
theorem Relaid.sameOutcome {text text' : String} (h : Relaid text.toList text'.toList) (label : String) :
    SameOutcome (Module.assemble text label) (Module.assemble text' label) :=
  sameOutcome_of_withoutLine (by rw [withoutLine_assemble, withoutLine_assemble, h.contents_eq])

end MovieVm.Bytecode.Assembly
