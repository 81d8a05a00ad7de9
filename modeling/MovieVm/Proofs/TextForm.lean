import MovieVm.Proofs.Codec
import MovieVm.Proofs.Content
import MovieVm.Proofs.Reassembly

/-!
# Which modules have a text that is read back

The binary form refers to methods by index and the text by name, and the text gives every method room for
its parameters. So the text of a module is read back exactly when its methods have different names and
enough locals. Nothing else can keep it from being read: neither odd names nor constants that are unused,
repeated or no numbers.
-/

namespace MovieVm.Bytecode

/-! ## What the text says of doubles -/

/-- The constant as its literal is read: the text does not tell one NaN from another. -/
def Constant.settled : Constant → Constant
  | .double x => .double (if x.isNaN then .nan else x)
  | c => c

/-- The module with one NaN in place of all. -/
def Module.settled (m : Module) : Module :=
  { m with constants := m.constants.map Constant.settled }

theorem Constant.kind_settled (c : Constant) : c.settled.kind = c.kind := by
  cases c <;> rfl

theorem Constant.literal_settled (c : Constant) : c.settled.literal = c.literal := by
  cases c with
  | double x =>
    have hnan : Double.nan.isNaN = true := by decide
    simp only [settled, literal]
    by_cases h : x.isNaN = true
    · simp only [h, if_true, Decimal.Layout.text, hnan]
    · rw [if_neg h]
  | _ => rfl

/-- Every literal of a double is read as the settled double. -/
theorem readDouble?_settled {c : Constant} {x : Double} (h : c.settled = .double x) :
    Decimal.readDouble? (Decimal.Layout.literal.text x).toList = some x := by
  cases c with
  | double y =>
    obtain rfl : (if y.isNaN then Double.nan else y) = x := Constant.double.inj h
    by_cases hnan : y.isNaN = true
    · rw [if_pos hnan]
      decide
    · rw [if_neg hnan]
      exact Decimal.readDouble?_literal (Bool.eq_false_iff.2 hnan)
  | int n => cases h
  | string s => cases h

namespace Module

variable {m : Module}

theorem getElem?_settled (m : Module) (index : Nat) :
    m.settled.constants[index]? = m.constants[index]?.map Constant.settled :=
  Array.getElem?_map

theorem stringConstant_settled (m : Module) (index : Nat) :
    m.settled.stringConstant index = m.stringConstant index := by
  unfold stringConstant
  rw [getElem?_settled]
  rcases m.constants[index]? with _ | _ | _ | _ <;> rfl

theorem methodName_settled (m : Module) (index : Nat) : m.settled.methodName index = m.methodName index := by
  simp only [methodName, stringConstant_settled]
  rfl

theorem operandText_settled (m : Module) (kind : OperandKind) (n : Nat) :
    m.settled.operandText kind n = m.operandText kind n := by
  unfold operandText
  simp only [stringConstant_settled, methodName_settled, getElem?_settled]
  cases m.constants[n]? with
  | none => rfl
  | some c => simp only [Option.map_some, c.literal_settled]

theorem codeLines_settled (m : Module) (targets : List Nat) (pc : Nat) (code : List Instruction) :
    m.settled.codeLines targets pc code = m.codeLines targets pc code := by
  induction code generalizing pc with
  | nil => rfl
  | cons i code ih => simp only [codeLines, instructionText, operandText_settled, ih]

theorem definitionLine_settled (m : Module) (d : Definition) : m.settled.definitionLine d = m.definitionLine d := by
  unfold definitionLine
  simp only [stringConstant_settled, methodName_settled, getElem?_settled]
  rcases d.binding with (_ | index) | index
  · rfl
  · simp only
    cases m.constants[index]? with
    | none => rfl
    | some c => simp only [Option.map_some, Constant.slotText, c.literal_settled, c.kind_settled]
  · rfl

theorem disassemble_settled (m : Module) : m.settled.disassemble = m.disassemble := by
  have hmethods : m.settled.methodLines = m.methodLines := by
    funext index method
    simp only [methodLines, methodHead, bodyLines, methodName_settled, codeLines_settled]
  have hheader : m.settled.headerLine = m.headerLine := by
    simp only [headerLine, settled, Array.size_map]
  have hdefinitions : m.settled.definitionLine = m.definitionLine := funext m.definitionLine_settled
  simp only [disassemble, trace, hmethods, hheader, hdefinitions, initLine, methodName_settled]
  rfl

theorem symbolNames_settled (m : Module) : m.settled.symbolNames = m.symbolNames := by
  simp only [symbolNames, definitionNames, globalNames, stringConstant_settled]
  rfl

theorem names_settled (m : Module) : m.settled.names = m.names := by
  have hname : m.settled.nameOf = m.nameOf := funext fun method => by rw [nameOf, stringConstant_settled, nameOf]
  rw [names, hname]
  rfl

theorem Resolved.settled (h : m.Resolved) : m.settled.Resolved where
  init := h.init
  methodName method hmethod := by
    obtain ⟨s, hs⟩ := h.methodName method hmethod
    exact ⟨s, by rw [getElem?_settled, hs]; rfl⟩
  code method hmethod i hi := by
    have hresolves := h.code method hmethod i hi
    cases i with
    | pushInt n | pushDouble n | pushString n | getGlobal n | setGlobal n =>
      obtain ⟨v, hv⟩ := hresolves
      exact ⟨_, by rw [getElem?_settled, hv]; rfl⟩
    | newFunction n => exact hresolves
    | _ => trivial
  definitionName d hd := by
    obtain ⟨s, hs⟩ := h.definitionName d hd
    exact ⟨s, by rw [getElem?_settled, hs]; rfl⟩
  binding d hd := by
    have hbinding := h.binding d hd
    rcases hslot : d.binding with (_ | index) | index
    · trivial
    · rw [hslot] at hbinding
      exact Nat.lt_of_lt_of_eq hbinding Array.size_map.symm
    · rw [hslot] at hbinding
      exact hbinding

/-- What the text asks of the methods of a module: different names, and no fewer locals than parameters. -/
structure Nameable (m : Module) : Prop where
  names : m.names.Nodup
  params : ∀ method ∈ m.methods, method.params ≤ method.locals

/-- Any module that can be encoded and has what the text asks for is legible, once it is settled. -/
theorem Encodable.legible_settled (h : m.Encodable) (hm : m.Nameable) (hlabel : '\n' ∉ m.label.toList) :
    m.settled.Legible where
  resolved := (checkReferences_eq_ok.1 h.references).settled
  names := by
    rw [names_settled]
    exact hm.names
  params := hm.params
  counts method hmethod :=
    ⟨(h.methods method hmethod).params, Nat.lt_of_le_of_lt (h.methods method hmethod).locals (by decide)⟩
  operands method hmethod i hi n hn _ := (h.methods method hmethod).operands i hi n hn
  doubles x hx := by
    obtain ⟨c, _, hc⟩ := Array.mem_map.1 hx
    exact readDouble?_settled hc
  label := hlabel

theorem Legible.symbolNames_canonical (hm : m.Legible) : m.canonical.symbolNames = m.symbolNames := by
  rw [symbolNames_eq, hm.resolved.content_canonical, ← symbolNames_eq, symbolNames_clamped]

end Module

/-! ## What a text that is read says of the methods -/

namespace Assembly

open Text Bytecode.Module

variable {m : Module} {s s' : State} {methods : List Method} {method : Method}

theorem methodNames_addInstruction {line : Nat} {mnemonic : List Char} {operand : Option (List Char)} {d : Draft}
    (h : s.addInstruction line mnemonic operand = .ok (d, s')) : s'.methodNames = s.methodNames := by
  obtain ⟨i, _, hplace⟩ := addInstruction_eq_ok h
  have hpool : s' = { s with pool := s.pool.enter i.operand.constant?.toList } := by
    rw [← place_snd i.opcode i.operand, hplace]
  rw [hpool]

/-- The methods read so far have different names, and room for their parameters. -/
structure Named (m : Module) (methods : List Method) (s : State) : Prop where
  names : s.methodNames.toList = methods.map m.nameOf
  nodup : (methods.map m.nameOf).Nodup
  params : ∀ method ∈ methods, method.params ≤ method.locals

/-- Between methods. -/
structure Between (m : Module) (methods : List Method) (s : State) : Prop extends Named m methods s where
  closed : s.current = none

/-- Within the last of the methods. -/
structure Within (m : Module) (methods : List Method) (s : State) : Prop extends Named m methods s where
  opened : ∃ d start, s.current = some (d, start)

/-- When the lines are read at all, they lead from states of one kind to the other. -/
def Brings (P Q : State → Prop) (lines : List TraceLine) : Prop :=
  ∀ s number s', P s → s.addLines number (lines.map TraceLine.chars) = .ok s' → Q s'

variable {P Q R : State → Prop} {lines more : List TraceLine} {line : TraceLine}

theorem Brings.nil : Brings P P [] := by
  intro s number s' hs h
  obtain rfl := Except.ok.inj h
  exact hs

theorem Brings.append (h : Brings P Q lines) (hmore : Brings Q R more) : Brings P R (lines ++ more) := by
  intro s number s' hs hread
  rw [List.map_append, addLines_append] at hread
  obtain ⟨s₁, hfirst, hsecond⟩ := Except.bind_eq_ok.1 hread
  exact hmore s₁ _ s' (h s number s₁ hs hfirst) hsecond

theorem Brings.single (h : ∀ s number s', P s → s.addLine number line.chars = .ok s' → Q s') : Brings P Q [line] := by
  intro s number s' hs hread
  rw [List.map_singleton, State.addLines] at hread
  cases hadd : s.addLine number line.chars with
  | error fault =>
    rw [hadd] at hread
    cases hread
  | ok s₁ =>
    rw [hadd] at hread
    obtain rfl : s₁ = s' := Except.ok.inj hread
    exact h s number s₁ hs hadd

theorem brings_bodyLine (hline : IsBody line) : Brings (Within m methods) (Within m methods) [line] := by
  refine .single fun s number s' hs hread => ?_
  obtain ⟨d, start, hcurrent⟩ := hs.opened
  rw [addLine_inside hline.piece hcurrent, addBodyLine_of_head hline.noDirective] at hread
  cases hbody : BodyLine.read? line.text.toList with
  | none =>
    rw [hbody] at hread
    cases hread
  | some body =>
    rw [hbody] at hread
    -- A label changes the open method only, and an instruction may bring in a constant.
    cases body with
    | label name =>
      simp only at hread
      split at hread
      · cases hread
      · obtain rfl := Except.ok.inj hread
        exact { hs with opened := ⟨_, _, rfl⟩ }
    | instruction mnemonic operand =>
      obtain ⟨⟨draft, s₁⟩, hadd, hpure⟩ := Except.bind_eq_ok.1 hread
      obtain rfl := Except.ok.inj hpure
      exact {
        names := (congrArg Array.toList (methodNames_addInstruction hadd)).trans hs.names
        nodup := hs.nodup
        params := hs.params
        opened := ⟨_, _, rfl⟩ }

theorem brings_body (hlines : ∀ line ∈ lines, IsBody line) : Brings (Within m methods) (Within m methods) lines := by
  induction lines with
  | nil => exact .nil
  | cons line lines ih =>
    obtain ⟨hline, hrest⟩ := List.forall_mem_cons.1 hlines
    exact (brings_bodyLine hline).append (ih hrest)

theorem brings_end : Brings (Within m methods) (Between m methods) [⟨0, ".end"⟩] := by
  refine .single fun s number s' hs hread => ?_
  obtain ⟨d, start, hcurrent⟩ := hs.opened
  rw [addLine_inside piece_end hcurrent, State.addBodyLine, if_pos rfl] at hread
  obtain rfl := Except.ok.inj hread
  exact { hs with closed := rfl }

/-- The first line of a method is read only if the name is new and the locals suffice. -/
theorem brings_open (hcounts : method.params < 0x40000000 ∧ method.locals < 0x40000000) {head : String}
    (htext : head.toList = methodText (m.nameOf method) method.params method.locals) :
    Brings (Between m methods) (Within m (methods ++ [method])) [⟨0, head⟩] := by
  refine .single fun s number s' hs hread => ?_
  have hpiece : Piece (TraceLine.mk 0 head).text.toList := htext ▸ piece_methodText _ _ _
  have hdirective := htext ▸ read?_methodText (m.nameOf method) method.params method.locals
  rw [addLine_outside hpiece hs.closed hdirective, State.addDirective] at hread
  simp only [State.openMethod, readName_nameText, Except.ok_bind, readCount, readIndex_toDigits hcounts.1,
    readIndex_toDigits hcounts.2] at hread
  obtain ⟨hnew, hread⟩ := Except.refuse_eq_ok.1 hread
  obtain ⟨hle, hpure⟩ := Except.refuse_eq_ok.1 hread
  obtain rfl := Except.ok.inj hpure
  have hfresh : m.nameOf method ∉ methods.map m.nameOf := by
    rw [← hs.names]
    simpa using hnew
  exact {
    names := by simp [State.intern, hs.names]
    nodup := by
      rw [List.map_append, List.map_singleton, List.nodup_append]
      refine ⟨hs.nodup, by simp, fun name hname last hlast heq => hfresh ?_⟩
      rwa [heq, List.mem_singleton.1 hlast] at hname
    params := List.forall_mem_append.2 ⟨hs.params, List.forall_mem_singleton.2 (Nat.le_of_not_lt hle)⟩
    opened := ⟨_, _, rfl⟩ }

theorem brings_method (hm : m.Resolved) (hcounts : method.params < 0x40000000 ∧ method.locals < 0x40000000)
    {index : Nat} (hindex : m.methods[index]? = some method) :
    Brings (Between m methods) (Between m (methods ++ [method])) (m.methodLines index method) := by
  obtain ⟨head, body, hlines, htext, hbody⟩ := methodLines_eq hm hindex
  rw [hlines]
  exact ((brings_open hcounts htext).append (brings_body hbody)).append brings_end

theorem brings_methods (hm : m.Resolved)
    (hcounts : ∀ method ∈ m.methods, method.params < 0x40000000 ∧ method.locals < 0x40000000) {left : List Method}
    (hleft : methods ++ left = m.methods.toList) :
    Brings (Between m methods) (Between m m.methods.toList)
      ((left.zipIdx methods.length).flatMap fun (method, index) => m.methodLines index method) := by
  induction left generalizing methods with
  | nil =>
    obtain rfl : methods = m.methods.toList := by simpa using hleft
    exact .nil
  | cons method left ih =>
    have hindex : m.methods[methods.length]? = some method := by
      rw [← Array.getElem?_toList, ← hleft]
      simp
    have hmore : methods ++ [method] ++ left = m.methods.toList := by simpa using hleft
    have hrest := ih hmore
    rw [List.length_append, List.length_singleton] at hrest
    rw [List.zipIdx_cons, List.flatMap_cons]
    exact (brings_method hm (hcounts method (Array.mem_of_getElem? hindex)) hindex).append hrest

theorem brings_header : Brings P P [m.headerLine] := by
  refine .single fun s number s' hs hread => ?_
  obtain ⟨text, hchars⟩ := chars_headerLine (m := m)
  have hcontent : content m.headerLine.chars = [] := by
    rw [hchars]
    exact content_comment _
  obtain rfl : s = s' := by simpa [State.addLine, hcontent] using hread
  exact hs

theorem between_start : Between m [] {} where
  names := rfl
  nodup := .nil
  params := List.forall_mem_nil _
  closed := rfl

end Assembly

namespace Module

variable {m : Module} {bytes : List UInt8} {label : String}

/-- A text that is read belongs to a module with what the text asks for. -/
theorem Encodable.nameable (h : m.Encodable) (hlabel : '\n' ∉ m.label.toList) {other : String} {m' : Module}
    (hread : Module.assemble m.disassemble other = .ok m') : m.Nameable := by
  have hm := checkReferences_eq_ok.1 h.references
  rw [assemble, lines_disassemble hm hlabel, trace, List.map_append, List.map_append, List.append_assoc,
    Assembly.addLines_append] at hread
  obtain ⟨s, hstate, _⟩ := Except.bind_eq_ok.1 hread
  obtain ⟨s₁, hmethods, _⟩ := Except.bind_eq_ok.1 hstate
  have hcounts : ∀ method ∈ m.methods, method.params < 0x40000000 ∧ method.locals < 0x40000000 :=
    fun method hmethod =>
      ⟨(h.methods method hmethod).params, Nat.lt_of_le_of_lt (h.methods method hmethod).locals (by decide)⟩
  have hbetween : Assembly.Between m m.methods.toList s₁ :=
    Assembly.brings_header.append (Assembly.brings_methods hm hcounts (List.nil_append m.methods.toList))
      {} 1 s₁ Assembly.between_start hmethods
  exact ⟨hbetween.nodup, fun method hmethod => hbetween.params method (Array.mem_toList_iff.2 hmethod)⟩

theorem finish_relabel (s : Assembly.State) (label other : String) (lastLine : Nat) :
    s.finish other lastLine = (s.finish label lastLine).map fun m => { m with label := other } := by
  unfold Assembly.State.finish
  cases s.current with
  | some opened => rfl
  | none =>
    cases s.init with
    | none => rfl
    | some init =>
      simp only
      cases s.resolveMethod init.1 init.2 with
      | error e => rfl
      | ok index =>
        cases s.methods.toList.mapM s.resolveCode with
        | error e => rfl
        | ok methods => cases s.definitions.toList.mapM s.resolveDefinition <;> rfl

/-- The label is kept for messages; nothing that is assembled depends on it. -/
theorem assemble_relabel (source label other : String) :
    Module.assemble source other = (Module.assemble source label).map fun m => { m with label := other } := by
  unfold assemble
  simp only
  cases ({} : Assembly.State).addLines 1 (Text.lines source.toList) with
  | error e => rfl
  | ok s => exact finish_relabel s label other _

/-- The text of a module that is read from bytes can be assembled exactly when its methods have different names and
room for their parameters. Whatever is assembled from it has the symbols of the module. -/
theorem assembles_iff_nameable (h : Module.decode bytes label = .ok m) (hlabel : '\n' ∉ label.toList) (other : String) :
    ((∃ m', Module.assemble m.disassemble other = .ok m') ↔ m.Nameable) ∧
      ∀ m', Module.assemble m.disassemble other = .ok m' → m'.symbolNames = m.symbolNames := by
  obtain ⟨hencodable, rfl, _⟩ := of_decode h
  have hassembled : m.Nameable →
      Module.assemble m.disassemble other = .ok { m.settled.canonical with label := other } := by
    intro hm
    have hread := (hencodable.legible_settled hm hlabel).assemble_disassemble
    rw [disassemble_settled] at hread
    rw [assemble_relabel _ m.settled.label other, hread]
    rfl
  refine ⟨⟨fun ⟨m', hread⟩ => hencodable.nameable hlabel hread, fun hm => ⟨_, hassembled hm⟩⟩, fun m' hread => ?_⟩
  have hm := hencodable.nameable hlabel hread
  obtain rfl := Except.ok.inj ((hassembled hm).symm.trans hread)
  calc symbolNames { m.settled.canonical with label := other }
      = m.settled.canonical.symbolNames := rfl
    _ = m.settled.symbolNames := (hencodable.legible_settled hm hlabel).symbolNames_canonical
    _ = m.symbolNames := m.symbolNames_settled

/-- A module with a NaN, a name that has to be quoted, a constant that comes twice, and one that nothing uses. -/
def odd : Module where
  label := "odd"
  minorVersion := 16
  majorVersion := 46
  constants := #[.string "a;\nb", .double ⟨0x7ff8000000000001⟩, .string "a;\nb", .int 7]
  methods := #[⟨2, 1, 1, #[.pushDouble 1, .pop, .returnVoid]⟩]
  definitions := [⟨0, .slot (some 1)⟩]
  init := 0

def oddBytes : List UInt8 :=
  [16, 0, 46, 0, 4, 3, 4, 97, 59, 10, 98, 2, 1, 0, 0, 0, 0, 0, 0xf8, 0x7f, 3, 4, 97, 59, 10, 98, 1, 7,
    1, 2, 1, 1, 3, 0x2f, 1, 0x29, 0x47, 1, 0, 0, 2, 0]

theorem odd_assembles :
    Module.decode oddBytes "odd" = .ok odd ∧ '\n' ∉ "odd".toList ∧
      ∃ m', Module.assemble odd.disassemble "again" = .ok m' ∧ m'.symbolNames = odd.symbolNames := by
  have hdecode : Module.decode oddBytes "odd" = .ok odd := Except.eq_ok_of_toOption (by decide +kernel)
  have hlabel : '\n' ∉ "odd".toList := by decide
  obtain ⟨hassembles, hsymbols⟩ := assembles_iff_nameable hdecode hlabel "again"
  obtain ⟨m', hm'⟩ := hassembles.2 ⟨by simp [names, odd], by decide⟩
  exact ⟨hdecode, hlabel, m', hm', hsymbols m' hm'⟩

/-- A module with two methods of one name. -/
def twoOfOneName : Module where
  label := "twins"
  minorVersion := 16
  majorVersion := 46
  constants := #[.string "f"]
  methods := #[⟨0, 0, 0, #[.returnVoid]⟩, ⟨0, 0, 0, #[.returnVoid]⟩]
  definitions := []
  init := 0

def twoOfOneNameBytes : List UInt8 :=
  [16, 0, 46, 0, 1, 3, 1, 102, 2, 0, 0, 0, 1, 0x47, 0, 0, 0, 1, 0x47, 0, 0]

/-- A module with a method that has a parameter and no local for it. -/
def cramped : Module where
  label := "cramped"
  minorVersion := 16
  majorVersion := 46
  constants := #[.string "f"]
  methods := #[⟨0, 1, 0, #[.returnVoid]⟩]
  definitions := []
  init := 0

def crampedBytes : List UInt8 :=
  [16, 0, 46, 0, 1, 3, 1, 102, 1, 0, 1, 0, 1, 0x47, 0, 0]

/-- Both modules are read from their bytes, and the text of neither is read back. -/
theorem not_every_module_assembles :
    (Module.decode twoOfOneNameBytes "twins" = .ok twoOfOneName ∧
      ∀ m', Module.assemble twoOfOneName.disassemble "twins" ≠ .ok m') ∧
      Module.decode crampedBytes "cramped" = .ok cramped ∧
        ∀ m', Module.assemble cramped.disassemble "cramped" ≠ .ok m' := by
  have htwins : Module.decode twoOfOneNameBytes "twins" = .ok twoOfOneName := by rfl
  have hcramped : Module.decode crampedBytes "cramped" = .ok cramped := by rfl
  refine ⟨⟨htwins, fun m' hread => ?_⟩, hcramped, fun m' hread => ?_⟩
  · have hnames := ((of_decode htwins).1.nameable (by decide) hread).names
    simp [names, twoOfOneName] at hnames
  · have hparams := ((of_decode hcramped).1.nameable (by decide) hread).params
    exact absurd hparams (by decide)

end Module

end MovieVm.Bytecode
