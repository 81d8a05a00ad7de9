import MovieVm.Proofs.Canonical
import MovieVm.Proofs.ConstantPool
import MovieVm.Proofs.DoubleText
import MovieVm.Proofs.LineReading
import MovieVm.Proofs.Success

/-!
# Drafts of instructions

How the assembler reads the instructions of a disassembly. Constants get the indices that they have in the
canonical form, and a draft is the canonical instruction once every method has its name and every label its
place.
-/

namespace MovieVm.Bytecode

namespace Module

/-- What a module needs for its text to say all of it. -/
structure Printable (m : Module) : Prop where
  references : m.checkReferences = .ok ()
  names : (m.methods.toList.map fun method => m.stringConstant method.name).Nodup
  params : ∀ method ∈ m.methods, method.params ≤ method.locals
  counts : ∀ method ∈ m.methods, method.params < 0x40000000 ∧ method.locals < 0x40000000
  operands : ∀ method ∈ m.methods, ∀ i ∈ method.code, ∀ n, i.operand? = some n →
    i.opcode.kind = .local ∨ i.opcode.kind = .count → n < 0x40000000
  doubles : ∀ x, .double x ∈ m.constants → x.isNaN = false
  label : '\n' ∉ m.label.toList

def names (m : Module) : List String :=
  m.methods.toList.map m.nameOf

/-- The constants behind some indices. -/
def usesOf (m : Module) (indices : List Nat) : List Constant :=
  indices.filterMap (m.constants[·]?)

/-- What an operand stands for, by its kind. -/
def Denotes (m : Module) (n : Nat) : OperandKind → Prop
  | .intConstant => ∃ v, m.constants[n]? = some (.int v)
  | .doubleConstant => ∃ x, m.constants[n]? = some (.double x)
  | .stringConstant | .name => ∃ s, m.constants[n]? = some (.string s)
  | .method => n < m.methods.size
  | _ => True

theorem Resolves.denotes {m : Module} {i : Instruction} {n : Nat} (h : m.Resolves i)
    (hn : i.operand? = some n) : m.Denotes n i.opcode.kind := by
  cases i <;> first | trivial | (obtain rfl := Option.some.inj hn; exact h)

/-- The name of a method, empty when it has none. -/
theorem Resolved.stringConstant_name {m : Module} (h : m.Resolved) {method : Method}
    (hmethod : method ∈ m.methods) : m.stringConstant method.name = .ok (m.nameOf method) := by
  obtain ⟨s, hs⟩ := h.stringConstant_methodName hmethod
  rw [nameOf, hs]
  rfl

theorem Printable.resolved {m : Module} (hm : m.Printable) : m.Resolved :=
  checkReferences_eq_ok.1 hm.references

theorem Resolved.map_stringConstant_name {m : Module} (h : m.Resolved) :
    m.methods.toList.map (fun method => m.stringConstant method.name) = m.names.map .ok := by
  rw [Module.names, List.map_map]
  exact List.map_congr_left fun method hmethod => h.stringConstant_name (Array.mem_toList_iff.1 hmethod)

/-- What a module needs for its text to be read at all, with nothing but what its doubles are read as. -/
structure Legible (m : Module) : Prop where
  resolved : m.Resolved
  names : m.names.Nodup
  params : ∀ method ∈ m.methods, method.params ≤ method.locals
  counts : ∀ method ∈ m.methods, method.params < 0x40000000 ∧ method.locals < 0x40000000
  operands : ∀ method ∈ m.methods, ∀ i ∈ method.code, ∀ n, i.operand? = some n →
    i.opcode.kind = .local ∨ i.opcode.kind = .count → n < 0x40000000
  doubles : ∀ x, .double x ∈ m.constants → Decimal.readDouble? (Decimal.Layout.literal.text x).toList = some x
  label : '\n' ∉ m.label.toList

theorem Printable.legible {m : Module} (hm : m.Printable) : m.Legible where
  resolved := hm.resolved
  names := by
    have hnodup := hm.names
    rw [hm.resolved.map_stringConstant_name] at hnodup
    exact (List.pairwise_map.1 hnodup).imp fun hne heq => hne (congrArg _ heq)
  params := hm.params
  counts := hm.counts
  operands := hm.operands
  doubles x hx := Decimal.readDouble?_literal (hm.doubles x hx)
  label := hm.label

end Module

namespace Assembly

open Text

variable {m : Module} {s : State} {seen : List Nat} {index : Nat} {c : Constant}

/-! ## Constants -/

/-- The next constant that the text mentions gets the index it has in the canonical form. -/
theorem intern_mentioned (hs : s.pool = .after (m.usesOf seen))
    (hseen : seen ++ [index] <+: m.mentions) (hc : m.constants[index]? = some c) :
    s.intern c = (m.renumber index, { s with pool := .after (m.usesOf (seen ++ [index])) }) := by
  obtain ⟨rest, hrest⟩ := hseen
  have huses : m.usesOf (seen ++ [index]) = m.usesOf seen ++ [c] := by
    simp [Module.usesOf, hc]
  -- Later mentions do not move a constant, so its place in the whole pool is known already.
  have hnumber : m.renumber index = (m.usesOf seen ++ [c]).eraseDups.idxOf c := by
    rw [Module.renumber_eq hc, Module.pool, Module.uses, ← hrest, List.filterMap_append, ← Module.usesOf, huses,
      Module.idxOf_eraseDups_append (by simp)]
  rw [State.intern, hs, Pool.intern_after, hnumber, huses]

/-! ## Instructions -/

/-- A method is found by its name. -/
theorem resolveMethod_of_names {final : State} (hm : m.Legible)
    (hfinal : final.methodNames.toList = m.names) (h : index < m.methods.size) {line : Nat} :
    final.resolveMethod (m.methodName index) line = .ok index := by
  have hlt : index < m.names.length := by simpa [Module.names] using h
  have hname : m.names[index] = m.methodName index := by
    simp [Module.names, Module.methodName, Module.nameOf, h]
  have harray : final.methodNames = m.names.toArray := by rw [← hfinal]
  have hfind : final.methodIndex? (m.methodName index) = some index := by
    rw [State.methodIndex?, harray, List.findIdx?_toArray, List.findIdx?_eq_some_iff_getElem]
    -- Names are distinct, so no earlier method has this one.
    refine ⟨hlt, by simp [hname], fun j hj hsame => ?_⟩
    have hequal : m.names[j] = m.names[index] := by simpa [hname] using hsame
    have hindex : j = index := (List.getElem?_inj (Nat.lt_trans hj hlt) hm.names).1
      (by rw [List.getElem?_eq_getElem (Nat.lt_trans hj hlt), List.getElem?_eq_getElem hlt, hequal])
    omega
  rw [State.resolveMethod, hfind]

def labelName (target : Nat) : String :=
  s!"L{target}"

theorem toList_labelName (target : Nat) : (labelName target).toList = labelChars target := by
  simp only [labelName, String.toList_append, Nat.toString_eq_repr, Nat.toList_repr]
  rfl

/-- The draft is the canonical instruction, once the methods have their names and the labels of the
instruction their places. -/
def Draft.Becomes (m : Module) (size : Nat) (d : Draft) (i : Instruction) : Prop :=
  ∀ (final : State) (labels : List (String × Nat)), final.methodNames.toList = m.names →
    (∀ t, i.target? = some t → labels.lookup (labelName t) = some (min t size)) →
    final.resolve labels d = .ok (i.mapOperand (m.canonicalOperand size))

/-- The constants mentioned after an instruction, when those in `seen` were mentioned before it. -/
def seenAfter (seen : List Nat) (i : Instruction) : List Nat :=
  seen ++ i.constant?.toList

theorem piece_operandText {kind : OperandKind} {n : Nat} (h : m.Denotes n kind) :
    Piece (m.operandText kind n).toList := by
  cases kind with
  | intConstant =>
    obtain ⟨v, hv⟩ := h
    simpa only [Module.operandText, hv, Constant.literal] using Decimal.piece_toString_int v.toInt
  | doubleConstant =>
    obtain ⟨x, hx⟩ := h
    simpa only [Module.operandText, hx, Constant.literal] using Decimal.piece_literal x
  | stringConstant =>
    obtain ⟨t, ht⟩ := h
    simpa only [Module.operandText, ht, Constant.literal] using piece_quote t
  | name => exact piece_nameText _
  | method => exact piece_nameText _
  | target =>
    have htext := toList_labelName n
    exact htext ▸ piece_labelChars n
  | «local» | count | none =>
    simpa only [Module.operandText, Nat.toString_eq_repr, Nat.toList_repr] using
      Decimal.piece_toDigits n

theorem target?_eq_operand? {i : Instruction} (h : i.opcode.kind = .target) : i.target? = i.operand? := by
  cases i <;> first | rfl | nomatch h

theorem eq_newFunction {i : Instruction} {n : Nat} (h : i.opcode.kind = .method)
    (hn : i.operand? = some n) : i = .newFunction n := by
  cases i <;> first | exact congrArg Instruction.newFunction (Option.some.inj hn) | nomatch h

theorem readNat?_labelChars (bound target : Nat) : Decimal.readNat? bound (labelChars target) = none := by
  have hletter : 'L'.isDigit = false := by decide
  simp [Decimal.readNat?, Decimal.readDigits?, labelChars, hletter]

theorem mapOperand_of_some {i : Instruction} {n : Nat} (hn : i.operand? = some n)
    (f : OperandKind → Nat → Nat) : i.mapOperand f = i.opcode.withOperand (f i.opcode.kind n) := by
  simp [Instruction.mapOperand, hn]

/-- An operand that is a constant enters the pool. -/
theorem becomes_constant {i : Instruction} {n size : Nat} (hn : i.operand? = some n)
    (hkind : i.opcode.kind.isConstant = true) (hs : s.pool = .after (m.usesOf seen))
    (hseen : seenAfter seen i <+: m.mentions) (hc : m.constants[n]? = some c) :
    s.intern c = (m.renumber n, { s with pool := .after (m.usesOf (seenAfter seen i)) }) ∧
      (Draft.ready (i.opcode.withOperand (m.renumber n))).Becomes m size i := by
  have hafter : seenAfter seen i = seen ++ [n] := by
    simp [seenAfter, Instruction.constant?, hkind, hn]
  rw [hafter] at hseen ⊢
  refine ⟨intern_mentioned hs hseen hc, fun final labels _ _ => ?_⟩
  simp [State.resolve, mapOperand_of_some hn, Module.canonicalOperand, hkind]

/-- An operand that is no constant leaves the pool as it was. -/
theorem seenAfter_of_not_constant {i : Instruction} (hkind : i.opcode.kind.isConstant = false)
    (hs : s.pool = .after (m.usesOf seen)) :
    { s with pool := .after (m.usesOf (seenAfter seen i)) } = s := by
  have hafter : seenAfter seen i = seen := by
    simp [seenAfter, Instruction.constant?, hkind]
  rw [hafter, ← hs]

/-- The operand of an instruction is read back. -/
theorem draft_operandText {i : Instruction} {n : Nat} (size line : Nat)
    (hm : m.Legible) (hn : i.operand? = some n) (h : m.Denotes n i.opcode.kind)
    (hsmall : i.opcode.kind = .local ∨ i.opcode.kind = .count → n < 0x40000000)
    (hs : s.pool = .after (m.usesOf seen)) (hseen : seenAfter seen i <+: m.mentions) :
    ∃ d, s.draft line i.opcode (m.operandText i.opcode.kind n).toList =
        .ok (d, { s with pool := .after (m.usesOf (seenAfter seen i)) }) ∧
      d.Becomes m size i := by
  have hconstant : ∀ {c}, i.opcode.kind.isConstant = true → m.constants[n]? = some c →
      s.intern c = (m.renumber n, { s with pool := .after (m.usesOf (seenAfter seen i)) }) ∧
        (Draft.ready (i.opcode.withOperand (m.renumber n))).Becomes m size i :=
    fun hkind hc => becomes_constant hn hkind hs hseen hc
  have hother : i.opcode.kind.isConstant = false →
      { s with pool := .after (m.usesOf (seenAfter seen i)) } = s :=
    fun hkind => seenAfter_of_not_constant hkind hs
  have hready : ∀ {d}, m.canonicalOperand size i.opcode.kind n = n →
      d = Draft.ready (i.opcode.withOperand n) → d.Becomes m size i := by
    rintro d hsame rfl final labels _ _
    rw [State.resolve, mapOperand_of_some hn, hsame]
  -- One case for each kind of operand: constants enter the pool, and all else leaves it alone.
  cases hkind : i.opcode.kind <;> rw [hkind] at h hconstant hother hready
  case intConstant =>
    obtain ⟨v, hv⟩ := h
    obtain ⟨hintern, hbecomes⟩ := hconstant rfl hv
    refine ⟨_, ?_, hbecomes⟩
    simp only [State.draft, hkind, Module.operandText, hv, Constant.literal, readInt,
      Decimal.readInt32?_toString, Except.ok_bind, hintern]
    rfl
  case doubleConstant =>
    obtain ⟨x, hx⟩ := h
    obtain ⟨hintern, hbecomes⟩ := hconstant rfl hx
    have hnumber := hm.doubles x (Array.mem_of_getElem? hx)
    refine ⟨_, ?_, hbecomes⟩
    simp only [State.draft, hkind, Module.operandText, hx, Constant.literal, readDouble,
      hnumber, Except.ok_bind, hintern]
    rfl
  case stringConstant =>
    obtain ⟨t, ht⟩ := h
    obtain ⟨hintern, hbecomes⟩ := hconstant rfl ht
    refine ⟨_, ?_, hbecomes⟩
    simp only [State.draft, hkind, Module.operandText, ht, Constant.literal, readString_quote,
      Except.ok_bind, hintern]
    rfl
  case name =>
    obtain ⟨t, ht⟩ := h
    obtain ⟨hintern, hbecomes⟩ := hconstant rfl ht
    have htext : (m.stringConstant n).toOption.getD "" = t := by
      rw [Module.stringConstant_eq_ok.2 ht]
      rfl
    refine ⟨_, ?_, hbecomes⟩
    simp only [State.draft, hkind, Module.operandText, htext, readName_nameText,
      Except.ok_bind, hintern]
    rfl
  case method =>
    refine ⟨.closure (m.methodName n) line, ?_, ?_⟩
    · simp only [State.draft, hkind, Module.operandText, readName_nameText, Except.ok_bind, hother rfl]
      rfl
    · intro final labels hfinal _
      rw [State.resolve, resolveMethod_of_names hm hfinal h, eq_newFunction hkind hn]
      rfl
  case target =>
    refine ⟨.branch i.opcode (labelName n) line, ?_, ?_⟩
    · have htext : (m.operandText .target n).toList = labelChars n := toList_labelName n
      have hname : String.ofList (labelChars n) = labelName n := by
        rw [← toList_labelName, String.ofList_toList]
      simp only [State.draft, hkind, htext, readNat?_labelChars, hname, hother rfl]
      rfl
    · -- The label gets its place when the method is closed.
      intro final labels _ hlabels
      have htarget : i.target? = some n := (target?_eq_operand? hkind).trans hn
      rw [State.resolve, hlabels n htarget, mapOperand_of_some hn, hkind]
      rfl
  case «local» =>
    refine ⟨_, ?_, hready rfl rfl⟩
    simp only [State.draft, hkind, Module.operandText, Nat.toString_eq_repr, Nat.toList_repr,
      readIndex_toDigits (hsmall (.inl hkind)), hother rfl]
    rfl
  case count =>
    refine ⟨_, ?_, hready rfl rfl⟩
    simp only [State.draft, hkind, Module.operandText, Nat.toString_eq_repr, Nat.toList_repr,
      readIndex_toDigits (hsmall (.inr hkind)), hother rfl]
    rfl
  case none =>
    have habsurd := Instruction.operand?_isNone i
    simp [hn, hkind] at habsurd

theorem toList_instructionText (i : Instruction) :
    (m.instructionText i).toList = match i.operand? with
      | none => i.opcode.mnemonic.toList
      | some n => i.opcode.mnemonic.toList ++ ' ' :: (m.operandText i.opcode.kind n).toList := by
  unfold Module.instructionText
  cases i.operand? with
  | none => rfl
  | some n =>
    rw [String.toList_append, String.toList_append, List.append_assoc]
    rfl

theorem piece_instructionText {i : Instruction} (h : m.Resolves i) :
    Piece (m.instructionText i).toList := by
  rw [toList_instructionText]
  cases hn : i.operand? with
  | none => exact piece_mnemonic i.opcode
  | some n => exact (piece_mnemonic i.opcode).spaced (piece_operandText (h.denotes hn))

/-- The line of an instruction is read back. -/
theorem addInstruction_text {i : Instruction} (size line : Nat) (hm : m.Legible) (h : m.Resolves i)
    (hsmall : ∀ n, i.operand? = some n →
      i.opcode.kind = .local ∨ i.opcode.kind = .count → n < 0x40000000)
    (hs : s.pool = .after (m.usesOf seen)) (hseen : seenAfter seen i <+: m.mentions) :
    ∃ operand d, BodyLine.read? (m.instructionText i).toList =
        some (.instruction i.opcode.mnemonic.toList operand) ∧
      s.addInstruction line i.opcode.mnemonic.toList operand =
        .ok (d, { s with pool := .after (m.usesOf (seenAfter seen i)) }) ∧
      d.Becomes m size i := by
  have hnone := Instruction.operand?_isNone i
  rw [toList_instructionText]
  cases hn : i.operand? with
  | none =>
    have hkind : i.opcode.kind = .none := by simpa [hn] using hnone
    have hsame : i.opcode.withOperand 0 = i := by simpa [hn] using Instruction.withOperand_opcode i
    refine ⟨none, .ready i, read?_bare i.opcode, ?_, fun final labels _ _ => ?_⟩
    · rw [seenAfter_of_not_constant (by rw [hkind]; rfl) hs]
      simp [State.addInstruction, hkind, hsame]
    · simp [State.resolve, Instruction.mapOperand, hn]
  | some n =>
    have hkind : i.opcode.kind ≠ .none := by simpa [hn] using hnone
    obtain ⟨d, hdraft, hbecomes⟩ :=
      draft_operandText size line hm hn (h.denotes hn) (hsmall n hn) hs hseen
    refine ⟨some _, d, read?_operand i.opcode (piece_operandText (h.denotes hn)), ?_, hbecomes⟩
    simp [State.addInstruction, hkind, hdraft]

end Assembly

end MovieVm.Bytecode
