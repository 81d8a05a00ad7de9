import MovieVm.Bytecode.Disassembly
import MovieVm.Proofs.References

/-!
# The canonical form of a module

Modules that differ in nothing but the order of their constants and in how far branches go past the end of
the code have one text. The canonical form is the one of them whose constants stand in the order in which
the text mentions them, each once, and whose branches end at the end of the code.
-/

namespace MovieVm.Bytecode

/-! ## Operands -/

/-- Whether an operand is the index of a constant. -/
def OperandKind.isConstant : OperandKind → Bool
  | .intConstant | .doubleConstant | .stringConstant | .name => true
  | _ => false

namespace Instruction

/-- The instruction with its operand replaced. -/
def mapOperand (f : OperandKind → Nat → Nat) (i : Instruction) : Instruction :=
  match i.operand? with
  | none => i
  | some n => i.opcode.withOperand (f i.opcode.kind n)

/-- The index of the constant that the instruction mentions. -/
def constant? (i : Instruction) : Option Nat :=
  if i.opcode.kind.isConstant then i.operand? else none

/-- A branch past the end of the code becomes one to its end. -/
def clamp (size : Nat) : Instruction → Instruction :=
  mapOperand fun kind n => if kind = .target then min n size else n

@[simp]
theorem opcode_mapOperand (f : OperandKind → Nat → Nat) (i : Instruction) :
    (i.mapOperand f).opcode = i.opcode := by
  unfold mapOperand
  cases i.operand? <;> simp

@[simp]
theorem operand?_mapOperand (f : OperandKind → Nat → Nat) (i : Instruction) :
    (i.mapOperand f).operand? = i.operand?.map (f i.opcode.kind) := by
  cases i <;> rfl

theorem mapOperand_mapOperand (f g : OperandKind → Nat → Nat) (i : Instruction) :
    (i.mapOperand f).mapOperand g = i.mapOperand fun kind n => g kind (f kind n) := by
  cases i <;> rfl

theorem mapOperand_congr {f g : OperandKind → Nat → Nat} {i : Instruction}
    (h : ∀ n, i.operand? = some n → f i.opcode.kind n = g i.opcode.kind n) :
    i.mapOperand f = i.mapOperand g := by
  unfold mapOperand
  cases hoperand : i.operand? with
  | none => rfl
  | some n => simp only [h n hoperand]

end Instruction

/-! ## The canonical form -/

namespace Module

def methodMentions (method : Method) : List Nat :=
  method.name :: method.code.toList.filterMap Instruction.constant?

def definitionMentions (d : Definition) : List Nat :=
  d.name :: match d.binding with
    | .slot (some index) => [index]
    | _ => []

/-- The indices of constants that the text mentions, in its order. -/
def mentions (m : Module) : List Nat :=
  m.methods.toList.flatMap methodMentions ++ m.definitions.flatMap definitionMentions

def uses (m : Module) : List Constant :=
  m.mentions.filterMap (m.constants[·]?)

/-- The constants of the text in the order of their first mention. -/
def pool (m : Module) : List Constant :=
  m.uses.eraseDups

/-- Where the pool has the constant of an index. -/
def renumber (m : Module) (index : Nat) : Nat :=
  match m.constants[index]? with
  | some c => m.pool.idxOf c
  | none => index

/-- The new operand of an instruction in code of the given size. -/
def canonicalOperand (m : Module) (size : Nat) (kind : OperandKind) (n : Nat) : Nat :=
  if kind.isConstant then m.renumber n else if kind = .target then min n size else n

def canonicalMethod (m : Module) (method : Method) : Method where
  name := m.renumber method.name
  params := method.params
  locals := method.locals
  code := method.code.map (Instruction.mapOperand (m.canonicalOperand method.code.size))

def canonicalBinding (m : Module) : Binding → Binding
  | .slot constant => .slot (constant.map m.renumber)
  | .method index => .method index

def canonicalDefinition (m : Module) (d : Definition) : Definition :=
  ⟨m.renumber d.name, m.canonicalBinding d.binding⟩

def canonical (m : Module) : Module where
  label := m.label
  minorVersion := supportedMinor
  majorVersion := supportedMajor
  constants := m.pool.toArray
  methods := m.methods.map m.canonicalMethod
  definitions := m.definitions.map m.canonicalDefinition
  init := m.init

/-! ## Constants that are mentioned -/

variable {m : Module} {index : Nat} {c : Constant}

theorem idxOf_eraseDups_append {us more : List Constant} (h : c ∈ us) :
    (us ++ more).eraseDups.idxOf c = us.eraseDups.idxOf c := by
  rw [List.eraseDups_append, List.idxOf_append, if_pos (List.mem_eraseDups.2 h)]

theorem mem_pool (hindex : index ∈ m.mentions) (hc : m.constants[index]? = some c) : c ∈ m.pool :=
  List.mem_eraseDups.2 (List.mem_filterMap.2 ⟨index, hindex, hc⟩)

theorem renumber_eq (hc : m.constants[index]? = some c) : m.renumber index = m.pool.idxOf c := by
  simp [renumber, hc]

/-- The canonical form has the same constant at the new index. -/
theorem canonical_constant (hindex : index ∈ m.mentions) (hc : m.constants[index]? = some c) :
    m.canonical.constants[m.renumber index]? = some c := by
  have hlt := List.idxOf_lt_length_of_mem (mem_pool hindex hc)
  rw [renumber_eq hc, canonical, List.getElem?_toArray, List.getElem?_eq_getElem hlt,
    List.getElem_idxOf hlt]

theorem methodName_mem_mentions {method : Method} (h : method ∈ m.methods) :
    method.name ∈ m.mentions := by
  simp only [mentions, List.mem_append, List.mem_flatMap]
  exact .inl ⟨method, by simpa using h, by simp [methodMentions]⟩

theorem operand_mem_mentions {method : Method} (h : method ∈ m.methods) {i : Instruction}
    (hi : i ∈ method.code) (hconstant : i.constant? = some index) : index ∈ m.mentions := by
  simp only [mentions, List.mem_append, List.mem_flatMap]
  refine .inl ⟨method, by simpa using h, List.mem_cons_of_mem _ (List.mem_filterMap.2 ⟨i, ?_, hconstant⟩)⟩
  simpa using hi

theorem definitionMentions_subset {d : Definition} (h : d ∈ m.definitions) :
    definitionMentions d ⊆ m.mentions := fun index hindex => by
  simp only [mentions, List.mem_append, List.mem_flatMap]
  exact .inr ⟨d, h, hindex⟩

/-! ## Resolved modules -/

/-- An instruction that mentions a constant resolves to one. -/
theorem Resolves.constant {i : Instruction} (h : m.Resolves i) (hindex : i.constant? = some index) :
    ∃ c, m.constants[index]? = some c := by
  cases i with
  | pushInt n | pushDouble n | pushString n | getGlobal n | setGlobal n =>
    obtain ⟨v, hv⟩ := h
    exact ⟨_, Option.some.inj hindex ▸ hv⟩
  | _ => simp [Instruction.constant?, Instruction.opcode, Opcode.kind, Opcode.info,
      OperandKind.isConstant] at hindex

/-- The name of a method, empty when it has none. -/
def nameOf (m : Module) (method : Method) : String :=
  (m.stringConstant method.name).toOption.getD ""

theorem stringConstant_eq_ok {s : String} :
    m.stringConstant index = .ok s ↔ m.constants[index]? = some (.string s) := by
  unfold stringConstant
  split <;> simp_all

namespace Resolved

theorem mentioned (h : m.Resolved) (hindex : index ∈ m.mentions) :
    ∃ c, m.constants[index]? = some c := by
  simp only [mentions, List.mem_append, List.mem_flatMap, methodMentions, definitionMentions,
    List.mem_cons, List.mem_filterMap] at hindex
  rcases hindex with ⟨method, hmethod, rfl | ⟨i, hi, hconstant⟩⟩ | ⟨d, hd, rfl | hslot⟩
  · obtain ⟨s, hs⟩ := h.methodName method (by simpa using hmethod)
    exact ⟨_, hs⟩
  · exact (h.code method (by simpa using hmethod) i (by simpa using hi)).constant hconstant
  · obtain ⟨s, hs⟩ := h.definitionName d hd
    exact ⟨_, hs⟩
  · have hbinding := h.binding d hd
    rcases hd : d.binding with (_ | i) | i <;>
      simp only [hd, List.mem_singleton, List.not_mem_nil] at hslot
    subst hslot
    rw [hd] at hbinding
    exact ⟨_, Array.getElem?_eq_getElem hbinding⟩

theorem canonical_constant (h : m.Resolved) (hindex : index ∈ m.mentions) :
    m.canonical.constants[m.renumber index]? = m.constants[index]? := by
  obtain ⟨c, hc⟩ := h.mentioned hindex
  rw [hc, Module.canonical_constant hindex hc]

theorem canonical_resolves (h : m.Resolved) {i : Instruction} {size : Nat} (hi : m.Resolves i)
    (hmentioned : ∀ index, i.constant? = some index → index ∈ m.mentions) :
    m.canonical.Resolves (i.mapOperand (m.canonicalOperand size)) := by
  cases i with
  | pushInt n | pushDouble n | pushString n | getGlobal n | setGlobal n =>
    obtain ⟨v, hv⟩ := hi
    exact ⟨v, (h.canonical_constant (hmentioned n rfl)).trans hv⟩
  | newFunction n =>
    have hsize : m.canonical.methods.size = m.methods.size := Array.size_map
    exact Nat.lt_of_lt_of_eq hi hsize.symm
  | _ => trivial

/-- References of the canonical form stand for what they stood for. -/
theorem canonical (h : m.Resolved) : m.canonical.Resolved where
  init := by simpa [Module.canonical] using h.init
  methodName := by
    intro _ hmem
    obtain ⟨method, hmethod, rfl⟩ := Array.mem_map.1 hmem
    obtain ⟨s, hs⟩ := h.methodName method hmethod
    exact ⟨s, (h.canonical_constant (methodName_mem_mentions hmethod)).trans hs⟩
  code := by
    intro _ hmem _ himem
    obtain ⟨method, hmethod, rfl⟩ := Array.mem_map.1 hmem
    obtain ⟨i, hi, rfl⟩ := Array.mem_map.1 himem
    exact h.canonical_resolves (h.code method hmethod i hi)
      fun index hconstant => operand_mem_mentions hmethod hi hconstant
  definitionName := by
    intro _ hmem
    obtain ⟨d, hd, rfl⟩ := List.mem_map.1 hmem
    obtain ⟨s, hs⟩ := h.definitionName d hd
    have hmentioned : d.name ∈ m.mentions := definitionMentions_subset hd (List.mem_cons_self ..)
    exact ⟨s, (h.canonical_constant hmentioned).trans hs⟩
  binding := by
    intro _ hmem
    obtain ⟨d, hd, rfl⟩ := List.mem_map.1 hmem
    have hbinding := h.binding d hd
    rcases hslot : d.binding with (_ | index) | index
    · simp [canonicalDefinition, hslot, canonicalBinding, ResolvesBinding]
    · have hmentioned : index ∈ m.mentions :=
        definitionMentions_subset hd (by simp [definitionMentions, hslot])
      obtain ⟨c, hc⟩ := h.mentioned hmentioned
      have hlt := (Array.getElem?_eq_some_iff.1 (Module.canonical_constant hmentioned hc)).1
      simpa [canonicalDefinition, hslot, canonicalBinding, ResolvesBinding] using hlt
    · rw [hslot] at hbinding
      simpa [canonicalDefinition, hslot, canonicalBinding, ResolvesBinding, Module.canonical] using hbinding

end Resolved

/-! ## The canonical form of the canonical form -/

theorem constant?_canonicalOperand (i : Instruction) (size : Nat) :
    (i.mapOperand (m.canonicalOperand size)).constant? = i.constant?.map m.renumber := by
  by_cases hkind : i.opcode.kind.isConstant = true
  · have hoperand : m.canonicalOperand size i.opcode.kind = m.renumber := by
      funext n
      simp [canonicalOperand, hkind]
    simp [Instruction.constant?, hkind, hoperand]
  · simp [Instruction.constant?, hkind]

theorem mentions_canonical : m.canonical.mentions = m.mentions.map m.renumber := by
  have hmethod : ∀ method, methodMentions (m.canonicalMethod method) =
      (methodMentions method).map m.renumber := by
    intro method
    have hconstants : Instruction.constant? ∘ Instruction.mapOperand (m.canonicalOperand method.code.size) =
        fun i => i.constant?.map m.renumber := funext fun i => constant?_canonicalOperand i _
    simp only [methodMentions, canonicalMethod, Array.toList_map, List.filterMap_map, hconstants, List.map_cons,
      List.map_filterMap]
  have hdefinition : ∀ d, definitionMentions (m.canonicalDefinition d) =
      (definitionMentions d).map m.renumber := by
    intro d
    rcases hslot : d.binding with (_ | index) | index <;>
      simp [definitionMentions, canonicalDefinition, canonicalBinding, hslot]
  simp [mentions, canonical, List.flatMap_map, List.map_flatMap, hmethod, hdefinition]

namespace Resolved

theorem uses_canonical (h : m.Resolved) : m.canonical.uses = m.uses := by
  -- The new indices are mentioned in the old order, and stand for the same constants.
  have hsame : m.mentions.map (fun index => m.canonical.constants[m.renumber index]?) =
      m.mentions.map (m.constants[·]?) :=
    List.map_congr_left fun index hindex => h.canonical_constant hindex
  have hread := congrArg (List.filterMap id) hsame
  simpa only [uses, mentions_canonical, List.filterMap_map, Function.comp_def, id] using hread

theorem renumber_canonical (h : m.Resolved) (hindex : index ∈ m.mentions) :
    m.canonical.renumber (m.renumber index) = m.renumber index := by
  obtain ⟨c, hc⟩ := h.mentioned hindex
  rw [renumber_eq (Module.canonical_constant hindex hc), renumber_eq hc, pool, h.uses_canonical, pool]

theorem canonicalMethod_canonical (h : m.Resolved) {method : Method} (hmethod : method ∈ m.methods) :
    m.canonical.canonicalMethod (m.canonicalMethod method) = m.canonicalMethod method := by
  have hname := h.renumber_canonical (methodName_mem_mentions hmethod)
  have hcode : ∀ i ∈ method.code,
      (i.mapOperand (m.canonicalOperand method.code.size)).mapOperand
        (m.canonical.canonicalOperand method.code.size) =
      i.mapOperand (m.canonicalOperand method.code.size) := by
    intro i hi
    rw [Instruction.mapOperand_mapOperand]
    refine Instruction.mapOperand_congr fun n hn => ?_
    simp only [canonicalOperand]
    -- A number that was renumbered keeps its number, and a target that was clamped stays.
    by_cases hconstant : i.opcode.kind.isConstant = true
    · simp only [hconstant, if_true]
      exact h.renumber_canonical (operand_mem_mentions hmethod hi (by simp [Instruction.constant?, hconstant, hn]))
    · by_cases htarget : i.opcode.kind = .target
      · simp [htarget, OperandKind.isConstant]
      · simp [hconstant, htarget]
  have hmap : (method.code.map (Instruction.mapOperand (m.canonicalOperand method.code.size))).map
      (Instruction.mapOperand (m.canonical.canonicalOperand method.code.size)) =
      method.code.map (Instruction.mapOperand (m.canonicalOperand method.code.size)) := by
    rw [Array.map_map]
    exact Array.map_congr_left hcode
  simp [canonicalMethod, hname, hmap]

theorem canonicalDefinition_canonical (h : m.Resolved) {d : Definition} (hd : d ∈ m.definitions) :
    m.canonical.canonicalDefinition (m.canonicalDefinition d) = m.canonicalDefinition d := by
  have hname := h.renumber_canonical (definitionMentions_subset hd (List.mem_cons_self ..))
  rcases hslot : d.binding with (_ | index) | index
  · simp [canonicalDefinition, canonicalBinding, hslot, hname]
  · have hmentioned : index ∈ m.mentions :=
      definitionMentions_subset hd (by simp [definitionMentions, hslot])
    have hindex := h.renumber_canonical hmentioned
    simp [canonicalDefinition, canonicalBinding, hslot, hname, hindex]
  · simp [canonicalDefinition, canonicalBinding, hslot, hname]

theorem canonical_canonical (h : m.Resolved) : m.canonical.canonical = m.canonical := by
  have hpool : m.canonical.pool = m.pool := by rw [pool, h.uses_canonical, pool]
  have hmethods : m.canonical.methods.map m.canonical.canonicalMethod = m.canonical.methods := by
    simp only [Module.canonical, Array.map_map]
    exact Array.map_congr_left fun method hmethod => h.canonicalMethod_canonical hmethod
  have hdefinitions : m.canonical.definitions.map m.canonical.canonicalDefinition =
      m.canonical.definitions := by
    simp only [Module.canonical, List.map_map]
    exact List.map_congr_left fun d hd => h.canonicalDefinition_canonical hd
  -- Only three fields are made anew; the others are those of the canonical form.
  calc m.canonical.canonical
      = { m.canonical with
          constants := m.canonical.pool.toArray
          methods := m.canonical.methods.map m.canonical.canonicalMethod
          definitions := m.canonical.definitions.map m.canonical.canonicalDefinition } := rfl
    _ = m.canonical := by
      rw [hpool, hmethods, hdefinitions]
      rfl

end Resolved

end Module

end MovieVm.Bytecode
