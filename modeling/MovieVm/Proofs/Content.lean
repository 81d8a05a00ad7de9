import MovieVm.Proofs.Canonical

/-!
# What a module says

The content of a module is what its text spells out: constants and names stand in the place of their
indices. Modules of one content differ in nothing but the numbering of their constants.
-/

namespace MovieVm.Bytecode

/-! ## Content -/

/-- An operand is what the constants have for it, or the number itself. -/
inductive OperandContent where
  | constant (c : Except ModuleError Constant)
  | name (s : Except ModuleError String)
  | number (n : Nat)

structure InstructionContent where
  opcode : Opcode
  operand : Option OperandContent

structure MethodContent where
  name : Except ModuleError String
  params : Nat
  locals : Nat
  code : List InstructionContent

inductive BindingContent where
  | slot (value : Option (Except ModuleError Constant))
  | method (index : Nat)

structure DefinitionContent where
  name : Except ModuleError String
  binding : BindingContent

structure ModuleContent where
  label : String
  methods : List MethodContent
  definitions : List DefinitionContent
  init : Nat

namespace Module

variable (m : Module)

def operandContent (kind : OperandKind) (n : Nat) : OperandContent :=
  match kind with
  | .intConstant | .doubleConstant | .stringConstant => .constant (m.constant n)
  | .name => .name (m.stringConstant n)
  | _ => .number n

def instructionContent (i : Instruction) : InstructionContent :=
  ⟨i.opcode, i.operand?.map (m.operandContent i.opcode.kind)⟩

def methodContent (method : Method) : MethodContent where
  name := m.stringConstant method.name
  params := method.params
  locals := method.locals
  code := method.code.toList.map m.instructionContent

def bindingContent : Binding → BindingContent
  | .slot constant => .slot (constant.map m.constant)
  | .method index => .method index

def definitionContent (d : Definition) : DefinitionContent :=
  ⟨m.stringConstant d.name, m.bindingContent d.binding⟩

def content : ModuleContent where
  label := m.label
  methods := m.methods.toList.map m.methodContent
  definitions := m.definitions.map m.definitionContent
  init := m.init

end Module

/-- Branches past the end of the code go to its end. -/
def Method.clamped (method : Method) : Method :=
  { method with code := method.code.map (Instruction.clamp method.code.size) }

def Module.clamped (m : Module) : Module :=
  { m with methods := m.methods.map Method.clamped }

/-! ## Symbols -/

/-- The global that an instruction names. -/
def InstructionContent.global? (i : InstructionContent) : Option String :=
  match i.operand with
  | some (.name s) => s.toOption
  | _ => none

def ModuleContent.symbolNames (c : ModuleContent) : List String :=
  sortedStrings ((c.definitions.filterMap (·.name.toOption)) ++
    c.methods.flatMap fun method => method.name.toOption.toList ++
      method.code.filterMap InstructionContent.global?)

namespace Module

variable {m : Module}

theorem globalNames_eq (method : Method) :
    m.globalNames method = (m.methodContent method).code.filterMap InstructionContent.global? := by
  rw [globalNames, methodContent, List.filterMap_map]
  refine congrArg (fun f => List.filterMap f method.code.toList) (funext fun i => ?_)
  cases i <;> rfl

/-- The symbols of a module are those of its content. -/
theorem symbolNames_eq (m : Module) : m.symbolNames = m.content.symbolNames := by
  simp only [symbolNames, definitionNames, globalNames_eq, ModuleContent.symbolNames, content,
    List.filterMap_map, List.flatMap_map]
  rfl

theorem symbolNames_clamped (m : Module) : m.clamped.symbolNames = m.symbolNames := by
  -- A branch names no global.
  have hglobal : ∀ (size : Nat) (i : Instruction),
      (m.instructionContent (i.clamp size)).global? = (m.instructionContent i).global? := by
    intro size i
    cases i <;> rfl
  have hnames : ∀ method, m.clamped.globalNames method.clamped = m.globalNames method := by
    intro method
    rw [globalNames_eq, globalNames_eq]
    simp only [methodContent, Method.clamped, Array.toList_map, List.map_map, List.filterMap_map,
      Function.comp_def]
    exact congrArg (fun f => List.filterMap f method.code.toList) (funext fun i => hglobal _ i)
  simp only [symbolNames, clamped, Array.toList_map, List.flatMap_map]
  simp only [clamped] at hnames
  simp only [hnames]
  rfl

/-! ## The content of the canonical form -/

namespace Resolved

variable {index : Nat}

theorem constant_canonical (h : m.Resolved) (hindex : index ∈ m.mentions) :
    m.canonical.constant (m.renumber index) = m.constant index := by
  obtain ⟨c, hc⟩ := h.mentioned hindex
  rw [constant, constant, h.canonical_constant hindex, hc]

theorem stringConstant_canonical (h : m.Resolved) (hindex : index ∈ m.mentions) {s : String}
    (hs : m.constants[index]? = some (.string s)) :
    m.canonical.stringConstant (m.renumber index) = m.stringConstant index := by
  rw [stringConstant, stringConstant, h.canonical_constant hindex, hs]

theorem instructionContent_canonical (h : m.Resolved) {i : Instruction} (hi : m.Resolves i)
    (hmentioned : ∀ index, i.constant? = some index → index ∈ m.mentions) (size : Nat) :
    m.canonical.instructionContent (i.mapOperand (m.canonicalOperand size)) =
      m.instructionContent (i.clamp size) := by
  -- A constant is looked up; any other operand is the number itself, clamped on both sides.
  cases i with
  | pushInt n | pushDouble n | pushString n =>
    have hconstant := h.constant_canonical (hmentioned n rfl)
    exact congrArg (fun c => InstructionContent.mk _ (some (.constant c))) hconstant
  | getGlobal n | setGlobal n =>
    obtain ⟨s, hs⟩ := hi
    have hname := h.stringConstant_canonical (hmentioned n rfl) hs
    exact congrArg (fun s => InstructionContent.mk _ (some (.name s))) hname
  | _ => rfl

theorem methodContent_canonical (h : m.Resolved) {method : Method} (hmethod : method ∈ m.methods) :
    m.canonical.methodContent (m.canonicalMethod method) = m.methodContent method.clamped := by
  obtain ⟨s, hs⟩ := h.methodName method hmethod
  have hname := h.stringConstant_canonical (methodName_mem_mentions hmethod) hs
  have hcode : ∀ i ∈ method.code.toList,
      m.canonical.instructionContent (i.mapOperand (m.canonicalOperand method.code.size)) =
        m.instructionContent (i.clamp method.code.size) := by
    intro i hi
    have hi : i ∈ method.code := Array.mem_toList_iff.1 hi
    exact h.instructionContent_canonical (h.code method hmethod i hi)
      (fun index hconstant => operand_mem_mentions hmethod hi hconstant) _
  simp only [methodContent, canonicalMethod, Method.clamped, hname, Array.toList_map, List.map_map]
  exact congrArg (MethodContent.mk _ _ _) (List.map_congr_left hcode)

theorem definitionContent_canonical (h : m.Resolved) {d : Definition} (hd : d ∈ m.definitions) :
    m.canonical.definitionContent (m.canonicalDefinition d) = m.definitionContent d := by
  obtain ⟨s, hs⟩ := h.definitionName d hd
  have hname := h.stringConstant_canonical (definitionMentions_subset hd (List.mem_cons_self ..)) hs
  simp only [definitionContent, canonicalDefinition, hname]
  rcases hslot : d.binding with (_ | index) | index
  · rfl
  · have hmentioned : index ∈ m.mentions :=
      definitionMentions_subset hd (by simp [definitionMentions, hslot])
    simp [canonicalBinding, bindingContent, h.constant_canonical hmentioned]
  · rfl

/-- The canonical form has the content of the module, once its branches are clamped. -/
theorem content_canonical (h : m.Resolved) : m.canonical.content = m.clamped.content := by
  have hmethods : m.canonical.methods.toList.map m.canonical.methodContent =
      m.clamped.methods.toList.map m.clamped.methodContent := by
    simp only [Module.canonical, clamped, Array.toList_map, List.map_map]
    exact List.map_congr_left fun method hmethod =>
      h.methodContent_canonical (Array.mem_toList_iff.1 hmethod)
  have hdefinitions : m.canonical.definitions.map m.canonical.definitionContent =
      m.clamped.definitions.map m.clamped.definitionContent := by
    simp only [Module.canonical, clamped, List.map_map]
    exact List.map_congr_left fun d hd => h.definitionContent_canonical hd
  rw [content, content, hmethods, hdefinitions]
  rfl

end Resolved

end Module

end MovieVm.Bytecode
