import MovieVm.Bytecode.Module
import MovieVm.Proofs.Success

/-!
# Resolved references

What the check of a module's references establishes: each index stands for a method, or for a constant of
the kind that its place asks for.
-/

namespace MovieVm.Bytecode

namespace Module

/-- The operand of an instruction stands for something of the right kind. -/
def Resolves (m : Module) : Instruction → Prop
  | .pushInt i => ∃ n, m.constants[i]? = some (.int n)
  | .pushDouble i => ∃ x, m.constants[i]? = some (.double x)
  | .pushString i | .getGlobal i | .setGlobal i => ∃ s, m.constants[i]? = some (.string s)
  | .newFunction i => i < m.methods.size
  | _ => True

def ResolvesBinding (m : Module) : Binding → Prop
  | .slot (some i) => i < m.constants.size
  | .slot none => True
  | .method i => i < m.methods.size

/-- Every index of a module stands for something. -/
structure Resolved (m : Module) : Prop where
  init : m.init < m.methods.size
  methodName : ∀ method ∈ m.methods, ∃ s, m.constants[method.name]? = some (.string s)
  code : ∀ method ∈ m.methods, ∀ i ∈ method.code, m.Resolves i
  definitionName : ∀ d ∈ m.definitions, ∃ s, m.constants[d.name]? = some (.string s)
  binding : ∀ d ∈ m.definitions, m.ResolvesBinding d.binding

/-! ## The single checks -/

variable {m : Module}

theorem checkConstant_eq_ok {index : Nat} {kind : ConstantKind} :
    m.checkConstant index kind = .ok () ↔ ∃ c, m.constants[index]? = some c ∧ c.kind = kind := by
  unfold checkConstant
  cases m.constants[index]? with
  | none => simp
  | some c => by_cases h : c.kind = kind <;> simp [h]

theorem checkConstant_string {index : Nat} :
    m.checkConstant index .string = .ok () ↔ ∃ s, m.constants[index]? = some (.string s) := by
  rw [checkConstant_eq_ok]
  constructor
  · rintro ⟨c, hc, hkind⟩
    cases c <;> simp_all [Constant.kind]
  · rintro ⟨s, hs⟩
    exact ⟨_, hs, rfl⟩

theorem checkMethod_eq_ok {index : Nat} :
    m.checkMethod index = .ok () ↔ index < m.methods.size := by
  unfold checkMethod
  split <;> simp_all

theorem checkInstruction_eq_ok {i : Instruction} :
    m.checkInstruction i = .ok () ↔ m.Resolves i := by
  -- Only operands that are indices are checked; slots, counts and targets are numbers.
  cases i with
  | pushInt index =>
    simp only [checkInstruction, checkConstant_eq_ok, Resolves]
    constructor
    · rintro ⟨c, hc, hkind⟩
      cases c <;> simp_all [Constant.kind]
    · rintro ⟨n, hn⟩
      exact ⟨_, hn, rfl⟩
  | pushDouble index =>
    simp only [checkInstruction, checkConstant_eq_ok, Resolves]
    constructor
    · rintro ⟨c, hc, hkind⟩
      cases c <;> simp_all [Constant.kind]
    · rintro ⟨x, hx⟩
      exact ⟨_, hx, rfl⟩
  | pushString index => exact checkConstant_string
  | getGlobal index => exact checkConstant_string
  | setGlobal index => exact checkConstant_string
  | newFunction index => exact checkMethod_eq_ok
  | _ => simp [checkInstruction, Resolves]

theorem checkBinding_eq_ok {b : Binding} :
    m.checkBinding b = .ok () ↔ m.ResolvesBinding b := by
  cases b with
  | slot constant =>
    cases constant with
    | none => simp [checkBinding, ResolvesBinding]
    | some index =>
      simp only [checkBinding, ResolvesBinding]
      split <;> simp_all
  | method index => exact checkMethod_eq_ok

/-! ## The whole check -/

theorem checkReferences_eq_ok : m.checkReferences = .ok () ↔ m.Resolved := by
  simp only [checkReferences, Except.check_bind_eq_ok, Except.forM_eq_ok, checkMethod_eq_ok,
    checkConstant_string, checkInstruction_eq_ok, checkBinding_eq_ok, Array.mem_toList_iff]
  constructor
  · rintro ⟨hinit, hmethods, hdefinitions⟩
    exact {
      init := hinit
      methodName := fun method h => (hmethods method h).1
      code := fun method h => (hmethods method h).2
      definitionName := fun d h => (hdefinitions d h).1
      binding := fun d h => (hdefinitions d h).2 }
  · intro h
    exact ⟨h.init, fun method hm => ⟨h.methodName method hm, h.code method hm⟩,
      fun d hd => ⟨h.definitionName d hd, h.binding d hd⟩⟩

theorem Resolved.stringConstant_methodName {method : Method} (h : m.Resolved)
    (hmethod : method ∈ m.methods) : ∃ s, m.stringConstant method.name = .ok s := by
  obtain ⟨s, hs⟩ := h.methodName method hmethod
  exact ⟨s, by simp [stringConstant, hs]⟩

end Module

end MovieVm.Bytecode
