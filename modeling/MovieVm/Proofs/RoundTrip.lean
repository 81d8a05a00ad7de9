import MovieVm.Proofs.Content
import MovieVm.Proofs.Reassembly

/-!
# The text of a module says all of it

Assembling the disassembly of a module gives a module of the same content, and assembling the disassembly
of that one gives it once more.
-/

namespace MovieVm.Bytecode

namespace Module

variable {m : Module}

/-- The canonical form can be printed as well as the module. -/
theorem Printable.canonical (hm : m.Printable) : m.canonical.Printable where
  references := checkReferences_eq_ok.2 hm.resolved.canonical
  names := by
    have hsame : m.canonical.methods.toList.map (fun method => m.canonical.stringConstant method.name) =
        m.methods.toList.map fun method => m.stringConstant method.name := by
      simp only [Module.canonical, Array.toList_map, List.map_map]
      refine List.map_congr_left fun method hmethod => ?_
      have hmethod : method ∈ m.methods := Array.mem_toList_iff.1 hmethod
      obtain ⟨s, hs⟩ := hm.resolved.methodName method hmethod
      exact hm.resolved.stringConstant_canonical (methodName_mem_mentions hmethod) hs
    rw [hsame]
    exact hm.names
  params := by
    intro _ hmem
    obtain ⟨method, hmethod, rfl⟩ := Array.mem_map.1 hmem
    exact hm.params method hmethod
  counts := by
    intro _ hmem
    obtain ⟨method, hmethod, rfl⟩ := Array.mem_map.1 hmem
    exact hm.counts method hmethod
  operands := by
    intro _ hmem _ himem n hn hkind
    obtain ⟨method, hmethod, rfl⟩ := Array.mem_map.1 hmem
    obtain ⟨i, hi, rfl⟩ := Array.mem_map.1 himem
    rw [Instruction.opcode_mapOperand] at hkind
    have hnumber : m.canonicalOperand method.code.size i.opcode.kind = id := by
      funext n
      rcases hkind with hkind | hkind <;> simp [canonicalOperand, hkind, OperandKind.isConstant]
    rw [Instruction.operand?_mapOperand, hnumber, Option.map_id] at hn
    exact hm.operands method hmethod i hi n hn hkind
  doubles := by
    intro x hx
    have hpool : .double x ∈ m.pool := by simpa [Module.canonical] using hx
    obtain ⟨index, _, hc⟩ := List.mem_filterMap.1 (List.mem_eraseDups.1 hpool)
    exact hm.doubles x (Array.mem_of_getElem? hc)
  label := hm.label

/-- A module is read back from its text: with the same methods, instructions, definitions, initializer and
symbols, branches past the end of the code now going to its end. What was read back is read back unchanged. -/
theorem disassembly_faithful (m : Module) (hm : m.Printable) :
    ∃ m', Module.assemble m.disassemble m.label = .ok m' ∧
      m'.content = m.clamped.content ∧ m'.symbolNames = m.symbolNames ∧
      Module.assemble m'.disassemble m'.label = .ok m' := by
  have hresolved := hm.resolved
  have hcontent := hresolved.content_canonical
  refine ⟨m.canonical, assemble_disassemble hm, hcontent, ?_, ?_⟩
  · rw [symbolNames_eq, hcontent, ← symbolNames_eq, symbolNames_clamped]
  · -- The text of the canonical form gives its canonical form, which is itself.
    have hagain := assemble_disassemble hm.canonical
    rwa [hresolved.canonical_canonical] at hagain

/-- A module whose text has a quoted name, a double and a branch past the end of the code. -/
def quotedName : Module where
  label := "sample.abc"
  minorVersion := supportedMinor
  majorVersion := supportedMajor
  constants := #[.double ⟨0x3fb999999999999a⟩, .string "main", .string "a; b", .int (-3)]
  methods := #[⟨1, 1, 2, #[.pushInt 3, .setLocal 1, .getGlobal 2, .ifTrue 9, .returnVoid]⟩,
    ⟨2, 0, 0, #[.newFunction 0, .call 0, .jump 7]⟩]
  definitions := [⟨2, .slot (some 0)⟩, ⟨1, .method 0⟩]
  init := 0

theorem printable_quotedName : quotedName.Printable where
  references := rfl
  names := by simp [quotedName, stringConstant]
  params := by decide
  counts := by decide
  operands := by decide
  doubles := by
    intro x hx
    obtain rfl : x = ⟨0x3fb999999999999a⟩ := by simpa [quotedName] using hx
    decide
  label := by decide

theorem disassembly_faithful_quotedName : quotedName.Printable ∧
    ∃ m', Module.assemble quotedName.disassemble quotedName.label = .ok m' ∧
      m'.content = quotedName.clamped.content ∧ m'.symbolNames = quotedName.symbolNames ∧
      Module.assemble m'.disassemble m'.label = .ok m' :=
  ⟨printable_quotedName, disassembly_faithful quotedName printable_quotedName⟩

end Module

end MovieVm.Bytecode
