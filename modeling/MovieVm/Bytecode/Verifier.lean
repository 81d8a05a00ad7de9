import MovieVm.Bytecode.Module

/-!
# Verification

A method may run when its locals and branch targets are in range, and when every reachable instruction
has one depth of the operand stack, finds its operands there, and never passes control past the end.
-/

namespace MovieVm.Bytecode

inductive VerifyFault where
  | tooManyLocals (locals : Nat)
  | localsBelowParams (locals params : Nat)
  | localOutOfRange (slot : Nat)
  | branchOutOfRange (target : Nat)
  | fallsOff
  | depthConflict (depth seen : Nat)
  | underflow (mnemonic : String) (needs has : Nat)
deriving DecidableEq

def VerifyFault.message : VerifyFault → String
  | tooManyLocals locals => s!"{locals} locals exceed the limit of {maxLocals}"
  | localsBelowParams locals params => s!"{locals} locals cannot hold {params} parameters"
  | localOutOfRange slot => s!"local {slot} out of range"
  | branchOutOfRange target => s!"branch target {target} out of range"
  | fallsOff => "control falls off the end of the method"
  | depthConflict depth seen => s!"stack depth {depth} conflicts with {seen} at join"
  | underflow mnemonic needs has => s!"{mnemonic} needs {needs} operands, stack has {has}"

structure VerifyError where
  method : String
  instruction : Nat
  fault : VerifyFault
deriving DecidableEq

def VerifyError.message (e : VerifyError) : String :=
  s!"verify error in {e.method} at instruction {e.instruction}: {e.fault.message}"

namespace Verifier

/-- A fault and the instruction it was found at. -/
abbrev Check (α : Type) := Except (Nat × VerifyFault) α

def checkFrame (m : Method) : Check Unit :=
  if maxLocals < m.locals then .error (0, .tooManyLocals m.locals)
  else if m.locals < m.params then .error (0, .localsBelowParams m.locals m.params)
  else .ok ()

/-! ## Operands -/

def checkOperand (m : Method) (pc : Nat) (i : Instruction) : Check Unit :=
  match i.local?, i.target? with
  | some slot, _ => if slot < m.locals then .ok () else .error (pc, .localOutOfRange slot)
  | none, some target =>
    if target < m.code.size then .ok () else .error (pc, .branchOutOfRange target)
  | none, none => .ok ()

/-- Every operand in the code, reachable or not. -/
def checkOperands (m : Method) : Check Unit :=
  m.code.toList.zipIdx.forM fun (i, pc) => checkOperand m pc i

/-! ## Stack depths -/

/-- What is known of a method's stack: the depth at each instruction visited so far, and the deepest stack
that any of them leaves. -/
structure Survey where
  depths : Array (Option Nat)
  deepest : Nat

/-- Nothing has been visited. -/
def Survey.blank (size : Nat) : Survey :=
  ⟨Array.replicate size none, 0⟩

/-- Notes that an instruction is reached at one depth and leaves another. -/
def Survey.visit (s : Survey) (pc depth next : Nat) : Survey :=
  ⟨s.depths.setIfInBounds pc (some depth), max s.deepest next⟩

/-- A visit leaves one instruction less without a depth. -/
theorem Survey.countP_visit (s : Survey) {pc : Nat} (depth next : Nat) (h : s.depths[pc]? = some none) :
    (s.visit pc depth next).depths.countP Option.isNone + 1 = s.depths.countP Option.isNone := by
  obtain ⟨hpc, hget⟩ := Array.getElem?_eq_some_iff.1 h
  have hpos : 0 < s.depths.countP Option.isNone :=
    Array.countP_pos_iff.2 ⟨s.depths[pc], Array.getElem_mem hpc, by simp [hget]⟩
  simp only [visit, Array.setIfInBounds, hpc, dite_true, Array.countP_set, hget]
  simp
  omega

/-- Visits the instructions of a worklist. -/
def explore (code : Array Instruction) (s : Survey) : List (Nat × Nat) → Check Survey
  | [] => .ok s
  | (pc, depth) :: work =>
    match code[pc]?, _h : s.depths[pc]? with
    | some _, some (some seen) =>
      if seen = depth then explore code s work
      else .error (pc, .depthConflict depth seen)
    | some i, some none =>
      if depth < i.pops then .error (pc, .underflow i.opcode.mnemonic i.pops depth)
      else
        let next := i.depthAfter depth
        explore code (s.visit pc depth next) ((i.successors pc).map (·, next) ++ work)
    | _, _ => .error (pc, .fallsOff)
termination_by work => 2 * s.depths.countP Option.isNone + work.length
decreasing_by
  · simp
  · have hone := i.length_successors pc
    have hvisit := s.countP_visit depth (i.depthAfter depth) _h
    simp only [List.length_append, List.length_map, List.length_cons]
    omega

/-- The depths of a method's stack, found from its first instruction on. -/
def survey (m : Method) : Check Survey :=
  explore m.code (.blank m.code.size) [(0, 0)]

def checkStack (m : Method) : Check Nat :=
  (survey m).map (·.deepest)

def checkMethod (m : Method) : Check Nat := do
  checkFrame m
  checkOperands m
  checkStack m

end Verifier

/-- Verifies a method under a name; the answer is the deepest its operand stack gets. -/
def Method.verify (m : Method) (name : String) : Except VerifyError Nat :=
  match Verifier.checkMethod m with
  | .ok depth => .ok depth
  | .error (pc, fault) => .error ⟨name, pc, fault⟩

/-- Verifies every method, in order. -/
def Module.verify (m : Module) : Except VerifyError Unit :=
  m.methods.toList.zipIdx.forM fun (method, index) => do
    let _ ← method.verify (m.methodName index)

end MovieVm.Bytecode
