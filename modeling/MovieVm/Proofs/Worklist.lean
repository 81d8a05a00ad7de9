import MovieVm.Bytecode.Verifier
import MovieVm.Proofs.Success

/-!
# The length of a survey

An item that is taken off the worklist either asks for what is known, or gives an instruction its depth and asks for
its successors, of which there are two at most. So a survey takes no more items than twice the number of
instructions, and the one it begins with.
-/

namespace MovieVm.Bytecode

namespace Verifier

/-! ## One item -/

/-- The instructions whose depth is not known. -/
def Survey.unvisited (s : Survey) : Nat :=
  s.depths.countP Option.isNone

/-- Takes one item: what is known then, and the items that are to be taken next. -/
def takeItem (code : Array Instruction) (s : Survey) : Nat × Nat → Check (Survey × List (Nat × Nat))
  | (pc, depth) =>
    match code[pc]?, s.depths[pc]? with
    | some _, some (some seen) => if seen = depth then .ok (s, []) else .error (pc, .depthConflict depth seen)
    | some i, some none =>
      if depth < i.pops then .error (pc, .underflow i.opcode.mnemonic i.pops depth)
      else .ok (s.visit pc depth (i.depthAfter depth), (i.successors pc).map (·, i.depthAfter depth))
    | _, _ => .error (pc, .fallsOff)

variable {code : Array Instruction} {s s' : Survey} {item : Nat × Nat} {work more : List (Nat × Nat)}

theorem explore_cons (code : Array Instruction) (s : Survey) (item : Nat × Nat) (work : List (Nat × Nat)) :
    explore code s (item :: work) =
      takeItem code s item >>= fun (s', more) => explore code s' (more ++ work) := by
  obtain ⟨pc, depth⟩ := item
  rw [explore]
  split
  · rename_i i seen hseen hi
    simp only [takeItem, hi, hseen]
    split <;> rfl
  · rename_i i hnew hi
    simp only [takeItem, hi, hnew]
    split <;> rfl
  · rename_i hseen hnew
    -- What is neither known nor new is no instruction.
    have hfalls : takeItem code s (pc, depth) = .error (pc, .fallsOff) := by
      rw [takeItem]
      split
      · exact absurd ‹_› (hseen _ _ ‹_›)
      · exact absurd ‹_› (hnew _ ‹_›)
      · rfl
    rw [hfalls]
    rfl

/-- Two items at most are asked for, and only where an instruction gets its depth. -/
theorem takeItem_measure (h : takeItem code s item = .ok (s', more)) :
    2 * s'.unvisited + more.length ≤ 2 * s.unvisited := by
  obtain ⟨pc, depth⟩ := item
  rw [takeItem] at h
  split at h
  · split at h
    · obtain ⟨rfl, rfl⟩ := Prod.mk.inj (Except.ok.inj h)
      exact Nat.le_refl _
    · cases h
  · rename_i i _ hnew
    split at h
    · cases h
    · obtain ⟨rfl, rfl⟩ := Prod.mk.inj (Except.ok.inj h)
      have hvisit : (s.visit pc depth (i.depthAfter depth)).unvisited + 1 = s.unvisited := s.countP_visit _ _ hnew
      have hlength := i.length_successors pc
      rw [List.length_map]
      omega
  · cases h

/-! ## All items -/

/-- Explores as far as `limit` items go. Without an outcome when they are not enough. -/
def exploreTaking (code : Array Instruction) : (limit : Nat) → Survey → List (Nat × Nat) → Option (Check Survey)
  | _, s, [] => some (.ok s)
  | 0, _, _ :: _ => none
  | limit + 1, s, item :: work =>
    match takeItem code s item with
    | .ok (s', more) => exploreTaking code limit s' (more ++ work)
    | .error fault => some (.error fault)

theorem exploreTaking_eq {limit : Nat} (h : 2 * s.unvisited + work.length ≤ limit) :
    exploreTaking code limit s work = some (explore code s work) := by
  induction limit generalizing s work with
  | zero =>
    cases work with
    | nil => rw [exploreTaking, explore]
    | cons item work => simp at h
  | succ limit ih =>
    cases work with
    | nil => rw [exploreTaking, explore]
    | cons item work =>
      rw [exploreTaking, explore_cons]
      cases htake : takeItem code s item with
      | error fault => rfl
      | ok result =>
        obtain ⟨s', more⟩ := result
        have hmeasure := takeItem_measure htake
        refine ih ?_
        simp only [List.length_append, List.length_cons] at h ⊢
        omega

theorem unvisited_blank (size : Nat) : (Survey.blank size).unvisited = size := by
  simp [Survey.unvisited, Survey.blank, Array.countP_replicate]

theorem exploreTaking_survey (m : Method) :
    exploreTaking m.code (2 * m.code.size + 1) (.blank m.code.size) [(0, 0)] = some (survey m) :=
  exploreTaking_eq (by simp [unvisited_blank])

end Verifier

open Verifier

/-- Verifies a method, but takes no more than `limit` items off the worklist. Without an answer when they are not
enough. -/
def Method.verifyTaking (limit : Nat) (m : Method) (name : String) : Option (Except VerifyError Nat) :=
  match checkFrame m >>= fun _ => checkOperands m with
  | .error (pc, fault) => some (.error ⟨name, pc, fault⟩)
  | .ok () =>
    (exploreTaking m.code limit (.blank m.code.size) [(0, 0)]).map fun
      | .ok s => .ok s.deepest
      | .error (pc, fault) => .error ⟨name, pc, fault⟩

/-- Every method gets its answer, a depth or an error, from twice as many items as it has instructions and one. -/
theorem Method.verify_takes_few_items (m : Method) (name : String) :
    m.verifyTaking (2 * m.code.size + 1) name = some (m.verify name) := by
  have hchecks : checkMethod m = (checkFrame m >>= fun _ => checkOperands m) >>= fun _ => checkStack m :=
    (bind_assoc (checkFrame m) (fun _ => checkOperands m) fun _ => checkStack m).symm
  rw [verifyTaking, exploreTaking_survey, verify, hchecks, checkStack]
  cases checkFrame m >>= fun _ => checkOperands m with
  | error fault => rfl
  | ok _ => cases survey m <;> rfl

end MovieVm.Bytecode
