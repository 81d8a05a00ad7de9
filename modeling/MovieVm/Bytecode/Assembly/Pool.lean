import MovieVm.Bytecode.Module

/-!
# The pool of constants

Constants enter the pool of a module one behind the other, each once. A table for each kind tells where its constants
stand; doubles are told apart by their bits.
-/

namespace MovieVm.Bytecode.Assembly

structure Pool where
  constants : Array Constant := #[]
  strings : List (String × Nat) := []
  ints : List (Int32 × Nat) := []
  doubles : List (UInt64 × Nat) := []

namespace Pool

/-- Where the table of its kind has a constant. -/
def index? (p : Pool) : Constant → Option Nat
  | .int n => p.ints.lookup n
  | .double x => p.doubles.lookup x.bits
  | .string s => p.strings.lookup s

/-- Puts a constant behind the others, and its place into the table of its kind. -/
def push (p : Pool) (c : Constant) : Pool :=
  let place := p.constants.size
  let constants := p.constants.push c
  match c with
  | .int n => { p with constants, ints := (n, place) :: p.ints }
  | .double x => { p with constants, doubles := (x.bits, place) :: p.doubles }
  | .string s => { p with constants, strings := (s, place) :: p.strings }

/-- The index of a constant, which enters the pool unless it is there. -/
def intern (p : Pool) (c : Constant) : Nat × Pool :=
  match p.index? c with
  | some index => (index, p)
  | none => (p.constants.size, p.push c)

@[simp]
theorem constants_push (p : Pool) (c : Constant) : (p.push c).constants = p.constants.push c := by
  cases c <;> rfl

theorem lookup_cons_eq {κ : Type} [DecidableEq κ] (key key' : κ) (place : Nat) (table : List (κ × Nat)) :
    List.lookup key ((key', place) :: table) = if key = key' then some place else table.lookup key := by
  rw [List.lookup_cons]
  by_cases h : key = key'
  · rw [if_pos h, beq_iff_eq.2 h]
  · rw [if_neg h, beq_false_of_ne h]

/-- The tables have the new constant at its place, and all others where they were. -/
@[simp]
theorem index?_push (p : Pool) (c d : Constant) :
    (p.push c).index? d = if d = c then some p.constants.size else p.index? d := by
  cases c with
  | int n =>
    cases d with
    | int k => simp only [push, index?, lookup_cons_eq, Constant.int.injEq]
    | _ => rfl
  | double x =>
    cases d with
    | double y =>
      have hbits : y.bits = x.bits ↔ y = x := ⟨congrArg Double.mk, congrArg Double.bits⟩
      simp only [push, index?, lookup_cons_eq, Constant.double.injEq, hbits]
    | _ => rfl
  | string s =>
    cases d with
    | string t => simp only [push, index?, lookup_cons_eq, Constant.string.injEq]
    | _ => rfl

end Pool

end MovieVm.Bytecode.Assembly
