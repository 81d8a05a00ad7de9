import Mathlib.Data.String.Basic
import MovieVm.Proofs.Execution

/-!
# Comparing values

Both equalities are symmetric, and the strict one implies the loose one. The order of two values turns around with them,
and is missing exactly when one of them is no number and they are not both texts. The instructions that compare agree
with each other accordingly.
-/

namespace MovieVm

/-! ## Doubles -/

namespace Double

variable {x y : Double}

theorem compare?_swap (x y : Double) : y.compare? x = (x.compare? y).map Ordering.swap := by
  unfold compare?
  rw [Bool.or_comm y.isNaN]
  split
  · rfl
  · exact congrArg some Std.OrientedOrd.eq_swap

theorem compare?_eq_none : x.compare? y = none ↔ x.isNaN = true ∨ y.isNaN = true := by
  unfold compare?
  rw [← Bool.or_eq_true]
  split
  · exact iff_of_true rfl ‹_›
  · exact iff_of_false nofun ‹_›

theorem equals_comm (x y : Double) : y.equals x = x.equals y := by
  unfold equals
  rw [compare?_swap]
  match x.compare? y with
  | none | some .lt | some .eq | some .gt => rfl

end Double

namespace Value

variable {a b : Value}

/-! ## Equality -/

theorem strictEquals_comm (a b : Value) : b.strictEquals a = a.strictEquals b := by
  unfold strictEquals
  rw [Bool.and_comm b.isNumeric, Double.equals_comm, decide_eq_decide.2 (eq_comm (a := b))]

theorem isPrimitive_of_isNumeric (h : a.isNumeric = true) : a.isPrimitive = true := by
  cases a <;> first | rfl | cases h

theorem isAbsent_of_isNumeric (h : a.isNumeric = true) : a.isAbsent = false := by
  cases a <;> first | rfl | cases h

/-- Texts are compared as such. -/
theorem looseEquals_string (s t : String) : (string s).looseEquals (string t) = decide (s = t) := rfl

/-- Two values that are there and not both texts are compared as numbers if they are primitive. -/
theorem looseEquals_of_present (ha : a.isAbsent = false) (hb : b.isAbsent = false)
    (htexts : ∀ s t, a = string s → b = string t → False) :
    a.looseEquals b =
      if a.isPrimitive && b.isPrimitive then a.toNumber.equals b.toNumber else a.strictEquals b := by
  unfold looseEquals
  rw [ha, hb, if_neg (by decide)]
  split
  · exact (htexts _ _ rfl rfl).elim
  · rfl

theorem looseEquals_of_absent (h : (a.isAbsent || b.isAbsent) = true) :
    a.looseEquals b = (a.isAbsent && b.isAbsent) := by
  unfold looseEquals
  rw [if_pos h]

/-- How two values are compared loosely: one of them is absent, both are texts, or neither is the case. -/
theorem loose_cases (a b : Value) :
    (a.isAbsent || b.isAbsent) = true ∨ (∃ s t, a = string s ∧ b = string t) ∨
      a.isAbsent = false ∧ b.isAbsent = false ∧ ∀ s t, a = string s → b = string t → False := by
  by_cases habsent : (a.isAbsent || b.isAbsent) = true
  · exact .inl habsent
  by_cases htexts : ∃ s t, a = string s ∧ b = string t
  · exact .inr (.inl htexts)
  · obtain ⟨ha, hb⟩ := Bool.or_eq_false_iff.1 (Bool.eq_false_of_not_eq_true habsent)
    exact .inr (.inr ⟨ha, hb, fun s t hs ht => htexts ⟨s, t, hs, ht⟩⟩)

theorem looseEquals_comm (a b : Value) : b.looseEquals a = a.looseEquals b := by
  obtain habsent | ⟨s, t, rfl, rfl⟩ | ⟨ha, hb, htexts⟩ := loose_cases a b
  · rw [looseEquals_of_absent habsent, looseEquals_of_absent ((Bool.or_comm ..).trans habsent), Bool.and_comm]
  · rw [looseEquals_string, looseEquals_string, decide_eq_decide]
    exact eq_comm
  · rw [looseEquals_of_present ha hb htexts, looseEquals_of_present hb ha fun s t hs ht => htexts t s ht hs,
      Bool.and_comm, Double.equals_comm, strictEquals_comm]

/-- Values of one kind that are no numbers are strictly equal when they are the same. -/
theorem eq_of_strictEquals (h : a.strictEquals b = true) (hnumeric : (a.isNumeric && b.isNumeric) = false) : a = b := by
  rw [strictEquals, hnumeric] at h
  exact of_decide_eq_true h

/-- A value that is no number is loosely equal to itself. -/
theorem looseEquals_self (h : a.isNumeric = false) : a.looseEquals a = true := by
  cases a with
  | undefined | null => rfl
  | boolean b => cases b <;> rfl
  | int n => cases h
  | double x => cases h
  | string s => exact decide_eq_true rfl
  | function f => exact decide_eq_true rfl
  | native name => exact decide_eq_true rfl

theorem looseEquals_of_strictEquals (h : a.strictEquals b = true) : a.looseEquals b = true := by
  cases hnumeric : a.isNumeric && b.isNumeric with
  | false =>
    obtain rfl := eq_of_strictEquals h hnumeric
    rw [Bool.and_self] at hnumeric
    exact looseEquals_self hnumeric
  | true =>
    obtain ⟨ha, hb⟩ := Bool.and_eq_true_iff.1 hnumeric
    rw [looseEquals_of_present (isAbsent_of_isNumeric ha) (isAbsent_of_isNumeric hb),
      isPrimitive_of_isNumeric ha, isPrimitive_of_isNumeric hb]
    · rwa [strictEquals, hnumeric] at h
    · rintro s t rfl
      cases ha

/-! ## Order -/

/-- Two values have an order: both are texts, or both convert to a number. -/
inductive Comparable : Value → Value → Prop where
  | texts (s t : String) : Comparable (string s) (string t)
  | numbers {a b : Value} (ha : a.toNumber.isNaN = false) (hb : b.toNumber.isNaN = false) : Comparable a b

/-- Values that are not both texts are ordered as numbers. -/
theorem compare?_of_not_texts (htexts : ∀ s t, a = string s → b = string t → False) :
    a.compare? b = a.toNumber.compare? b.toNumber := by
  unfold compare?
  split
  · exact (htexts _ _ rfl rfl).elim
  · rfl

theorem compare?_swap (a b : Value) : b.compare? a = (a.compare? b).map Ordering.swap := by
  by_cases htexts : ∃ s t, a = string s ∧ b = string t
  · obtain ⟨s, t, rfl, rfl⟩ := htexts
    exact congrArg some Std.OrientedOrd.eq_swap
  · rw [compare?_of_not_texts fun s t hs ht => htexts ⟨s, t, hs, ht⟩,
      compare?_of_not_texts fun t s ht hs => htexts ⟨s, t, hs, ht⟩]
    exact Double.compare?_swap ..

theorem compare?_eq_none : a.compare? b = none ↔ ¬ Comparable a b := by
  by_cases htexts : ∃ s t, a = string s ∧ b = string t
  · obtain ⟨s, t, rfl, rfl⟩ := htexts
    exact iff_of_false nofun (not_not.2 (.texts s t))
  · have hnumbers : Comparable a b ↔ a.toNumber.isNaN = false ∧ b.toNumber.isNaN = false := by
      constructor
      · rintro (⟨s, t⟩ | ⟨ha, hb⟩)
        · exact (htexts ⟨s, t, rfl, rfl⟩).elim
        · exact ⟨ha, hb⟩
      · exact fun ⟨ha, hb⟩ => .numbers ha hb
    rw [compare?_of_not_texts fun s t hs ht => htexts ⟨s, t, hs, ht⟩, Double.compare?_eq_none, hnumbers]
    cases a.toNumber.isNaN <;> cases b.toNumber.isNaN <;> decide

/-! ## Instructions that compare -/

/-- Whatever else is on the stack, the instruction takes the two values from it, the second of them on top, and leaves
the answer in their place. -/
def Answers (i : Bytecode.Instruction) (a b : Value) (answer : Bool) : Prop :=
  ∀ (f : Activation) (rest : List Value), f.stack = b :: a :: rest →
    Activation.execute i f = .ok .proceed { f with stack := .boolean answer :: rest }

theorem answers_relation {i : Bytecode.Instruction} {r : Value → Value → Bool}
    (h : Activation.execute i = Activation.relation r) (a b : Value) : Answers i a b (r a b) := by
  intro f rest hstack
  rw [h, Activation.relation, Activation.binary_of_cons hstack]

theorem greaterThan_comm (a b : Value) : b.greaterThan a = a.lessThan b := by
  unfold greaterThan lessThan
  rw [compare?_swap]
  match a.compare? b with
  | none | some .lt | some .eq | some .gt => rfl

theorem greaterEquals_comm (a b : Value) : b.greaterEquals a = a.lessEquals b := by
  unfold greaterEquals lessEquals
  rw [compare?_swap]
  match a.compare? b with
  | none | some .lt | some .eq | some .gt => rfl

/-- Values that have an order are in exactly one of three relations. -/
theorem Comparable.trichotomy (h : Comparable a b) :
    [a.lessThan b, a.greaterThan b, a.lessEquals b && a.greaterEquals b].count true = 1 := by
  have hordered : a.compare? b ≠ none := fun hnone => compare?_eq_none.1 hnone h
  unfold lessThan greaterThan lessEquals greaterEquals
  match hcompare : a.compare? b with
  | none => exact absurd hcompare hordered
  | some .lt | some .eq | some .gt => rfl

/-- Values without an order are in no relation. -/
theorem unrelated_of_not_comparable (h : ¬ Comparable a b) :
    [a.lessThan b, a.lessEquals b, a.greaterThan b, a.greaterEquals b].count true = 0 := by
  unfold lessThan greaterThan lessEquals greaterEquals
  rw [compare?_eq_none.2 h]
  rfl

/-- Equality and order of values fit together: both equalities are symmetric, strictly equal values are loosely equal,
and the order turns around with the values. The instructions that compare two values give the same answers when the
values are exchanged and the instruction with them; exactly one of less, greater, and both at most and at least holds
of values that have an order, and nothing of others. -/
theorem equality_and_order_are_coherent (a b : Value) :
    (b.strictEquals a = a.strictEquals b ∧ b.looseEquals a = a.looseEquals b ∧
      (a.strictEquals b = true → a.looseEquals b = true)) ∧
    (b.compare? a = (a.compare? b).map Ordering.swap ∧ (b.compare? a = none ↔ a.compare? b = none)) ∧
    ∃ less atMost greater atLeast : Bool,
      (Answers .lessThan a b less ∧ Answers .greaterThan b a less) ∧
      (Answers .lessEquals a b atMost ∧ Answers .greaterEquals b a atMost) ∧
      (Answers .greaterThan a b greater ∧ Answers .greaterEquals a b atLeast) ∧
      (Comparable a b → [less, greater, atMost && atLeast].count true = 1) ∧
      (¬ Comparable a b → [less, atMost, greater, atLeast].count true = 0) := by
  refine ⟨⟨strictEquals_comm a b, looseEquals_comm a b, looseEquals_of_strictEquals⟩, ⟨compare?_swap a b, ?_⟩, ?_⟩
  · rw [compare?_swap a b, Option.map_eq_none_iff]
  refine ⟨a.lessThan b, a.lessEquals b, a.greaterThan b, a.greaterEquals b, ⟨answers_relation rfl a b, ?_⟩,
    ⟨answers_relation rfl a b, ?_⟩, ⟨answers_relation rfl a b, answers_relation rfl a b⟩, Comparable.trichotomy,
    unrelated_of_not_comparable⟩
  · exact greaterThan_comm a b ▸ answers_relation rfl b a
  · exact greaterEquals_comm a b ▸ answers_relation rfl b a

/-- The two forms of one are equal, strictly and hence loosely, and have an order; undefined and null have none. -/
theorem equality_and_order_are_coherent_one :
    (int 1).strictEquals (double .one) = true ∧ (int 1).looseEquals (double .one) = true ∧
      (Comparable (int 1) (double .one) ∧ ∃ less atMost greater atLeast : Bool,
        Answers .lessThan (int 1) (double .one) less ∧ Answers .greaterThan (int 1) (double .one) greater ∧
          [less, greater, atMost && atLeast].count true = 1) ∧
      (¬ Comparable undefined null ∧ ∃ less atMost greater atLeast : Bool,
        Answers .lessEquals undefined null atMost ∧ Answers .greaterEquals undefined null atLeast ∧
          [less, atMost, greater, atLeast].count true = 0) := by
  have hstrict : (int 1).strictEquals (double .one) = true := by decide +kernel
  have hone : Comparable (int 1) (double .one) := .numbers (by decide +kernel) (by decide +kernel)
  have habsent : ¬ Comparable undefined null := compare?_eq_none.1 (by decide +kernel)
  obtain ⟨⟨-, -, hloose⟩, -, less, atMost, greater, atLeast, ⟨hless, -⟩, -, ⟨hgreater, -⟩, hcount, -⟩ :=
    equality_and_order_are_coherent (int 1) (double .one)
  obtain ⟨-, -, less', atMost', greater', atLeast', -, ⟨hatMost, -⟩, ⟨-, hatLeast⟩, -, hnone⟩ :=
    equality_and_order_are_coherent undefined null
  exact ⟨hstrict, hloose hstrict, ⟨hone, less, atMost, greater, atLeast, hless, hgreater, hcount hone⟩,
    habsent, less', atMost', greater', atLeast', hatMost, hatLeast, hnone habsent⟩

end Value

end MovieVm
