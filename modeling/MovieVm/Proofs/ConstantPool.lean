import MovieVm.Bytecode.Assembly.Pool

/-!
# What the pool of constants holds

A constant is interned by a look-up in the table of its kind, and enters the pool when the table does not have it. The
tables and the pool agree however constants of the three kinds come one after the other, so the pool holds each of them
once, in the order in which they first came.
-/

namespace MovieVm.Bytecode.Assembly.Pool

variable {p : Pool} {c d : Constant} {index : Nat}

/-! ## Agreement -/

/-- Each table has a constant at an index exactly when the pool has it there. -/
structure Agrees (p : Pool) : Prop where
  strings : ∀ s index, p.strings.lookup s = some index ↔ p.constants[index]? = some (.string s)
  ints : ∀ n index, p.ints.lookup n = some index ↔ p.constants[index]? = some (.int n)
  doubles : ∀ bits index, p.doubles.lookup bits = some index ↔ p.constants[index]? = some (.double ⟨bits⟩)

theorem agrees_iff : p.Agrees ↔ ∀ c index, p.index? c = some index ↔ p.constants[index]? = some c := by
  constructor
  · intro h c index
    cases c with
    | int n => exact h.ints n index
    | double x => exact h.doubles x.bits index
    | string s => exact h.strings s index
  · intro h
    exact {
      strings := fun s => h (.string s)
      ints := fun n => h (.int n)
      doubles := fun bits => h (.double ⟨bits⟩) }

theorem agrees_empty : Agrees {} := by
  rw [agrees_iff]
  intro c index
  cases c <;> simp [index?]

/-- A constant that the tables do not have may enter the pool. -/
theorem Agrees.push (h : p.Agrees) (hnew : p.index? c = none) : (p.push c).Agrees := by
  rw [agrees_iff] at h ⊢
  intro d index
  rw [index?_push, constants_push, Array.getElem?_push]
  by_cases hd : d = c
  · -- The place behind the pool is the only one with the new constant.
    subst hd
    have hnowhere : p.constants[index]? ≠ some d := by
      intro hfound
      cases hnew.symm.trans ((h d index).2 hfound)
    rw [if_pos rfl]
    by_cases hindex : index = p.constants.size
    · simp [hindex]
    · simp only [if_neg hindex, hnowhere, Option.some.injEq, iff_false]
      exact fun heq => hindex heq.symm
  · rw [if_neg hd, h d index]
    by_cases hindex : index = p.constants.size
    · have hne : c ≠ d := fun heq => hd heq.symm
      simp [hindex, hne]
    · rw [if_neg hindex]

theorem Agrees.intern (h : p.Agrees) (c : Constant) : (p.intern c).2.Agrees := by
  unfold Pool.intern
  split
  · exact h
  · exact h.push ‹_›

theorem Agrees.index?_eq_none_iff (h : p.Agrees) : p.index? c = none ↔ c ∉ p.constants := by
  rw [Option.eq_none_iff_forall_ne_some, Array.mem_iff_getElem?, not_exists]
  exact forall_congr' fun index => not_congr ((agrees_iff.1 h) c index)

/-- The index that is handed out is the place of the constant. -/
theorem Agrees.getElem?_intern (h : p.Agrees) (c : Constant) :
    (p.intern c).2.constants[(p.intern c).1]? = some c := by
  unfold Pool.intern
  split
  · exact ((agrees_iff.1 h) c _).1 ‹_›
  · simp

/-- No constant is in the pool twice. -/
theorem Agrees.nodup (h : p.Agrees) : p.constants.toList.Nodup := by
  have hplace : ∀ index (hlt : index < p.constants.toList.length),
      p.index? p.constants.toList[index] = some index := by
    intro index hlt
    apply (agrees_iff.1 h _ _).2
    rw [← Array.getElem?_toList]
    exact List.getElem?_eq_getElem hlt
  apply List.pairwise_iff_getElem.2
  intro i j hi hj hij heq
  have hsame := hplace i hi
  rw [heq, hplace j hj] at hsame
  exact Nat.ne_of_gt hij (Option.some.inj hsame)

/-! ## Growth -/

/-- The constants of the one pool are at the same places in the other. -/
def Stays (p q : Pool) : Prop :=
  ∀ (index : Nat) (c : Constant), p.constants[index]? = some c → q.constants[index]? = some c

theorem Stays.refl (p : Pool) : p.Stays p :=
  fun _ _ h => h

theorem Stays.trans {q r : Pool} (h : p.Stays q) (h' : q.Stays r) : p.Stays r :=
  fun index c hc => h' index c (h index c hc)

theorem stays_intern (p : Pool) (c : Constant) : p.Stays (p.intern c).2 := by
  intro index d hd
  unfold Pool.intern
  split
  · exact hd
  · rw [constants_push, Array.getElem?_push, if_neg]
    · exact hd
    · exact Nat.ne_of_lt (Array.getElem?_eq_some_iff.1 hd).1

/-! ## Sequences of constants -/

/-- The pool after some more constants, from the first to the last. -/
def enter (p : Pool) (cs : List Constant) : Pool :=
  cs.foldl (fun p c => (p.intern c).2) p

/-- The pool that has taken these constants and no others. -/
def after (cs : List Constant) : Pool :=
  enter {} cs

theorem enter_append (p : Pool) (cs more : List Constant) : p.enter (cs ++ more) = (p.enter cs).enter more :=
  List.foldl_append

theorem after_append (cs more : List Constant) : after (cs ++ more) = (after cs).enter more :=
  enter_append {} cs more

theorem after_concat (cs : List Constant) (c : Constant) : after (cs ++ [c]) = ((after cs).intern c).2 :=
  after_append cs [c]

theorem Agrees.enter (h : p.Agrees) (cs : List Constant) : (p.enter cs).Agrees := by
  induction cs generalizing p with
  | nil => exact h
  | cons c cs ih => exact ih (h.intern c)

theorem agrees_after (cs : List Constant) : (after cs).Agrees :=
  agrees_empty.enter cs

theorem stays_enter (p : Pool) (cs : List Constant) : p.Stays (p.enter cs) := by
  induction cs generalizing p with
  | nil => exact .refl p
  | cons c cs ih => exact (p.stays_intern c).trans (ih _)

theorem eraseDups_concat (cs : List Constant) (c : Constant) :
    (cs ++ [c]).eraseDups = if c ∈ cs then cs.eraseDups else cs.eraseDups ++ [c] := by
  rw [List.eraseDups_append]
  by_cases h : c ∈ cs <;> simp [List.removeAll, h, List.eraseDups_cons]

/-- A constant that came before is where it was, and a new one stands behind the others. -/
theorem Agrees.constants_intern (h : p.Agrees) {cs : List Constant} (hp : p.constants = cs.eraseDups.toArray)
    (c : Constant) : (p.intern c).2.constants = (cs ++ [c]).eraseDups.toArray := by
  have hmem : p.index? c = none ↔ c ∉ cs := by
    rw [h.index?_eq_none_iff, hp, List.mem_toArray, List.mem_eraseDups]
  rw [eraseDups_concat]
  by_cases hold : c ∈ cs
  · obtain ⟨index, hindex⟩ := Option.ne_none_iff_exists'.1 fun hnone => hmem.1 hnone hold
    have hintern : (p.intern c).2 = p := by
      rw [Pool.intern, hindex]
    rw [hintern, hp, if_pos hold]
  · have hintern : (p.intern c).2 = p.push c := by
      rw [Pool.intern, hmem.2 hold]
    rw [hintern, constants_push, hp, if_neg hold, List.push_toArray]

theorem Agrees.constants_enter (h : p.Agrees) {cs : List Constant} (hp : p.constants = cs.eraseDups.toArray)
    (more : List Constant) : (p.enter more).constants = (cs ++ more).eraseDups.toArray := by
  induction more generalizing p cs with
  | nil => rw [List.append_nil, Pool.enter, List.foldl_nil, hp]
  | cons c more ih =>
    have hmore := ih (h.intern c) (h.constants_intern hp c)
    rwa [List.append_assoc, List.singleton_append] at hmore

/-- The pool holds the constants that came, each once, in the order in which they first came. -/
theorem constants_after (cs : List Constant) : (after cs).constants = cs.eraseDups.toArray := by
  have hempty : ({} : Pool).constants = ([] : List Constant).eraseDups.toArray := rfl
  exact agrees_empty.constants_enter hempty cs

/-- A constant is handed out with its place among the constants that came so far and itself. -/
theorem intern_after (cs : List Constant) (c : Constant) :
    (after cs).intern c = ((cs ++ [c]).eraseDups.idxOf c, after (cs ++ [c])) := by
  have hplace := (agrees_after cs).getElem?_intern c
  rw [← after_concat, constants_after, List.getElem?_toArray] at hplace
  have hnodup : (cs ++ [c]).eraseDups.Nodup := by
    have hnodup := (agrees_after (cs ++ [c])).nodup
    rwa [constants_after] at hnodup
  obtain ⟨hlt, hconstant⟩ := List.getElem?_eq_some_iff.1 hplace
  refine Prod.ext ?_ (after_concat cs c).symm
  calc ((after cs).intern c).1
      = (cs ++ [c]).eraseDups.idxOf (cs ++ [c]).eraseDups[((after cs).intern c).1] :=
        (hnodup.idxOf_getElem _ hlt).symm
    _ = (cs ++ [c]).eraseDups.idxOf c := by rw [hconstant]

end MovieVm.Bytecode.Assembly.Pool
