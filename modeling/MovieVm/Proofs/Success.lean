/-!
# When a computation succeeds

A sequence of checks succeeds exactly when each of its parts does. These equations take a successful
computation apart without unfolding the monad it runs in.
-/

namespace MovieVm

/-! ## Checks without a state -/

namespace Except

@[simp]
theorem ok_bind (a : α) (f : α → Except ε β) : (Except.ok a >>= f) = f a := rfl

theorem error_bind (e : ε) (f : α → Except ε β) : (Except.error e >>= f) = .error e := rfl

theorem bind_eq_ok {x : Except ε α} {f : α → Except ε β} {b : β} :
    (x >>= f) = .ok b ↔ ∃ a, x = .ok a ∧ f a = .ok b := by
  cases x <;> simp [bind, Except.bind]

/-- A check has only one way to succeed. -/
theorem check_bind_eq_ok {x : Except ε Unit} {f : Unit → Except ε β} {b : β} :
    (x >>= f) = .ok b ↔ x = .ok () ∧ f () = .ok b := by
  cases x <;> simp [bind, Except.bind]

/-- A computation that first refuses something goes on otherwise. -/
theorem refuse_eq_ok {p : Prop} [Decidable p] {e : ε} {k : α → Except ε β} {x : Except ε β} {b : β} :
    (if p then throw e >>= k else x) = .ok b ↔ ¬p ∧ x = .ok b := by
  by_cases hp : p
  · simp [hp, throw, throwThe, MonadExceptOf.throw, error_bind]
  · simp [hp]

theorem map_eq_ok {x : Except ε α} {f : α → β} {b : β} :
    x.map f = .ok b ↔ ∃ a, x = .ok a ∧ f a = b := by
  cases x <;> simp [Except.map]

theorem eq_ok_of_toOption {x : Except ε α} {a : α} (h : x.toOption = some a) : x = .ok a := by
  cases x with
  | ok b => exact congrArg Except.ok (Option.some.inj h)
  | error e => cases h

theorem toOption_eq_some {x : Except ε α} {a : α} (h : x = .ok a) : x.toOption = some a := by
  rw [h]
  rfl

theorem exists_eq_error {x : Except ε α} (h : x.isOk = false) : ∃ e, x = .error e := by
  cases x with
  | ok a => cases h
  | error e => exact ⟨e, rfl⟩

theorem mapM_concat {f : α → Except ε β} {items : List α} {results : List β} {a : α} {b : β}
    (hitems : items.mapM f = .ok results) (ha : f a = .ok b) :
    (items ++ [a]).mapM f = .ok (results ++ [b]) := by
  rw [List.mapM_append, hitems, ok_bind, List.mapM_cons, ha]
  rfl

/-- A check of every item of a list succeeds when it succeeds on each. -/
theorem forM_eq_ok {check : α → Except ε Unit} {items : List α} :
    items.forM check = .ok () ↔ ∀ item ∈ items, check item = .ok () := by
  induction items with
  | nil => simp [List.forM, pure, Except.pure]
  | cons item items ih =>
    change (check item >>= fun _ => items.forM check) = .ok () ↔ _
    rw [check_bind_eq_ok, ih, List.forall_mem_cons]

theorem forM_zipIdx_eq_ok {check : α × Nat → Except ε Unit} {items : List α} :
    items.zipIdx.forM check = .ok () ↔
      ∀ index item, items[index]? = some item → check (item, index) = .ok () := by
  rw [forM_eq_ok]
  constructor
  · intro h index item hitem
    exact h (item, index) (List.mk_mem_zipIdx_iff_getElem?.2 hitem)
  · rintro h ⟨item, index⟩ hmem
    exact h index item (List.mk_mem_zipIdx_iff_getElem?.1 hmem)

end Except

/-! ## Computations on a state -/

namespace EStateM

variable {ε σ α β : Type}

@[simp]
theorem pure_apply (a : α) (s : σ) : (pure a : EStateM ε σ α) s = .ok a s := rfl

@[simp]
theorem throw_apply (e : ε) (s : σ) : (throw e : EStateM ε σ α) s = .error e s := rfl

@[simp]
theorem get_apply (s : σ) : (get : EStateM ε σ σ) s = .ok s s := rfl

@[simp]
theorem set_apply (s t : σ) : (set t : EStateM ε σ PUnit) s = .ok ⟨⟩ t := rfl

theorem bind_apply (x : EStateM ε σ α) (f : α → EStateM ε σ β) (s : σ) :
    (x >>= f) s = match x s with
      | .ok a s' => f a s'
      | .error e s' => .error e s' := rfl

theorem bind_of_ok {x : EStateM ε σ α} {f : α → EStateM ε σ β} {s s' : σ} {a : α}
    (h : x s = .ok a s') : (x >>= f) s = f a s' := by
  rw [bind_apply, h]

theorem bind_eq_ok {x : EStateM ε σ α} {f : α → EStateM ε σ β} {s s'' : σ} {b : β} :
    (x >>= f) s = .ok b s'' ↔ ∃ a s', x s = .ok a s' ∧ f a s' = .ok b s'' := by
  constructor
  · intro h
    cases hx : x s with
    | ok a s' => exact ⟨a, s', rfl, (bind_of_ok hx).symm.trans h⟩
    | error e s' => simp [bind_apply, hx] at h
  · rintro ⟨a, s', hx, hf⟩
    rw [bind_of_ok hx, hf]

theorem pure_eq_ok {s s' : σ} {a b : α} :
    (pure a : EStateM ε σ α) s = .ok b s' ↔ a = b ∧ s = s' := by
  simp

theorem throw_eq_ok {s s' : σ} {e : ε} {b : β} : (throw e : EStateM ε σ β) s ≠ .ok b s' := by
  simp

theorem get_eq_ok {s s' t : σ} : (get : EStateM ε σ σ) s = .ok t s' ↔ s = t ∧ s = s' := by
  simp

theorem set_eq_ok {s s' t : σ} {u : PUnit} : (set t : EStateM ε σ PUnit) s = .ok u s' ↔ t = s' := by
  simp

/-- A computation that first refuses some states goes on in the others. -/
theorem refuse_eq_ok {p : Prop} [Decidable p] {e : ε} {k : α → EStateM ε σ β} {x : EStateM ε σ β}
    {s s' : σ} {b : β} :
    (if p then throw e >>= k else x) s = .ok b s' ↔ ¬p ∧ x s = .ok b s' := by
  by_cases hp : p
  · simp only [hp, if_true, not_true_eq_false, false_and, iff_false, bind_eq_ok]
    rintro ⟨_, _, hthrow, _⟩
    exact throw_eq_ok hthrow
  · simp [hp]

end EStateM

end MovieVm
