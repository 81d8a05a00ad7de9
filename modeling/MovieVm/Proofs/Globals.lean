import MovieVm.Domain.Globals

/-!
# Looking globals up
-/

namespace MovieVm.Globals

variable {g : Globals} {name : String} {v : Value}

theorem mem_of_get? (h : g.get? name = some v) : (name, v) ∈ g := by
  obtain ⟨before, after, rfl, _⟩ := List.lookup_eq_some_iff.1 h
  exact List.mem_append_right _ List.mem_cons_self

/-- A definition brings in no other value. -/
theorem mem_set {entry : String × Value} (h : entry ∈ g.set name v) : entry = (name, v) ∨ entry ∈ g := by
  induction g with
  | nil => exact .inl (List.mem_singleton.1 h)
  | cons head rest ih =>
    obtain ⟨key, old⟩ := head
    unfold set at h
    split at h
    · obtain hnew | hrest := List.mem_cons.1 h
      · exact .inl hnew
      · exact .inr (List.mem_cons_of_mem _ hrest)
    · split at h
      · obtain hnew | hold := List.mem_cons.1 h
        · exact .inl hnew
        · exact .inr hold
      · obtain hhead | hrest := List.mem_cons.1 h
        · exact .inr (hhead ▸ List.mem_cons_self)
        · exact (ih hrest).imp_right (List.mem_cons_of_mem _)

theorem get?_cons {key : String} {old : Value} :
    get? ((key, old) :: g) name = if name = key then some old else g.get? name := by
  rw [get?, List.lookup_cons]
  by_cases h : name = key
  · rw [if_pos h, beq_iff_eq.2 h]
  · rw [if_neg h, beq_eq_false_iff_ne.2 h]
    rfl

/-- A definition gives its name the value, and leaves the other names theirs. -/
theorem get?_set (g : Globals) (name : String) (v : Value) (key : String) :
    (g.set name v).get? key = if key = name then some v else g.get? key := by
  induction g with
  | nil => exact get?_cons
  | cons head rest ih =>
    obtain ⟨first, old⟩ := head
    unfold set
    split
    · rename_i hfirst
      rw [get?_cons, get?_cons, hfirst]
      split <;> rfl
    · rename_i hfirst
      split
      · rw [get?_cons]
      · rw [get?_cons, get?_cons, ih]
        by_cases hkey : key = first
        · rw [if_pos hkey, if_pos hkey, if_neg (hkey ▸ hfirst)]
        · rw [if_neg hkey, if_neg hkey]

end MovieVm.Globals
