import Mathlib.Data.String.Basic
import MovieVm.Shell.Timing

/-!
# Tallies

A ledger keeps its names in order, each of them once. What it has for a name after a change follows from what it had,
and so does what a counter has counted and how often a section of a timeline was closed.
-/

namespace MovieVm

/-! ## Ledgers -/

namespace Shell.Ledger

/-- The names stand in order, each of them once. -/
def Ordered (l : Ledger β) : Prop :=
  l.Pairwise (·.1 < ·.1)

variable {l : Ledger β} {name : String} {fresh : β} {f : β → β}

theorem mem_update {entry : String × β} (h : entry ∈ l.update name fresh f) :
    entry.1 = name ∨ ∃ old ∈ l, old.1 = entry.1 := by
  induction l with
  | nil =>
    rw [List.mem_singleton.1 h]
    exact .inl rfl
  | cons first rest ih =>
    obtain ⟨key, value⟩ := first
    rw [update] at h
    split at h
    · rename_i heq
      rcases List.mem_cons.1 h with rfl | hrest
      · exact .inl heq
      · exact .inr ⟨entry, List.mem_cons_of_mem _ hrest, rfl⟩
    · split at h
      · rcases List.mem_cons.1 h with rfl | hold
        · exact .inl rfl
        · exact .inr ⟨entry, hold, rfl⟩
      · rcases List.mem_cons.1 h with rfl | hrest
        · exact .inr ⟨_, List.mem_cons_self, rfl⟩
        · exact (ih hrest).imp_right fun ⟨old, hold, heq⟩ => ⟨old, List.mem_cons_of_mem _ hold, heq⟩

theorem Ordered.update (h : l.Ordered) : (l.update name fresh f).Ordered := by
  induction l with
  | nil => exact List.pairwise_singleton ..
  | cons first rest ih =>
    obtain ⟨key, value⟩ := first
    obtain ⟨hfirst, hrest⟩ := List.pairwise_cons.1 h
    rw [Ledger.update]
    split
    · exact List.pairwise_cons.2 ⟨hfirst, hrest⟩
    · rename_i hne
      split
      · rename_i hlt
        refine List.pairwise_cons.2 ⟨fun entry hentry => ?_, h⟩
        rcases List.mem_cons.1 hentry with rfl | hentry
        · exact hlt
        · exact hlt.trans (hfirst entry hentry)
      · rename_i hnot
        have hkey : key < name := lt_of_le_of_ne (not_lt.1 hnot) hne
        refine List.pairwise_cons.2 ⟨fun entry hentry => ?_, ih hrest⟩
        obtain heq | ⟨old, hold, heq⟩ := mem_update hentry
        · exact heq ▸ hkey
        · exact heq ▸ hfirst old hold

theorem lookup_cons (key : String) (value : β) (l : Ledger β) (k : String) :
    List.lookup k ((key, value) :: l) = if k = key then some value else l.lookup k := by
  rw [List.lookup_cons]
  by_cases h : k = key
  · rw [if_pos h, beq_iff_eq.2 h]
  · rw [if_neg h, beq_false_of_ne h]

/-- A name that is below all others is not there. -/
theorem lookup_eq_none (h : ∀ entry ∈ l, name < entry.1) : l.lookup name = none := by
  rw [List.lookup_eq_none_iff]
  intro entry hentry
  simpa using (h entry hentry).ne

theorem Ordered.lookup_update (h : l.Ordered) (k : String) :
    (l.update name fresh f).lookup k =
      if k = name then some (f ((l.lookup name).getD fresh)) else l.lookup k := by
  induction l with
  | nil => exact lookup_cons ..
  | cons first rest ih =>
    obtain ⟨key, value⟩ := first
    obtain ⟨hfirst, hrest⟩ := List.pairwise_cons.1 h
    rw [Ledger.update, lookup_cons, lookup_cons]
    split
    · rename_i heq
      subst heq
      rw [lookup_cons, if_pos rfl]
      split <;> rfl
    · rename_i hne
      rw [if_neg (Ne.symm hne)]
      split
      · -- The new name goes in front, where all names behind it are above it.
        rename_i hlt
        rw [lookup_cons, lookup_cons, lookup_eq_none fun entry hentry => hlt.trans (hfirst entry hentry)]
        rfl
      · rw [lookup_cons, ih hrest]
        by_cases hk : k = key
        · rw [if_pos hk, if_pos hk, if_neg (hk ▸ hne)]
        · rw [if_neg hk, if_neg hk]

end Shell.Ledger

namespace Shell

theorem Counter.get_count {c : Counter} (h : Ledger.Ordered c) (name : String) (increment : Nat) (time : Double)
    (k : String) : (c.count name increment time).get k = c.get k + if k = name then increment else 0 := by
  unfold Counter.get Counter.count
  rw [h.lookup_update]
  by_cases hk : k = name
  · subst hk
    cases c.lookup k <;> simp
  · simp [hk]

namespace Timeline

/-- How often a section was closed. -/
def closed (t : Timeline) (name : String) : Nat :=
  match t.sections.lookup name with
  | some s => s.count
  | none => 0

variable {t : Timeline}

theorem time_sections (t : Timeline) (name : String) (time : Double) :
    (t.time name time).sections =
      Ledger.update name {} (fun s => ⟨s.count + 1, s.total.add time⟩) t.sections := by
  simp [Timeline.time, enter, leave]

theorem closed_time (h : t.sections.Ordered) (name : String) (time : Double) (k : String) :
    (t.time name time).closed k = t.closed k + if k = name then 1 else 0 := by
  unfold closed
  rw [time_sections, h.lookup_update]
  by_cases hk : k = name
  · subst hk
    cases t.sections.lookup k <;> simp
  · simp [hk]

end Timeline

end Shell

end MovieVm
