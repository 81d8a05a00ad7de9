import Mathlib.Data.List.Sort
import Mathlib.Data.String.Basic
import MovieVm.Sorted

/-!
# Sorting keeps the items

What `sortedNats` and `sortedStrings` have of their input, and that they have it once and in order.
-/

namespace MovieVm

theorem mem_dropRepeats [DecidableEq α] {a : α} : ∀ items : List α, a ∈ dropRepeats items ↔ a ∈ items
  | [] => by simp [dropRepeats]
  | [b] => by simp [dropRepeats]
  | b :: c :: rest => by
    have ih := mem_dropRepeats (a := a) (c :: rest)
    rw [dropRepeats]
    split
    · rename_i heq
      simp [ih, heq]
    · rw [List.mem_cons, ih, ← List.mem_cons]

theorem mem_sortedNats {n : Nat} {ns : List Nat} : n ∈ sortedNats ns ↔ n ∈ ns := by
  rw [sortedNats, mem_dropRepeats, List.mem_mergeSort]

theorem mem_sortedStrings {s : String} {names : List String} : s ∈ sortedStrings names ↔ s ∈ names := by
  rw [sortedStrings, mem_dropRepeats, List.mem_mergeSort]

theorem pairwise_dropRepeats [PartialOrder α] [DecidableEq α] :
    ∀ {items : List α}, items.Pairwise (· ≤ ·) → (dropRepeats items).Pairwise (· < ·)
  | [], _ => .nil
  | [a], _ => by simp [dropRepeats]
  | a :: c :: rest, h => by
    obtain ⟨hle, hrest⟩ := List.pairwise_cons.1 h
    have ih := pairwise_dropRepeats hrest
    rw [dropRepeats]
    split
    · exact ih
    · rename_i hne
      refine List.pairwise_cons.2 ⟨fun b hb => ?_, ih⟩
      -- What is left may begin with a later copy, which is no less than the first.
      have hcb : c ≤ b := by
        rcases List.mem_cons.1 ((mem_dropRepeats _).1 hb) with rfl | hb
        · exact le_rfl
        · exact (List.pairwise_cons.1 hrest).1 b hb
      exact (lt_of_le_of_ne (hle c List.mem_cons_self) hne).trans_le hcb

theorem nodup_sortedNats (ns : List Nat) : (sortedNats ns).Nodup :=
  (pairwise_dropRepeats (List.pairwise_mergeSort' (· ≤ ·) ns)).imp fun hlt => Nat.ne_of_lt hlt

theorem pairwise_sortedStrings (names : List String) : (sortedStrings names).Pairwise (· < ·) :=
  pairwise_dropRepeats (List.pairwise_mergeSort' (· ≤ ·) names)

end MovieVm
