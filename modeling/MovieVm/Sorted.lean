/-!
# Sorted lists without repetition
-/

namespace MovieVm

/-- Drops each item that repeats its neighbour. -/
def dropRepeats [DecidableEq α] : List α → List α
  | a :: b :: rest => if a = b then dropRepeats (b :: rest) else a :: dropRepeats (b :: rest)
  | short => short

def sortedStrings (names : List String) : List String :=
  dropRepeats (names.mergeSort (fun a b => a ≤ b))

def sortedNats (ns : List Nat) : List Nat :=
  dropRepeats (ns.mergeSort (fun a b => a ≤ b))

end MovieVm
