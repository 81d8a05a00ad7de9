import MovieVm.Value.Basic

/-!
# Globals

Names and their values, kept in the order of the names so that equal contents are equal.
-/

namespace MovieVm

abbrev Globals := List (String × Value)

namespace Globals

def get? (g : Globals) (name : String) : Option Value :=
  g.lookup name

/-- Defines a name or gives it another value. -/
def set (g : Globals) (name : String) (v : Value) : Globals :=
  match g with
  | [] => [(name, v)]
  | (key, old) :: rest =>
    if key = name then (name, v) :: rest
    else if name < key then (name, v) :: (key, old) :: rest
    else (key, old) :: set rest name v

def contains (g : Globals) (name : String) : Bool :=
  (g.get? name).isSome

end Globals

end MovieVm
