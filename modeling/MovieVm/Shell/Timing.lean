import MovieVm.Console
import MovieVm.Decimal.Fixed
import MovieVm.Double.Arithmetic
import MovieVm.Json.Text

/-!
# Timings

A timeline adds up the time spent in named sections, and a counter counts named events with their times.
Times are in milliseconds and come from outside.
-/

namespace MovieVm.Shell

/-- Names in order, with what is known of each. -/
abbrev Ledger (β : Type) := List (String × β)

/-- Changes the entry of a name, which begins as `fresh`. -/
def Ledger.update (name : String) (fresh : β) (f : β → β) : Ledger β → Ledger β
  | [] => [(name, f fresh)]
  | (key, value) :: rest =>
    if key = name then (key, f value) :: rest
    else if name < key then (name, f fresh) :: (key, value) :: rest
    else (key, value) :: Ledger.update name fresh f rest

def milliseconds (x : Double) : String :=
  Decimal.fixed 2 x ++ " ms"

/-! ## Timelines -/

structure Section where
  count : Nat := 0
  total : Double := .zero

/-- The names of the open sections, innermost first, and the totals of the closed ones. -/
structure Timeline where
  opened : List String := []
  sections : Ledger Section := []

namespace Timeline

def enter (t : Timeline) (name : String) : Timeline :=
  { t with opened := name :: t.opened }

/-- Closes the innermost section after some time; any other name is ignored. -/
def leave (t : Timeline) (name : String) (time : Double) : Timeline :=
  match t.opened with
  | innermost :: opened =>
    if innermost = name then
      { opened, sections := Ledger.update name {} (fun s => ⟨s.count + 1, s.total.add time⟩) t.sections }
    else t
  | [] => t

/-- A section without others in it. -/
def time (t : Timeline) (name : String) (time : Double) : Timeline :=
  (t.enter name).leave name time

/-- Forgets every section. -/
def reset (t : Timeline) : Timeline :=
  { t with opened := [], sections := [] }

def Section.line (name : String) (s : Section) : String :=
  let average := if s.count = 0 then .zero else s.total.div (.ofNat s.count)
  s!"{name}: total {milliseconds s.total}, count {s.count}, average {milliseconds average}"

/-- Writes one line for each closed section. -/
def trace (t : Timeline) (c : Console) : Console :=
  let c := c.enter "Timeline:"
  (t.sections.foldl (fun c (name, s) => c.writeLine (Section.line name s)) c).leave ""

end Timeline

/-! ## Counters -/

structure Tally where
  count : Nat := 0
  time : Double := .zero

abbrev Counter := Ledger Tally

namespace Counter

def count (c : Counter) (name : String) (increment : Nat) (time : Double) : Counter :=
  Ledger.update name {} (fun t => ⟨t.count + increment, t.time.add time⟩) c

def get (c : Counter) (name : String) : Nat :=
  match c.lookup name with
  | some t => t.count
  | none => 0

/-- The most frequent names first, and names of one count in their order. -/
def sorted (c : Counter) : List (String × Tally) :=
  c.mergeSort fun a b => b.2.count ≤ a.2.count

def trace (c : Counter) (console : Console) : Console :=
  c.sorted.foldl (fun console (name, t) =>
    console.writeLine s!"{name}: {t.count} ({milliseconds t.time})") console

def json (c : Counter) : String :=
  Json.objectText [
    ("counts", Json.objectText (c.map fun (name, t) => (name, toString t.count))),
    ("times", Json.objectText (c.map fun (name, t) => (name, Json.double t.time)))]

end Counter

end MovieVm.Shell
