import Mathlib.Algebra.Group.Nat.Defs
import MovieVm.Proofs.Success
import MovieVm.Source

/-!
# Guarded reading

A reader that keeps all of its bytes and a place among them computes where to cut, and can get it wrong: a cut outside
of the bytes, a difference below zero, a shift by the width of a word or more, an offset beyond sixty-four bits, a
table with no room in memory. Here each of these is guarded, and an operation that its guard refuses traps. A guarded
reader follows a reader of what is left when it never traps and reads the same.
-/

namespace MovieVm

/-! ## Guards -/

namespace Guard

/-- The bytes from one place to another. -/
def slice (data : List UInt8) (start stop : Nat) : Option (List UInt8) :=
  if start ≤ stop ∧ stop ≤ data.length then some ((data.drop start).take (stop - start)) else none

def sliceFrom (data : List UInt8) (start : Nat) : Option (List UInt8) :=
  slice data start data.length

def sliceTo (data : List UInt8) (stop : Nat) : Option (List UInt8) :=
  slice data 0 stop

def index (data : List UInt8) (i : Nat) : Option UInt8 :=
  data[i]?

/-- The number that the first `width` bytes hold. -/
def word (width : Nat) (data : List UInt8) : Option Nat :=
  (sliceTo data width).map ofLittleEndian

def sub (a b : Nat) : Option Nat :=
  if b ≤ a then some (a - b) else none

def add (a b : Nat) : Option Nat :=
  if a + b < 2 ^ 64 then some (a + b) else none

/-- A distance by which words of this many bits can be shifted. -/
def shift (width distance : Nat) : Option Nat :=
  if distance < width then some distance else none

/-- No item of a table takes more bytes. -/
def itemSize : Nat := 1024

/-- Makes room for a number of items. -/
def reserve (count : Nat) : Option Unit :=
  if count * itemSize < 2 ^ 63 then some () else none

variable {data : List UInt8} {start stop a b width distance count : Nat}

theorem slice_eq (h : start ≤ stop) (h' : stop ≤ data.length) :
    slice data start stop = some ((data.drop start).take (stop - start)) :=
  if_pos ⟨h, h'⟩

theorem sliceFrom_eq (h : start ≤ data.length) : sliceFrom data start = some (data.drop start) := by
  rw [sliceFrom, slice_eq h (Nat.le_refl _), ← List.length_drop, List.take_length]

theorem sliceTo_eq (h : stop ≤ data.length) : sliceTo data stop = some (data.take stop) :=
  slice_eq (Nat.zero_le _) h

theorem word_eq {width : Nat} (h : width ≤ data.length) :
    word width data = some (ofLittleEndian (data.take width)) := by
  rw [word, sliceTo_eq h, Option.map_some]

theorem sub_eq (h : b ≤ a) : sub a b = some (a - b) :=
  if_pos h

theorem add_eq (h : a + b < 2 ^ 64) : add a b = some (a + b) :=
  if_pos h

theorem shift_eq (h : distance < width) : shift width distance = some distance :=
  if_pos h

theorem reserve_eq (h : count * itemSize < 2 ^ 63) : reserve count = some () :=
  if_pos h

end Guard

/-- A field of `n` bytes is read where that many are left. -/
theorem Source.skip_reaches {s : Source} {n : Nat} : s.position + n = (s.skip n).position ↔ n ≤ s.rest.length := by
  simp only [Source.skip, List.length_take]
  omega

/-! ## Guarded readers -/

/-- Bytes and a place among them. In the file of which they are a part they begin at `base`. -/
structure Cursor where
  data : List UInt8
  base : Nat
  position : Nat

namespace Cursor

/-- The place is among the bytes, and every place is far below what sixty-four bits can hold. -/
structure Valid (c : Cursor) : Prop where
  position : c.position ≤ c.data.length
  room : c.base + c.data.length < 2 ^ 63

/-- What is left to be read. -/
def source (c : Cursor) : Source :=
  ⟨c.base + c.position, c.data.drop c.position⟩

def remaining (c : Cursor) : Nat :=
  c.data.length - c.position

def seek (c : Cursor) (position : Nat) : Cursor :=
  { c with position }

theorem length_rest (c : Cursor) : c.source.rest.length = c.remaining :=
  List.length_drop

theorem Valid.seek {c : Cursor} (hc : c.Valid) {position : Nat} (h : position ≤ c.data.length) :
    (c.seek position).Valid :=
  ⟨h, hc.room⟩

theorem Valid.position_add {c : Cursor} (hc : c.Valid) {n : Nat} (h : n ≤ c.remaining) :
    c.position + n ≤ c.data.length := by
  have hposition := hc.position
  unfold remaining at h
  omega

theorem source_skip_min {c : Cursor} (hc : c.Valid) (n : Nat) :
    c.source.skip n = (c.seek (c.position + min n c.remaining)).source := by
  have hposition := hc.position
  simp only [Source.skip, List.length_take, length_rest]
  simp only [source, seek, List.drop_drop, Nat.add_assoc, Source.mk.injEq, true_and]
  -- Where more is skipped than is left, both sides are left with nothing, if not at one place of the list.
  obtain hlong | hshort := Nat.le_total n c.remaining
  · rw [Nat.min_eq_left hlong]
  · rw [Nat.min_eq_right hshort, List.drop_eq_nil_of_le, List.drop_eq_nil_of_le] <;>
      · simp only [remaining] at hshort ⊢
        omega

theorem source_skip {c : Cursor} (hc : c.Valid) {n : Nat} (h : n ≤ c.remaining) :
    c.source.skip n = (c.seek (c.position + n)).source := by
  rw [source_skip_min hc, Nat.min_eq_left h]

theorem source_skip_all {c : Cursor} (hc : c.Valid) {n : Nat} (h : c.remaining ≤ n) :
    c.source.skip n = (c.seek c.data.length).source := by
  rw [source_skip_min hc, Nat.min_eq_right h, remaining, Nat.add_sub_cancel' hc.position]

end Cursor

/-- A reader on a cursor: it traps, or fails, or reads something and moves on. -/
def Guarded (ε α : Type) : Type :=
  Cursor → Option (Except ε (α × Cursor))

namespace Guarded

variable {ε α β : Type}

instance : Monad (Guarded ε) where
  pure a c := some (.ok (a, c))
  bind x k c :=
    match x c with
    | none => none
    | some (.error e) => some (.error e)
    | some (.ok (a, c)) => k a c

def cursor : Guarded ε Cursor :=
  fun c => some (.ok (c, c))

def seek (position : Nat) : Guarded ε Unit :=
  fun c => some (.ok ((), c.seek position))

def fail (e : ε) : Guarded ε α :=
  fun _ => some (.error e)

/-- Goes on with what a guard lets through. -/
def guarded (x : Option α) : Guarded ε α :=
  fun c => x.map fun a => .ok (a, c)

/-- The place in the file. -/
def offset : Guarded ε Nat := do
  let c ← cursor
  guarded (Guard.add c.base c.position)

/-- The next `n` bytes, if that many are left. -/
def exactly (n : Nat) (fault : Guarded ε (List UInt8)) : Guarded ε (List UInt8) := do
  let c ← cursor
  if c.remaining < n then fault
  else
    let stop ← guarded (Guard.add c.position n)
    let taken ← guarded (Guard.slice c.data c.position stop)
    seek stop
    return taken

theorem exactly_of_le {c : Cursor} (hc : c.Valid) {n : Nat} (h : n ≤ c.remaining) (fault : Guarded ε (List UInt8)) :
    exactly n fault c = some (.ok (c.source.rest.take n, c.seek (c.position + n))) := by
  have hstop := hc.position_add h
  have hroom := hc.room
  have hadd : Guard.add c.position n = some (c.position + n) := Guard.add_eq (by omega)
  have hslice : Guard.slice c.data c.position (c.position + n) = some ((c.data.drop c.position).take n) := by
    rw [Guard.slice_eq (by omega) hstop, Nat.add_sub_cancel_left]
  -- The notation of the definition is opened to bring the guards into view one by one.
  change (if c.remaining < n then fault else guarded (Guard.add c.position n) >>= fun stop =>
    guarded (Guard.slice c.data c.position stop) >>= fun taken => seek stop >>= fun _ => pure taken) c = _
  rw [if_neg (by omega), hadd]
  change (guarded (Guard.slice c.data c.position (c.position + n)) >>= fun taken =>
    seek (c.position + n) >>= fun _ => pure taken) c = _
  rw [hslice]
  rfl

theorem exactly_of_lt {c : Cursor} {n : Nat} (h : c.remaining < n) (fault : Guarded ε (List UInt8)) :
    exactly n fault c = fault c := by
  change (if c.remaining < n then fault else _) c = _
  rw [if_pos h]

/-- Where the bytes end in the file. -/
def finish : Guarded ε Nat := do
  let c ← cursor
  guarded (Guard.add c.base c.data.length)

theorem bind_apply (x : Guarded ε α) (k : α → Guarded ε β) (c : Cursor) :
    (x >>= k) c =
      match x c with
      | none => none
      | some (.error e) => some (.error e)
      | some (.ok (a, c)) => k a c := rfl

@[simp] theorem cursor_bind_apply (k : Cursor → Guarded ε α) (c : Cursor) : (cursor >>= k) c = k c c := rfl

@[simp] theorem seek_bind_apply (position : Nat) (k : Unit → Guarded ε α) (c : Cursor) :
    (seek position >>= k) c = k () (c.seek position) := rfl

/-- A guard that lets something through is as good as nothing. -/
@[simp] theorem guarded_some_bind (b : β) (k : β → Guarded ε α) : (guarded (some b) >>= k) = k b := rfl

theorem finish_apply {c : Cursor} (hc : c.Valid) :
    (finish : Guarded ε Nat) c = some (.ok (c.base + c.data.length, c)) := by
  have hroom := hc.room
  have hadd : Guard.add c.base c.data.length = some (c.base + c.data.length) := Guard.add_eq (by omega)
  change guarded (Guard.add c.base c.data.length) c = _
  rw [hadd]
  rfl

theorem offset_apply {c : Cursor} (hc : c.Valid) :
    (offset : Guarded ε Nat) c = some (.ok (c.base + c.position, c)) := by
  have hroom := hc.room
  have hposition := hc.position
  have hadd : Guard.add c.base c.position = some (c.base + c.position) := Guard.add_eq (by omega)
  change guarded (Guard.add c.base c.position) c = _
  rw [hadd]
  rfl

theorem finish_bind {c : Cursor} (hc : c.Valid) (k : Nat → Guarded ε α) :
    (finish >>= k) c = k (c.base + c.data.length) c := by
  rw [bind_apply, finish_apply hc]

theorem offset_bind {c : Cursor} (hc : c.Valid) (k : Nat → Guarded ε α) :
    (offset >>= k) c = k (c.base + c.position) c := by
  rw [bind_apply, offset_apply hc]

/-! ### Following a reader -/

/-- A guarded reader has come to what a reader comes to. -/
inductive Matches (c : Cursor) : EStateM.Result ε Source α → Option (Except ε (α × Cursor)) → Prop where
  | ok (a : α) {position : Nat} (h : position ≤ c.data.length) :
    Matches c (.ok a (c.seek position).source) (some (.ok (a, c.seek position)))
  | error (e : ε) (s : Source) : Matches c (.error e s) (some (.error e))

/-- On no cursor a guarded reader traps, and it reads what the reader reads from what is left. -/
def Follows (x : Guarded ε α) (reader : EStateM ε Source α) : Prop :=
  ∀ c : Cursor, c.Valid → Matches c (reader c.source) (x c)

theorem Follows.pure (a : α) : Follows (Pure.pure a : Guarded ε α) (Pure.pure a) :=
  fun _ hc => .ok a hc.position

theorem Follows.fail (e : ε) : Follows (fail e : Guarded ε α) (throw e) :=
  fun c _ => .error e c.source

/-- What a guarded reader does with what it has read need follow only where that can be read. -/
theorem Follows.bind_of {x : Guarded ε α} {reader : EStateM ε Source α} {k : α → Guarded ε β}
    {next : α → EStateM ε Source β} (P : α → Prop) (hP : ∀ s a s', reader s = .ok a s' → P a)
    (h : Follows x reader) (hk : ∀ a, P a → Follows (k a) (next a)) : Follows (x >>= k) (reader >>= next) := by
  intro c hc
  have hx := h c hc
  rw [bind_apply, EStateM.bind_apply]
  -- Both results are taken apart together: no case is left for a trap.
  generalize hresult : reader c.source = result at hx ⊢
  generalize x c = out at hx ⊢
  cases hx with
  | error e s => exact .error e s
  | @ok a position hposition =>
    have hnext := hk a (hP _ _ _ hresult) (c.seek position) (hc.seek hposition)
    dsimp only
    generalize next a (c.seek position).source = result at hnext ⊢
    generalize k a (c.seek position) = out at hnext ⊢
    cases hnext with
    | error e s => exact .error e s
    | ok b hposition' => exact .ok (c := c) b hposition'

theorem Follows.bind {x : Guarded ε α} {reader : EStateM ε Source α} {k : α → Guarded ε β}
    {next : α → EStateM ε Source β} (h : Follows x reader) (hk : ∀ a, Follows (k a) (next a)) :
    Follows (x >>= k) (reader >>= next) :=
  h.bind_of (fun _ => True) (fun _ _ _ _ => trivial) fun a _ => hk a

/-- Only a field that is not all there is left to be compared. -/
theorem Follows.exactly {n : Nat} {fault : Guarded ε (List UInt8)} {reader : EStateM ε Source (List UInt8)}
    (hlong : ∀ s : Source, n ≤ s.rest.length → reader s = .ok (s.rest.take n) (s.skip n))
    (hshort : ∀ c : Cursor, c.Valid → c.remaining < n → Matches c (reader c.source) (fault c)) :
    Follows (exactly n fault) reader := by
  intro c hc
  by_cases hleft : n ≤ c.remaining
  · rw [exactly_of_le hc hleft, hlong _ (by rwa [c.length_rest]), Cursor.source_skip hc hleft]
    exact .ok _ (hc.position_add hleft)
  · rw [exactly_of_lt (Nat.lt_of_not_le hleft)]
    exact hshort c hc (Nat.lt_of_not_le hleft)

theorem Follows.ite {p : Prop} [Decidable p] {x y : Guarded ε α} {reader other : EStateM ε Source α}
    (h : p → Follows x reader) (h' : ¬p → Follows y other) :
    Follows (if p then x else y) (if p then reader else other) := by
  split
  · exact h ‹_›
  · exact h' ‹_›

theorem Follows.refuse {p : Prop} [Decidable p] {e : ε} {k : β → Guarded ε α} {next : β → EStateM ε Source α}
    {x : Guarded ε α} {reader : EStateM ε Source α} (h : Follows x reader) :
    Follows (if p then Guarded.fail e >>= k else x) (if p then throw e >>= next else reader) := by
  split
  · exact fun c _ => .error e c.source
  · exact h

theorem Follows.cursor_bind {k : Cursor → Guarded ε α} {next : Source → EStateM ε Source α}
    (h : ∀ c : Cursor, c.Valid → Matches c (next c.source c.source) (k c c)) :
    Follows (cursor >>= k) (get >>= next) :=
  h

theorem Follows.guarded_bind {x : Option β} {b : β} {k : β → Guarded ε α} {reader : EStateM ε Source α}
    (h : x = some b) (hk : Follows (k b) reader) : Follows (guarded x >>= k) reader := by
  subst h
  exact hk

end Guarded

end MovieVm
