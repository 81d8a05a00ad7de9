import MovieVm.Proofs.Primitive

/-!
# Sequences of items

Items of any kinds that are written one behind the other are read back one by one, and behind each of them the
reader stands where its bytes end. No item needs to know what follows it.
-/

namespace MovieVm.Bytecode

/-! ## Items -/

inductive ItemKind where
  | u8
  | u16
  | d64
  | u30
  | s32
  | string
deriving DecidableEq

/-- What can be written on its own. -/
inductive Item where
  | u8 (b : UInt8)
  | u16 (n : UInt16)
  | d64 (x : Double)
  | u30 (n : Nat)
  | s32 (n : Int32)
  | string (s : String)
deriving DecidableEq

namespace Item

def kind : Item → ItemKind
  | u8 _ => .u8
  | u16 _ => .u16
  | d64 _ => .d64
  | u30 _ => .u30
  | s32 _ => .s32
  | string _ => .string

/-- Only numbers of thirty bits and the lengths of strings have a bound of their own. -/
def Fits : Item → Prop
  | u30 n => n < 0x40000000
  | string s => s.utf8ByteSize < 0x40000000
  | _ => True

def encode : Item → List UInt8
  | u8 b => [b]
  | u16 n => Encode.u16 n
  | d64 x => Encode.d64 x
  | u30 n => Encode.varint n
  | s32 n => Encode.s32 n
  | string s => Encode.string s

end Item

def ItemKind.decode : ItemKind → Decoder Item
  | u8 => return .u8 (← Decode.u8)
  | u16 => return .u16 (← Decode.u16)
  | d64 => return .d64 (← Decode.d64)
  | u30 => return .u30 (← Decode.u30)
  | s32 => return .s32 (← Decode.s32)
  | string => return .string (← Decode.string)

open Decoder

theorem Item.Fits.reads {item : Item} (h : item.Fits) : Reads item.kind.decode item.encode item := by
  cases item with
  | u8 b => exact (Decode.reads_u8 b).map
  | u16 n => exact (Decode.reads_u16 n).map
  | d64 x => exact (Decode.reads_d64 x).map
  | u30 n => exact (Decode.reads_u30 h).map
  | s32 n => exact (Decode.reads_s32 n).map
  | string s => exact (Decode.reads_string h).map

/-! ## Sequences -/

/-- The items, one behind the other. -/
def encodeItems (items : List Item) : List UInt8 :=
  items.flatMap Item.encode

/-- Reads an item of each kind, and notes with each where the reader stands behind it. -/
def decodeItems : List ItemKind → Decoder (List (Item × Nat))
  | [] => return []
  | kind :: kinds => do
    let item ← kind.decode
    let place ← Decode.position
    return (item, place) :: (← decodeItems kinds)

/-- The items, each with the place behind its bytes when they begin at `start`. -/
def placed (start : Nat) (items : List Item) : List (Item × Nat) :=
  items.mapIdx fun index item => (item, start + (encodeItems (items.take (index + 1))).length)

variable {item : Item} {items : List Item}

theorem length_encodeItems_cons : (encodeItems (item :: items)).length =
    item.encode.length + (encodeItems items).length := by
  rw [encodeItems, List.flatMap_cons, List.length_append]
  rfl

theorem placed_cons (start : Nat) : placed start (item :: items) =
    (item, start + item.encode.length) :: placed (start + item.encode.length) items := by
  have hnone : (encodeItems []).length = 0 := rfl
  simp only [placed, List.mapIdx_cons, List.take_succ_cons, List.take_zero, length_encodeItems_cons, hnone,
    Nat.add_zero, Nat.add_assoc]

/-- From any place on, and whatever follows. -/
theorem decodeItems_encodeItems (h : ∀ item ∈ items, item.Fits) (start : Nat) (tail : List UInt8) :
    decodeItems (items.map Item.kind) ⟨start, encodeItems items ++ tail⟩ =
      .ok (placed start items) ⟨start + (encodeItems items).length, tail⟩ := by
  induction items generalizing start with
  | nil => rfl
  | cons item items ih =>
    obtain ⟨hitem, hitems⟩ := List.forall_mem_cons.1 h
    have hfirst := hitem.reads start (encodeItems items ++ tail)
    have hrest := ih hitems (start + item.encode.length)
    have hbytes : encodeItems (item :: items) ++ tail = item.encode ++ (encodeItems items ++ tail) := by
      rw [encodeItems, List.flatMap_cons, List.append_assoc]
      rfl
    rw [hbytes, placed_cons, length_encodeItems_cons, ← Nat.add_assoc]
    refine (EStateM.bind_of_ok hfirst).trans ?_
    exact EStateM.bind_of_ok hrest

/-- Items that fit are read back from their bytes, whatever follows these: the reader returns each of them, stands
behind it where the bytes of all items so far end, and leaves what follows the last. -/
theorem items_read_back (items : List Item) (h : ∀ item ∈ items, item.Fits) (tail : List UInt8) :
    ∃ after : Source, decodeItems (items.map Item.kind) (.ofBytes (encodeItems items ++ tail)) =
        .ok (items.mapIdx fun index item => (item, (encodeItems (items.take (index + 1))).length)) after ∧
      after.position = (encodeItems items).length ∧ after.rest = tail ∧ after.remaining = tail.length := by
  have hread := decodeItems_encodeItems h 0 tail
  simp only [placed, Nat.zero_add] at hread
  exact ⟨_, hread, rfl, rfl, rfl⟩

/-- An item of each kind. -/
def oneOfEach : List Item :=
  [.u30 300, .s32 (-5), .string "a\u00e9", .u8 0xff, .d64 ⟨0x7ff8000000000000⟩, .u16 46, .s32 7]

theorem oneOfEach_reads_back :
    (∀ item ∈ oneOfEach, item.Fits) ∧ ∃ after : Source,
      decodeItems (oneOfEach.map Item.kind) (.ofBytes (encodeItems oneOfEach ++ [0x80])) =
        .ok (oneOfEach.zip [2, 7, 11, 12, 20, 22, 23]) after ∧ after.rest = [0x80] := by
  have hstring : "a\u00e9".utf8ByteSize < 0x40000000 := by decide
  have hfits : ∀ item ∈ oneOfEach, item.Fits := by simp [oneOfEach, Item.Fits, hstring]
  obtain ⟨after, hread, _, hrest, _⟩ := items_read_back oneOfEach hfits [0x80]
  have hplaces : (oneOfEach.mapIdx fun index item => (item, (encodeItems (oneOfEach.take (index + 1))).length)) =
      oneOfEach.zip [2, 7, 11, 12, 20, 22, 23] := by
    decide +kernel
  exact ⟨hfits, after, hplaces ▸ hread, hrest⟩

end MovieVm.Bytecode
