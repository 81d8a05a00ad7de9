import Mathlib.Data.List.Basic
import MovieVm.Bytecode.Catalog
import MovieVm.Proofs.Codec
import MovieVm.Proofs.SelfDelimiting
import MovieVm.Proofs.Sorted

/-!
# Exact catalogs

A catalog is made of any entries whose bytes it has, and of no others. What it then finds for a symbol, and
the bytes and the module of an entry, follow from the entries alone.
-/

namespace MovieVm.Bytecode

/-! ## Entries within the bytes -/

namespace CatalogEntry

/-- The place behind an entry, if 64 bits have room for it. -/
def stop? (e : CatalogEntry) : Option Nat :=
  if e.offset + e.length < 2 ^ 64 then some (e.offset + e.length) else none

/-- The end of the entry is a number, and not beyond `size` bytes. -/
def LiesWithin (e : CatalogEntry) (size : Nat) : Prop :=
  ∃ stop, e.stop? = some stop ∧ stop ≤ size

theorem liesWithin_iff {e : CatalogEntry} {size : Nat} (hsize : size < 2 ^ 64) :
    e.LiesWithin size ↔ e.offset + e.length ≤ size := by
  unfold LiesWithin stop?
  constructor
  · rintro ⟨stop, hstop, hle⟩
    split at hstop
    · cases hstop
      exact hle
    · cases hstop
  · intro hle
    exact ⟨_, if_pos (by omega), hle⟩

/-- What is reported of an entry that does not lie within the bytes. -/
def outside (e : CatalogEntry) (size : Nat) : CatalogError :=
  .outOfRange e.name e.offset e.length size

end CatalogEntry

/-! ## One pass over the entries -/

/-- The symbols that were met so far, each with the number of an entry. -/
abbrev SymbolTable := List (String × Nat)

namespace SymbolTable

/-- A symbol keeps the number that it was noted with first. -/
def note (index : Nat) (t : SymbolTable) (symbol : String) : SymbolTable :=
  if (t.lookup symbol).isSome then t else (symbol, index) :: t

theorem lookup_note (index : Nat) (t : SymbolTable) (symbol s : String) :
    (t.note index symbol).lookup s = (t.lookup s).or (if s = symbol then some index else none) := by
  unfold note
  split
  · rename_i hknown
    split
    · rename_i heq
      obtain ⟨known, hknown⟩ := Option.isSome_iff_exists.1 (heq ▸ hknown)
      simp [hknown]
    · simp
  · rename_i hnew
    by_cases heq : s = symbol
    · subst heq
      simp [Option.not_isSome_iff_eq_none.1 hnew]
    · have hne : (s == symbol) = false := by simpa using heq
      simp [List.lookup_cons, hne, heq]

theorem lookup_foldl_note (index : Nat) (defs : List String) (t : SymbolTable) (s : String) :
    (defs.foldl (note index) t).lookup s = (t.lookup s).or (if s ∈ defs then some index else none) := by
  induction defs generalizing t with
  | nil => simp
  | cons first rest ih =>
    rw [List.foldl_cons, ih, lookup_note, Option.or_assoc]
    congr 1
    by_cases heq : s = first <;> simp [heq]

end SymbolTable

namespace Catalog

/-- Checks the entries and notes their symbols as they come; the first of them has number `index`. -/
def gather (size : Nat) : (index : Nat) → List CatalogEntry → SymbolTable → Except CatalogError SymbolTable
  | _, [], t => .ok t
  | index, e :: rest, t =>
    match e.stop? with
    | some stop =>
      if size < stop then .error (e.outside size)
      else gather size (index + 1) rest (e.defs.foldl (SymbolTable.note index) t)
    | none => .error (e.outside size)

theorem gather_cons_of_liesWithin {size : Nat} {e : CatalogEntry} (h : e.LiesWithin size) (index : Nat)
    (rest : List CatalogEntry) (t : SymbolTable) :
    gather size index (e :: rest) t = gather size (index + 1) rest (e.defs.foldl (SymbolTable.note index) t) := by
  obtain ⟨stop, hstop, hle⟩ := h
  rw [gather, hstop]
  exact if_neg (by omega)

theorem gather_cons_of_not_liesWithin {size : Nat} {e : CatalogEntry} (h : ¬ e.LiesWithin size) (index : Nat)
    (rest : List CatalogEntry) (t : SymbolTable) : gather size index (e :: rest) t = .error (e.outside size) := by
  rw [gather]
  cases hstop : e.stop? with
  | none => rfl
  | some stop =>
    have hlt : size < stop := by
      by_contra hle
      exact h ⟨stop, hstop, by omega⟩
    exact if_pos hlt

/-! ## Making a catalog -/

variable {bytes : List UInt8} {entries : List CatalogEntry} {c : Catalog}

theorem ofEntries_eq_ok (hsize : bytes.length < 2 ^ 64) :
    ofEntries bytes entries = .ok c ↔ (∀ e ∈ entries, e.LiesWithin bytes.length) ∧ c = ⟨bytes, entries⟩ := by
  have hfits : entries.find? (fun e => bytes.length < e.offset + e.length) = none ↔
      ∀ e ∈ entries, e.LiesWithin bytes.length := by
    simp [CatalogEntry.liesWithin_iff hsize]
  unfold ofEntries
  cases hfind : entries.find? fun e => bytes.length < e.offset + e.length with
  | none =>
    have hall := hfits.1 hfind
    exact ⟨fun h => ⟨hall, (Except.ok.inj h).symm⟩, fun h => h.2 ▸ rfl⟩
  | some e =>
    have hnot : ¬ ∀ e ∈ entries, e.LiesWithin bytes.length := fun h => by simp [hfits.2 h] at hfind
    simp [hnot]

theorem ofEntries_eq_error (hsize : bytes.length < 2 ^ 64) {error : CatalogError} :
    ofEntries bytes entries = .error error ↔
      ∃ before e after, entries = before ++ e :: after ∧ (∀ b ∈ before, b.LiesWithin bytes.length) ∧
        ¬ e.LiesWithin bytes.length ∧ error = e.outside bytes.length := by
  unfold ofEntries
  constructor
  · intro h
    cases hfind : entries.find? fun e => bytes.length < e.offset + e.length with
    | none => simp [hfind] at h
    | some e =>
      obtain ⟨hbeyond, before, after, hentries, hbefore⟩ := List.find?_eq_some_iff_append.1 hfind
      rw [hfind] at h
      cases h
      refine ⟨before, e, after, hentries, fun b hb => ?_, ?_, rfl⟩
      · simpa [CatalogEntry.liesWithin_iff hsize] using hbefore b hb
      · simpa [CatalogEntry.liesWithin_iff hsize] using hbeyond
  · rintro ⟨before, e, after, hentries, hbefore, hbeyond, rfl⟩
    have hfind : entries.find? (fun e => bytes.length < e.offset + e.length) = some e := by
      refine List.find?_eq_some_iff_append.2 ⟨?_, before, after, hentries, fun b hb => ?_⟩
      · simpa [CatalogEntry.liesWithin_iff hsize] using hbeyond
      · simpa [CatalogEntry.liesWithin_iff hsize] using hbefore b hb
    rw [hfind]
    rfl

/-! ## Symbols -/

/-- The first entry with a symbol, of entries that are counted from `index`. -/
theorem gather_of_liesWithin {size : Nat} (h : ∀ e ∈ entries, e.LiesWithin size) (index : Nat) (t : SymbolTable) :
    ∃ table, gather size index entries t = .ok table ∧ ∀ s, table.lookup s =
      (t.lookup s).or ((entries.findIdx? fun e => e.defs.contains s).map (index + ·)) := by
  induction entries generalizing index t with
  | nil => exact ⟨t, rfl, fun s => by simp⟩
  | cons e rest ih =>
    obtain ⟨he, hrest⟩ := List.forall_mem_cons.1 h
    obtain ⟨table, hgather, hlookup⟩ := ih hrest (index + 1) (e.defs.foldl (SymbolTable.note index) t)
    refine ⟨table, (gather_cons_of_liesWithin he ..).trans hgather, fun s => ?_⟩
    rw [hlookup, SymbolTable.lookup_foldl_note, Option.or_assoc, List.findIdx?_cons]
    congr 1
    -- A symbol of this entry is noted before those of the entries behind it, and is not noted again.
    by_cases hs : s ∈ e.defs
    · simp [hs]
    · simp only [List.contains_iff_mem, hs, if_false, Option.none_or, Option.map_map]
      congr 1
      funext i
      exact Nat.add_right_comm index 1 i

theorem gather_of_not_liesWithin {size : Nat} {before after : List CatalogEntry} {e : CatalogEntry}
    (hbefore : ∀ b ∈ before, b.LiesWithin size) (he : ¬ e.LiesWithin size) (index : Nat) (t : SymbolTable) :
    gather size index (before ++ e :: after) t = .error (e.outside size) := by
  induction before generalizing index t with
  | nil => exact gather_cons_of_not_liesWithin he ..
  | cons b rest ih =>
    obtain ⟨hb, hrest⟩ := List.forall_mem_cons.1 hbefore
    exact (gather_cons_of_liesWithin hb ..).trans (ih hrest ..)

theorem gather_eq_ofEntries (hsize : bytes.length < 2 ^ 64) (entries : List CatalogEntry) :
    (gather bytes.length 0 entries []).map (fun table s => table.lookup s) =
      (ofEntries bytes entries).map entryFor? := by
  cases hmade : ofEntries bytes entries with
  | ok c =>
    obtain ⟨hfit, rfl⟩ := (ofEntries_eq_ok hsize).1 hmade
    obtain ⟨table, hgather, hlookup⟩ := gather_of_liesWithin hfit 0 []
    rw [hgather]
    refine congrArg Except.ok (funext fun s => (hlookup s).trans ?_)
    simp [entryFor?]
  | error error =>
    obtain ⟨before, e, after, rfl, hbefore, he, rfl⟩ := (ofEntries_eq_error hsize).1 hmade
    rw [gather_of_not_liesWithin hbefore he]
    rfl

theorem entryFor?_eq_some {s : String} {i : Nat} :
    c.entryFor? s = some i ↔
      (∃ e, c.entries[i]? = some e ∧ s ∈ e.defs) ∧ ∀ j < i, ∀ e, c.entries[j]? = some e → s ∉ e.defs := by
  rw [entryFor?, List.findIdx?_eq_some_iff_getElem]
  constructor
  · rintro ⟨hi, hdefines, hbefore⟩
    refine ⟨⟨c.entries[i], List.getElem?_eq_getElem hi, by simpa using hdefines⟩, fun j hj e he => ?_⟩
    obtain ⟨_, rfl⟩ := List.getElem?_eq_some_iff.1 he
    simpa using hbefore j hj
  · rintro ⟨⟨e, he, hs⟩, hbefore⟩
    obtain ⟨hi, rfl⟩ := List.getElem?_eq_some_iff.1 he
    refine ⟨hi, by simpa using hs, fun j hj => ?_⟩
    simpa using hbefore j hj _ (List.getElem?_eq_getElem (by omega))

theorem entryFor?_eq_none {s : String} : c.entryFor? s = none ↔ ∀ e ∈ c.entries, s ∉ e.defs := by
  simp [entryFor?]

theorem contains_iff {s : String} : c.contains s ↔ ∃ e ∈ c.entries, s ∈ e.defs := by
  simp [contains]

theorem mem_symbols {s : String} : s ∈ c.symbols ↔ ∃ e ∈ c.entries, s ∈ e.defs := by
  simp [symbols, mem_sortedStrings]

/-! ## The bytes of an entry -/

/-- Cuts the bytes before and behind an entry off. -/
theorem entryBytes?_eq_some {i : Nat} {e : CatalogEntry} (he : c.entries[i]? = some e)
    (hfits : e.offset + e.length ≤ c.bytes.length) :
    ∃ slice, c.entryBytes? i = some slice ∧ slice.length = e.length ∧
      c.bytes = c.bytes.take e.offset ++ slice ++ c.bytes.drop (e.offset + e.length) := by
  refine ⟨_, by rw [entryBytes?, he]; rfl, ?_, ?_⟩
  · rw [List.length_take, List.length_drop]
    omega
  · rw [List.append_assoc, ← List.drop_drop, List.take_append_drop, List.take_append_drop]

theorem entryBytes?_eq_none {i : Nat} : c.entryBytes? i = none ↔ c.entries.length ≤ i := by
  simp [entryBytes?]

/-! ## Modules one behind the other -/

/-- The entries give the places of the modules in the run of their encodings; names and symbols are free. -/
structure Indexes (entries : List CatalogEntry) (modules : List Module) : Prop where
  count : entries.length = modules.length
  offset : ∀ (i : Nat) e m, entries[i]? = some e → modules[i]? = some m →
    e.offset = ((modules.take i).flatMap Module.encode).length
  length : ∀ (i : Nat) e m, entries[i]? = some e → modules[i]? = some m → e.length = m.encode.length

namespace Indexes

variable {modules : List Module}

theorem encodings_split {i : Nat} {m : Module} (hm : modules[i]? = some m) :
    modules.flatMap Module.encode =
      (modules.take i).flatMap Module.encode ++ (m.encode ++ (modules.drop (i + 1)).flatMap Module.encode) := by
  obtain ⟨hi, rfl⟩ := List.getElem?_eq_some_iff.1 hm
  have hmodules : modules.take i ++ modules[i] :: modules.drop (i + 1) = modules := by
    rw [← List.drop_eq_getElem_cons hi, List.take_append_drop]
  rw [← List.flatMap_cons, ← List.flatMap_append, hmodules]

theorem liesWithin (h : Indexes entries modules) (hsize : (modules.flatMap Module.encode).length < 2 ^ 64) :
    ∀ e ∈ entries, e.LiesWithin (modules.flatMap Module.encode).length := by
  intro e he
  obtain ⟨i, hi⟩ := List.getElem?_of_mem he
  have hcount := h.count
  have hlt := (List.getElem?_eq_some_iff.1 hi).1
  have hm := List.getElem?_eq_getElem (show i < modules.length by omega)
  have hsplit := congrArg List.length (encodings_split hm)
  simp only [List.length_append] at hsplit
  rw [CatalogEntry.liesWithin_iff hsize, h.offset i e _ hi hm, h.length i e _ hi hm]
  omega

theorem slice_eq (h : Indexes entries modules) {i : Nat} {e : CatalogEntry} {m : Module}
    (he : entries[i]? = some e) (hm : modules[i]? = some m) :
    ((modules.flatMap Module.encode).drop e.offset).take e.length = m.encode := by
  rw [encodings_split hm, h.offset i e m he hm, List.drop_left, h.length i e m he hm, List.take_left]

end Indexes

theorem load_of_decode {i : Nat} {e : CatalogEntry} {m : Module} (he : c.entries[i]? = some e)
    (h : Module.decode ((c.bytes.drop e.offset).take e.length) e.name = .ok m) : c.load i = .ok m := by
  simp [load, he, h]

/-! ## Look-ups -/

/-- What a catalog answers about these bytes and entries. -/
structure Exact (c : Catalog) (bytes : List UInt8) (entries : List CatalogEntry) : Prop where
  /-- Of the entries with a symbol, the first is found. -/
  found : ∀ s i, c.entryFor? s = some i ↔
    (∃ e, entries[i]? = some e ∧ s ∈ e.defs) ∧ ∀ j < i, ∀ e, entries[j]? = some e → s ∉ e.defs
  missing : ∀ s, c.entryFor? s = none ↔ ∀ e ∈ entries, s ∉ e.defs
  contains : ∀ s, c.contains s = true ↔ (c.entryFor? s).isSome = true
  symbols : ∀ s, s ∈ c.symbols ↔ (c.entryFor? s).isSome = true
  /-- The symbols are in order, each of them once. -/
  ordered : c.symbols.Pairwise (· < ·)
  /-- The bytes of an entry are those at its offset, as many as it says. -/
  slice : ∀ i e, entries[i]? = some e → ∃ slice, c.entryBytes? i = some slice ∧ slice.length = e.length ∧
    bytes = bytes.take e.offset ++ slice ++ bytes.drop (e.offset + e.length)
  noSlice : ∀ i, c.entryBytes? i = none ↔ entries.length ≤ i

theorem exact_of_fit (h : ∀ e ∈ entries, e.offset + e.length ≤ bytes.length) :
    Exact ⟨bytes, entries⟩ bytes entries where
  found _ _ := entryFor?_eq_some
  missing _ := entryFor?_eq_none
  contains s := by
    rw [contains_iff, Option.isSome_iff_ne_none, ne_eq, entryFor?_eq_none]
    simp
  symbols s := by
    rw [mem_symbols, Option.isSome_iff_ne_none, ne_eq, entryFor?_eq_none]
    simp
  ordered := pairwise_sortedStrings _
  slice _ e he := entryBytes?_eq_some he (h e (List.mem_of_getElem? he))
  noSlice _ := entryBytes?_eq_none

/-- A catalog is made exactly of entries that lie within the bytes, else the first that does not is reported;
one pass over the entries that notes new symbols comes to the same. The catalog then answers from the entries
alone, and where the bytes are modules one behind the other, and the entries say where, it loads each of
them under the name of its entry. -/
theorem lookup_exact (bytes : List UInt8) (hsize : bytes.length < 2 ^ 64) (entries : List CatalogEntry) :
    ((∃ c, ofEntries bytes entries = .ok c) ↔ ∀ e ∈ entries, e.LiesWithin bytes.length) ∧
      (∀ error, ofEntries bytes entries = .error error ↔
        ∃ before e after, entries = before ++ e :: after ∧ (∀ b ∈ before, b.LiesWithin bytes.length) ∧
          ¬ e.LiesWithin bytes.length ∧ error = .outOfRange e.name e.offset e.length bytes.length) ∧
      (gather bytes.length 0 entries []).map (fun table s => table.lookup s) =
        (ofEntries bytes entries).map entryFor? ∧
      (∀ c, ofEntries bytes entries = .ok c → c.Exact bytes entries) ∧
      ∀ modules : List Module, (∀ m ∈ modules, m.Encodable) → bytes = modules.flatMap Module.encode →
        Indexes entries modules →
          ∃ c, ofEntries bytes entries = .ok c ∧ ∀ (i : Nat) e m, entries[i]? = some e → modules[i]? = some m →
            c.load i = .ok { m with label := e.name } := by
  refine ⟨?_, fun error => ofEntries_eq_error hsize, gather_eq_ofEntries hsize entries, fun c hmade => ?_, ?_⟩
  · simp [ofEntries_eq_ok hsize]
  · obtain ⟨hfit, rfl⟩ := (ofEntries_eq_ok hsize).1 hmade
    exact exact_of_fit fun e he => (CatalogEntry.liesWithin_iff hsize).1 (hfit e he)
  · rintro modules hencodable rfl hindexes
    -- The bytes of the entry are those of the module and no others, so nothing follows behind its initializer.
    refine ⟨_, (ofEntries_eq_ok hsize).2 ⟨hindexes.liesWithin hsize, rfl⟩, fun i e m he hm => ?_⟩
    have hdecode := Module.decode_relabel (Module.decode_encode (hencodable m (List.mem_of_getElem? hm))) e.name
    exact load_of_decode he (by rwa [hindexes.slice_eq he hm])

/-- Two copies of one module. -/
def twoTiny : List Module := [Module.tiny, Module.tiny]

/-- Where the copies are; both of them are said to define `X`. -/
def twoTinyEntries : List CatalogEntry := [⟨"a", 0, 15, ["X"]⟩, ⟨"b", 15, 15, ["X", "Y"]⟩]

theorem length_encode_tiny : Module.tiny.encode.length = 15 := by
  simp [Module.tiny, Module.encode, Encode.u16, Encode.varint_of_lt, Encode.constant, Encode.string, Encode.method,
    Encode.instruction, Text.toUtf8, Instruction.opcode, Instruction.operand?]

theorem lookup_exact_twoTiny :
    (twoTiny.flatMap Module.encode).length < 2 ^ 64 ∧
      ∃ c, ofEntries (twoTiny.flatMap Module.encode) twoTinyEntries = .ok c ∧
        c.Exact (twoTiny.flatMap Module.encode) twoTinyEntries ∧ c.entryFor? "X" = some 0 ∧
        c.load 1 = .ok { Module.tiny with label := "b" } := by
  have hsize : (twoTiny.flatMap Module.encode).length < 2 ^ 64 := by
    simp [twoTiny, length_encode_tiny]
  have hencodable : Module.tiny.Encodable :=
    (Module.of_decode (show Module.decode Module.tinyBytes "" = .ok Module.tiny by rfl)).1
  have hplaces : Indexes twoTinyEntries twoTiny := by
    refine ⟨rfl, ?_, ?_⟩ <;>
      · rintro (_ | _ | i) e m he hm
        · cases he; cases hm; simp [length_encode_tiny]
        · cases he; cases hm; simp [twoTiny, length_encode_tiny]
        · simp [twoTiny] at hm
  obtain ⟨_, _, _, hexact, hloads⟩ := lookup_exact (twoTiny.flatMap Module.encode) hsize twoTinyEntries
  obtain ⟨c, hmade, hload⟩ := hloads twoTiny (by simpa [twoTiny] using hencodable) rfl hplaces
  refine ⟨hsize, c, hmade, hexact c hmade, ((hexact c hmade).found "X" 0).2 ?_, hload 1 _ _ rfl rfl⟩
  exact ⟨⟨_, rfl, by decide⟩, fun j hj => absurd hj (Nat.not_lt_zero j)⟩

end Catalog

end MovieVm.Bytecode
