import MovieVm.Bytecode.Codec
import MovieVm.Json

/-!
# Catalogs

A catalog holds modules in one run of bytes and says which symbols each of them defines. A module is
decoded when one of its symbols is first needed; of two entries with a symbol the earlier counts.
-/

namespace MovieVm.Bytecode

structure CatalogEntry where
  name : String
  offset : Nat
  length : Nat
  defs : List String
deriving DecidableEq

structure Catalog where
  bytes : List UInt8
  entries : List CatalogEntry

inductive CatalogError where
  | index
  | outOfRange (name : String) (offset length size : Nat)
  | module (name : String) (cause : ModuleError)
deriving DecidableEq

def CatalogError.message : CatalogError → String
  | index => "invalid catalog index"
  | outOfRange name offset length size =>
    s!"catalog entry {name} ({offset}+{length}) exceeds {size} bytes of module data"
  | module name cause => s!"catalog entry {name}: {cause.message}"

/-! ## The index -/

namespace CatalogEntry

def readText? : Json → Option String
  | .string text => text
  | _ => none

def readCount? : Json → Option Nat
  | .number n => n
  | _ => none

def readDefs? : Json → Option (List String)
  | .array items => items.mapM readText?
  | _ => none

/-- The fields of an entry while they are collected; each may be given once. -/
structure Fields where
  name : Option String := none
  offset : Option Nat := none
  length : Option Nat := none
  defs : Option (List String) := none

/-- Sets a field that is still open. -/
def once (current : Option α) (value : Option α) : Option (Option α) :=
  match current, value with
  | none, some value => some (some value)
  | _, _ => none

/-- Unknown keys do not matter. -/
def Fields.add (f : Fields) (key : String) (value : Json) : Option Fields :=
  if key = "name" then (once f.name (readText? value)).map fun name => { f with name }
  else if key = "offset" then (once f.offset (readCount? value)).map fun offset => { f with offset }
  else if key = "length" then (once f.length (readCount? value)).map fun length => { f with length }
  else if key = "defs" then (once f.defs (readDefs? value)).map fun defs => { f with defs }
  else some f

/-- Definitions may be left out. -/
def Fields.entry? (f : Fields) : Option CatalogEntry := do
  return ⟨← f.name, ← f.offset, ← f.length, f.defs.getD []⟩

/-- An entry is an object, or an array of its fields in order. -/
def ofJson? : Json → Option CatalogEntry
  | .object fields => do
    let collected ← fields.foldlM (fun f (key, value) => do f.add (← key) value) ({} : Fields)
    collected.entry?
  | .array [name, offset, length] => do
    return ⟨← readText? name, ← readCount? offset, ← readCount? length, []⟩
  | .array [name, offset, length, defs] => do
    return ⟨← readText? name, ← readCount? offset, ← readCount? length, ← readDefs? defs⟩
  | _ => none

end CatalogEntry

namespace Catalog

def readIndex? (index : String) : Option (List CatalogEntry) :=
  match Json.read? index with
  | some (.array items) => items.mapM CatalogEntry.ofJson?
  | _ => none

/-- A catalog, if all its entries lie within the bytes. -/
def ofEntries (bytes : List UInt8) (entries : List CatalogEntry) : Except CatalogError Catalog :=
  match entries.find? fun e => bytes.length < e.offset + e.length with
  | some e => .error (.outOfRange e.name e.offset e.length bytes.length)
  | none => .ok ⟨bytes, entries⟩

def ofIndex (bytes : List UInt8) (index : String) : Except CatalogError Catalog :=
  match readIndex? index with
  | some entries => ofEntries bytes entries
  | none => .error .index

/-! ## Look-ups -/

/-- The first entry that defines a symbol. -/
def entryFor? (c : Catalog) (symbol : String) : Option Nat :=
  c.entries.findIdx? fun e => e.defs.contains symbol

def contains (c : Catalog) (symbol : String) : Bool :=
  c.entries.any fun e => e.defs.contains symbol

def symbols (c : Catalog) : List String :=
  sortedStrings (c.entries.flatMap CatalogEntry.defs)

def entryBytes? (c : Catalog) (index : Nat) : Option (List UInt8) :=
  c.entries[index]?.map fun e => (c.bytes.drop e.offset).take e.length

/-- The module of an entry, labelled with the entry's name. -/
def load (c : Catalog) (index : Nat) : Except CatalogError Module :=
  match c.entries[index]? with
  | none => .error (.outOfRange s!"#{index}" 0 0 c.bytes.length)
  | some e =>
    match Module.decode ((c.bytes.drop e.offset).take e.length) e.name with
    | .ok m => .ok m
    | .error cause => .error (.module e.name cause)

end Catalog

end MovieVm.Bytecode
