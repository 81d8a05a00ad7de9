import MovieVm.Domain.Execution
import MovieVm.Files

/-!
# Bootstrapping a domain

A domain that is ready to run comes from a builtin module, a catalog that may be attached, and a library
that may be loaded after the builtin module has run.
-/

namespace MovieVm

open Bytecode

/-- The files of a catalog: its modules, and its index. -/
structure CatalogPaths where
  modules : String
  index : String
deriving DecidableEq

inductive BootstrapError where
  | unreadable (path : String) (fault : FileFault)
  | unparsable (path : String) (cause : ModuleError)
  | catalog (cause : CatalogError)
  | failed (path : String) (cause : VmError)
deriving DecidableEq

def BootstrapError.message : BootstrapError → String
  | unreadable path fault => s!"cannot read {path}: {fault.message}"
  | unparsable path cause => s!"cannot parse {path}: {cause.message}"
  | catalog cause => cause.message
  | failed path cause => s!"error executing {path}: {cause.text}"

structure Bootstrap where
  builtin : String
  library : Option String := none
  catalog : Option CatalogPaths := none
  options : DomainOptions := {}

namespace Bootstrap

/-- Collects effects; without an error, the fuel of a run did not suffice. -/
abbrev Setup := EStateM (Option BootstrapError) Effects

def settle (f : ε → BootstrapError) : Except ε α → Setup α
  | .ok x => return x
  | .error e => throw (some (f e))

def report (effects : Effects) : Setup Unit :=
  modify (· ++ effects)

/-- The module of a file, labelled with the file's path. -/
def readModule (fs : Files) (path : String) : Setup Module := do
  let bytes ← settle (.unreadable path) (fs.read path)
  settle (.unparsable path) (Module.decode bytes path)

def readCatalog (fs : Files) (paths : CatalogPaths) : Setup Catalog := do
  let bytes ← settle (.unreadable paths.modules) (fs.read paths.modules)
  let index ← settle (.unreadable paths.index) (fs.readText paths.index)
  settle .catalog (Catalog.ofIndex bytes index)

/-- Takes over a run of a module; its value does not matter. -/
def ran (path : String) (run : Option (Outcome Value)) : Setup Domain := do
  match run with
  | none => throw none
  | some o =>
    report o.effects
    let _ ← settle (.failed path) o.result
    return o.domain

/-- The first step that fails ends the bootstrap. -/
def setup (b : Bootstrap) (fs : Files) (fuel : Nat) : Setup Domain := do
  let builtin ← readModule fs b.builtin
  let (effects, loaded) := ({ options := b.options } : Domain).load .system builtin
  report effects
  let (id, d) ← settle (.failed b.builtin) loaded
  let d ← match b.catalog with
    | none => pure d
    | some paths => do
      let catalog ← readCatalog fs paths
      settle (.failed paths.index) (d.setCatalog catalog)
  let d ← ran b.builtin (d.install.executeModule fuel id)
  let d ← match b.library with
    | none => pure d
    | some path => do
      let library ← readModule fs path
      ran path (d.execute fuel .system library)
  if d.options.traceRuntime then
    let count := (d.scope .system).modules.size
    report #[.line s!"Security domain ready: {count} module(s) in system scope"]
  return d

/-- A new domain, or the error that stopped the bootstrap, and the effects of either. -/
def run (b : Bootstrap) (fs : Files) (fuel : Nat) :
    Option (Effects × Except BootstrapError Domain) :=
  match b.setup fs fuel #[] with
  | .ok d effects => some (effects, .ok d)
  | .error (some e) effects => some (effects, .error e)
  | .error none _ => none

end Bootstrap

end MovieVm
