import MovieVm.Bytecode.Catalog
import MovieVm.Bytecode.Verifier
import MovieVm.Domain.Activation
import MovieVm.Domain.Globals

/-!
# Security domains

A domain is one isolated machine: a system and an application scope, each with its globals, the modules
loaded into them, and a catalog of system modules that are loaded when they are first needed.
-/

namespace MovieVm

open Bytecode

inductive Scope where
  | system
  | application
deriving DecidableEq

def Scope.name : Scope → String
  | system => "system"
  | application => "application"

/-! ## Effects -/

/-- An entry for the queue of unit tests: a count for the test that follows, or a test. -/
inductive TestEntry where
  | repeatNext (count : Nat)
  | test (name : String) (function : Value)
deriving DecidableEq

/-- What running code does to the program around it: lines of the domain's own trace, and calls of the
host. Nothing comes back from the host, so a run can list its effects in order. -/
inductive Effect where
  | line (text : String)
  | trace (message : String)
  | command (name args : String)
  | register (entry : TestEntry)
deriving DecidableEq

abbrev Effects := Array Effect

/-! ## Domains -/

structure Namespace where
  globals : Globals := []
  modules : Array Nat := #[]
deriving DecidableEq

structure LoadedModule where
  module : Module
  scope : Scope
deriving DecidableEq

/-- In release mode modules are loaded unverified. -/
structure DomainOptions where
  release : Bool := false
  traceRuntime : Bool := false
  traceInterpreter : Bool := false
deriving DecidableEq

/-- What became of a catalog entry: it counts as loaded while its initializer runs. -/
inductive EntryMark where
  | loaded
  | failed (error : VmError)
deriving DecidableEq

/-- `loadedEntries` is a set, and `failedEntries` has at most one error for an entry. `elapsed` is the age of the
domain in milliseconds, as the program around it last read its clock. -/
structure Domain where
  options : DomainOptions := {}
  system : Namespace := {}
  application : Namespace := {}
  modules : Array LoadedModule := #[]
  catalog : Option Catalog := none
  loadedEntries : List Nat := []
  failedEntries : List (Nat × VmError) := []
  isInitialized : Bool := false
  elapsed : Nat := 0

namespace Domain

def nativeNames : List String :=
  ["trace", "fscommand", "pushUnitTest", "assert", "assertEquals", "getTimer"]

def scope (d : Domain) : Scope → Namespace
  | .system => d.system
  | .application => d.application

def updateScope (d : Domain) (scope : Scope) (f : Namespace → Namespace) : Domain :=
  match scope with
  | .system => { d with system := f d.system }
  | .application => { d with application := f d.application }

def setGlobal (d : Domain) (scope : Scope) (name : String) (v : Value) : Domain :=
  d.updateScope scope fun ns => { ns with globals := ns.globals.set name v }

/-- The global that a scope sees: its own, then the system's. -/
def getGlobal? (d : Domain) (scope : Scope) (name : String) : Option Value :=
  match scope with
  | .application => (d.application.globals.get? name).or (d.system.globals.get? name)
  | .system => d.system.globals.get? name

def setCatalog (d : Domain) (catalog : Catalog) : Except VmError Domain :=
  if d.isInitialized then
    .error (Activation.internalError "catalog must be attached before initialization")
  else .ok { d with catalog := some catalog }

/-- Binds the natives in the system scope. A second time nothing happens. -/
def install (d : Domain) : Domain :=
  if d.isInitialized then d
  else
    let d := nativeNames.foldl (fun d name => d.setGlobal .system name (.native name)) d
    { d with isInitialized := true }

def moduleCount (d : Domain) : Nat :=
  d.modules.size

def module? (d : Domain) (id : Nat) : Option Module :=
  d.modules[id]?.map (·.module)

def moduleScope? (d : Domain) (id : Nat) : Option Scope :=
  d.modules[id]?.map (·.scope)

def moduleLabels (d : Domain) (scope : Scope) : List String :=
  (d.scope scope).modules.toList.filterMap fun id => (d.module? id).map (·.label)

def noModule (id : Nat) : VmError :=
  Activation.internalError s!"no module #{id}"

def loaded (d : Domain) (id : Nat) : Except VmError LoadedModule :=
  match d.modules[id]? with
  | some m => .ok m
  | none => .error (noModule id)

/-- The name that messages give a function. -/
def functionName (d : Domain) : Value → String
  | .function f =>
    match d.module? f.module with
    | some m => m.methodName f.method
    | none => ""
  | .native name => name
  | v => v.text

/-! ## Loading modules -/

/-- The value that a definition binds in the module that gets number `id`. -/
def bindingValue (m : Module) (id : Nat) : Binding → Except VmError Value
  | .slot none => .ok .undefined
  | .slot (some index) =>
    match m.constant index with
    | .ok c => .ok c.value
    | .error e => .error (Activation.internalError e.message)
  | .method method => .ok (.function ⟨id, method⟩)

def bindings (m : Module) (id : Nat) : List Definition → Except VmError (List (String × Value))
  | [] => .ok []
  | d :: rest =>
    match m.stringConstant d.name with
    | .error e => .error (Activation.internalError e.message)
    | .ok name => do
      let v ← bindingValue m id d.binding
      return (name, v) :: (← bindings m id rest)

def bind (d : Domain) (scope : Scope) (m : Module) (values : List (String × Value)) : Domain :=
  let id := d.modules.size
  let d := d.updateScope scope fun ns =>
    { ns with
      globals := values.foldl (fun g (name, v) => g.set name v) ns.globals
      modules := ns.modules.push id }
  { d with modules := d.modules.push ⟨m, scope⟩ }

def verifyFault (m : Module) : Option VmError :=
  match m.verify with
  | .ok () => none
  | .error e => some { kind := .verifyError, message := e.message }

/-- The line that announces a load. -/
def loadTrace (d : Domain) (scope : Scope) (m : Module) : Effects :=
  if d.options.traceRuntime then
    #[.line s!"Loading {m.label} into {scope.name} scope as module #{d.modules.size}"]
  else #[]

/-- Loads a module and binds its definitions; nothing changes unless all of them have a value. The
answer is the number of the module. -/
def load (d : Domain) (scope : Scope) (m : Module) : Effects × Except VmError (Nat × Domain) :=
  match if d.options.release then none else verifyFault m with
  | some e => (#[], .error e)
  | none =>
    let id := d.modules.size
    (d.loadTrace scope m, (bindings m id m.definitions).map fun values => (id, d.bind scope m values))

/-! ## The catalog -/

/-- An entry that has failed is not asked whether it is loaded. -/
def mark? (d : Domain) (entry : Nat) : Option EntryMark :=
  match d.failedEntries.lookup entry with
  | some e => some (.failed e)
  | none => if entry ∈ d.loadedEntries then some .loaded else none

theorem mark?_eq_failed {d : Domain} {entry : Nat} {e : VmError} :
    d.mark? entry = some (.failed e) ↔ d.failedEntries.lookup entry = some e := by
  unfold mark?
  split
  · simp [*]
  · split <;> simp [*]

/-- An entry that fails is no longer loaded. -/
def setMark (d : Domain) (entry : Nat) : EntryMark → Domain
  | .loaded => { d with loadedEntries := d.loadedEntries.insert entry }
  | .failed e =>
    { d with
      loadedEntries := d.loadedEntries.filter (· ≠ entry)
      failedEntries := (entry, e) :: d.failedEntries.filter (·.1 ≠ entry) }

def entryFor? (d : Domain) (symbol : String) : Option Nat :=
  d.catalog.bind (·.entryFor? symbol)

def undefinedGlobal (name : String) : VmError :=
  { kind := .referenceError, message := s!"{name} is not defined" }

end Domain

end MovieVm
