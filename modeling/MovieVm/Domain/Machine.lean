import MovieVm.Bytecode.Disassembly
import MovieVm.Domain.Natives

/-!
# The machine

Running code is a stack of frames over a domain. One step executes one instruction of the innermost
frame; a result is delivered to the frame below, and an error leaves frame after frame, each adding where
it was. A frame that initializes a catalog entry settles what becomes of the entry.
-/

namespace MovieVm

open Bytecode

/-- Why a frame runs: a call, or the initializer of a catalog entry that a scope needs for a symbol. -/
inductive Purpose where
  | call
  | catalogEntry (entry : Nat) (symbol : String) (requester : Scope)
deriving DecidableEq

/-- `depth` is the depth of nesting that the frame was entered with. -/
structure Frame where
  activation : Activation
  scope : Scope
  purpose : Purpose
  depth : Nat

/-- The frames stand innermost first, and the outermost is entered with the depth `base`. -/
structure Machine where
  domain : Domain
  effects : Effects := #[]
  frames : List Frame := []
  base : Nat := 0

/-- What is left of a finished run. -/
structure Outcome (α : Type) where
  domain : Domain
  effects : Effects
  result : Except VmError α

/-- A machine at work, or one whose last frame is done. -/
inductive Turn where
  | running (m : Machine)
  | finished (o : Outcome Value)

/-- The deepest nesting of frames. -/
def maxCallDepth : Nat := 256

def callStackExceeded : VmError :=
  { kind := .rangeError, message := "Maximum call stack size exceeded" }

/-- The domain after an error has left a frame with this purpose. -/
def Purpose.failed (p : Purpose) (d : Domain) (e : VmError) : Domain :=
  match p with
  | .call => d
  | .catalogEntry entry _ _ => d.setMark entry (.failed e)

/-- The result after a frame with this purpose has returned a value. -/
def Purpose.result (p : Purpose) (d : Domain) (v : Value) : Except VmError Value :=
  match p with
  | .call => .ok v
  | .catalogEntry _ symbol requester =>
    match d.getGlobal? requester symbol with
    | some v => .ok v
    | none => .error (Domain.undefinedGlobal symbol)

namespace Machine

/-- The depth that a frame is entered with: one more than that of the frame that asks for it. -/
def depth (m : Machine) : Nat :=
  match m.frames with
  | [] => m.base
  | f :: _ => f.depth + 1

def addEffects (m : Machine) (effects : Effects) : Machine :=
  { m with effects := m.effects ++ effects }

/-! ## Results -/

/-- Gives a result to the innermost of the frames; an error leaves all of them. -/
def deliverTo (m : Machine) (result : Except VmError Value) : List Frame → Turn
  | [] => .finished ⟨m.domain, m.effects, result⟩
  | f :: rest =>
    match result with
    | .ok v =>
      let a := { f.activation with stack := v :: f.activation.stack }
      .running { m with frames := { f with activation := a } :: rest }
    | .error e =>
      let e := e.withFrame f.activation.frame
      deliverTo { m with domain := f.purpose.failed m.domain e } (.error e) rest

def deliver (m : Machine) (result : Except VmError Value) : Turn :=
  m.deliverTo result m.frames

/-- Reports that a frame with this purpose could not be entered. -/
def refuse (m : Machine) (purpose : Purpose) (e : VmError) : Turn :=
  deliver { m with domain := purpose.failed m.domain e } (.error e)

/-! ## Calls -/

def enter (m : Machine) (purpose : Purpose) (function : FunctionRef) (args : List Value) : Turn :=
  if maxCallDepth ≤ m.depth then m.refuse purpose callStackExceeded
  else match m.domain.loaded function.module with
    | .error e => m.refuse purpose e
    | .ok loaded =>
      match Activation.enter loaded.module function args with
      | .error e => m.refuse purpose e
      | .ok activation =>
        .running { m with frames := ⟨activation, loaded.scope, purpose, m.depth⟩ :: m.frames }

def call (m : Machine) (callee : Value) (args : List Value) : Turn :=
  match callee with
  | .function f => m.enter .call f args
  | .native name =>
    let (effects, result) := Natives.call m.domain name args
    (m.addEffects effects).deliver result
  | v => m.deliver (.error { kind := .typeError, message := s!"{v.text} is not a function" })

/-! ## Globals -/

def catalogTrace (m : Machine) (symbol label : String) : Effects :=
  if m.domain.options.traceRuntime then #[.line s!"Catalog: resolving {symbol} from {label}"]
  else #[]

/-- Loads a catalog entry into the system scope and enters its initializer. -/
def loadEntry (m : Machine) (catalog : Catalog) (entry : Nat) (symbol : String)
    (requester : Scope) : Turn :=
  let purpose := Purpose.catalogEntry entry symbol requester
  let m := { m with domain := m.domain.setMark entry .loaded }
  match catalog.load entry with
  | .error e => m.refuse purpose (Activation.internalError e.message)
  | .ok module =>
    let m := m.addEffects (m.catalogTrace symbol module.label)
    let (effects, loaded) := m.domain.load .system module
    let m := m.addEffects effects
    match loaded with
    | .error e => m.refuse purpose e
    | .ok (id, domain) => enter { m with domain } purpose ⟨id, module.init⟩ []

/-- The value of a global for code of a scope. What no scope defines may be in the catalog; an entry that
failed before fails again with the same error. -/
def resolve (m : Machine) (scope : Scope) (name : String) : Turn :=
  match m.domain.getGlobal? scope name with
  | some v => m.deliver (.ok v)
  | none =>
    match m.domain.catalog, m.domain.entryFor? name with
    | some catalog, some entry =>
      match m.domain.mark? entry with
      | some (.failed e) => m.deliver (.error e)
      | some .loaded => m.deliver (.error (Domain.undefinedGlobal name))
      | none => m.loadEntry catalog entry name scope
    | _, _ => m.deliver (.error (Domain.undefinedGlobal name))

/-! ## Steps -/

/-- A number at the right of four places. -/
def pad4 (n : Nat) : String :=
  let digits := toString n
  String.ofList (List.replicate (4 - digits.length) ' ') ++ digits

def instructionTrace (m : Machine) (a : Activation) (i : Instruction) : Effects :=
  if m.domain.options.traceInterpreter then
    #[.line s!"{a.methodName} {pad4 a.next}: {a.module.instructionText i}"]
  else #[]

/-- Carries out what an instruction of frame `f` asked for. -/
def serve (m : Machine) (f : Frame) (rest : List Frame) : Activation.Request → Turn
  | .proceed => .running { m with frames := f :: rest }
  | .readGlobal name => resolve { m with frames := f :: rest } f.scope name
  | .writeGlobal name v =>
    .running { m with domain := m.domain.setGlobal f.scope name v, frames := f :: rest }
  | .call callee args => call { m with frames := f :: rest } callee args
  | .finish v => deliver { m with frames := rest } (f.purpose.result m.domain v)

/-- Executes one instruction of the innermost frame. Past the end of its code a frame returns
undefined. -/
def step (m : Machine) : Turn :=
  match m.frames with
  | [] => m.deliver (.ok .undefined)
  | f :: rest =>
    match Activation.fetch f.activation with
    | .error e _ => m.deliver (.error e)
    | .ok none _ => m.serve f rest (.finish .undefined)
    | .ok (some i) fetched =>
      let m := m.addEffects (m.instructionTrace f.activation i)
      match Activation.execute i fetched with
      | .ok request a => m.serve { f with activation := a } rest request
      | .error e a => deliver { m with frames := { f with activation := a } :: rest } (.error e)

end Machine

/-- Steps until the machine is done; none when that takes more than `fuel` steps. -/
def Turn.run : (fuel : Nat) → Turn → Option (Outcome Value)
  | _, .finished o => some o
  | 0, .running _ => none
  | fuel + 1, .running m => run fuel m.step

end MovieVm
