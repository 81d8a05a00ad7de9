import MovieVm.Domain.Machine

/-!
# Running code in a domain

What a program around a domain can ask of it. Each run answers with the domain it leaves, its effects and
its result, or with nothing when the fuel does not suffice.
-/

namespace MovieVm.Domain

open Bytecode

/-- Calls a function value. -/
def invoke (d : Domain) (fuel : Nat) (function : Value) (args : List Value) :
    Option (Outcome Value) :=
  (Machine.call { domain := d } function args).run fuel

/-- Looks a global up as code of a scope does, with frames at the given depth. -/
def resolveGlobal (d : Domain) (fuel : Nat) (scope : Scope) (name : String) (depth : Nat) :
    Option (Outcome Value) :=
  (Machine.resolve { domain := d, base := depth } scope name).run fuel

def notInitialized : VmError :=
  Activation.internalError "security domain is not initialized"

/-- An answer that changes nothing. -/
def fail (d : Domain) (e : VmError) : Outcome α :=
  ⟨d, #[], .error e⟩

/-- Runs the initializer of a loaded module. -/
def executeModule (d : Domain) (fuel : Nat) (id : Nat) : Option (Outcome Value) :=
  if !d.isInitialized then some (d.fail notInitialized)
  else match d.module? id with
    | none => some (d.fail (noModule id))
    | some m => (Machine.enter { domain := d } .call ⟨id, m.init⟩ []).run fuel

/-- Loads a module and runs its initializer. -/
def execute (d : Domain) (fuel : Nat) (scope : Scope) (m : Module) : Option (Outcome Value) :=
  if !d.isInitialized then some (d.fail notInitialized)
  else
    let (effects, loaded) := d.load scope m
    match loaded with
    | .error e => some ⟨d, effects, .error e⟩
    | .ok (id, d) => do
      let o ← d.executeModule fuel id
      return { o with effects := effects ++ o.effects }

end MovieVm.Domain
