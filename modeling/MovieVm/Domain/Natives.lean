import MovieVm.Domain.Basic

/-!
# Natives

The functions that a domain offers to its code. They see the domain, answer with a value or an error,
and reach the program around it through effects only.
-/

namespace MovieVm.Natives

def argument (args : List Value) (index : Nat) : Value :=
  args[index]?.getD .undefined

/-- A message that code may add to a failed assertion. -/
def withMessage (text : String) (args : List Value) (index : Nat) : String :=
  match argument args index with
  | .undefined => text
  | message => text ++ ": " ++ message.text

/-- The arguments as one line. -/
def traceLine (args : List Value) : String :=
  String.intercalate " " (args.map Value.text)

/-- Counts are of 32 bits: negative ones are zero, fractions go up, and all larger ones are the largest. -/
def repeatCount? : Value → Option Nat
  | .int n => some n.toInt.toNat
  | .double x => if x.isFinite then some (min x.ceil.toNat 4294967295) else none
  | _ => none

def testEntry (d : Domain) (v : Value) : Except VmError TestEntry :=
  match repeatCount? v with
  | some count => .ok (.repeatNext count)
  | none =>
    match v with
    | .function _ | .native _ => .ok (.test (d.functionName v) v)
    | _ => .error {
        kind := .typeError
        message := s!"pushUnitTest expects a function or a count, got {v.text}" }

/-- The age of the domain as an int; it stays at the largest. -/
def timer (d : Domain) : Value :=
  .int (Int32.ofInt (min d.elapsed 2147483647))

def assertionFailed (message : String) : VmError :=
  { kind := .error, message }

def call (d : Domain) (name : String) (args : List Value) : Effects × Except VmError Value :=
  if name = "trace" then
    (#[.trace (traceLine args)], .ok .undefined)
  else if name = "fscommand" then
    let rest := match argument args 1 with
      | .undefined => ""
      | v => v.text
    (#[.command (argument args 0).text rest], .ok .undefined)
  else if name = "pushUnitTest" then
    match testEntry d (argument args 0) with
    | .ok entry => (#[.register entry], .ok .undefined)
    | .error e => (#[], .error e)
  else if name = "assert" then
    if (argument args 0).isTruthy then (#[], .ok .undefined)
    else (#[], .error (assertionFailed (withMessage "Assertion failed" args 1)))
  else if name = "assertEquals" then
    let actual := argument args 0
    let expected := argument args 1
    if actual.strictEquals expected then (#[], .ok .undefined)
    else
      let text := s!"expected {expected.text} but was {actual.text}"
      (#[], .error (assertionFailed (withMessage text args 2)))
  else if name = "getTimer" then (#[], .ok (timer d))
  else (#[], .error { kind := .referenceError, message := s!"unknown native {name}" })

end MovieVm.Natives
