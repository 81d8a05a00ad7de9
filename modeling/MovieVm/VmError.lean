/-!
# Errors of running code

An error that leaves running code carries its class, its message and the frames it passed, innermost
first.
-/

namespace MovieVm

inductive ErrorKind where
  | error
  | typeError
  | referenceError
  | rangeError
  | verifyError
  | internalError
deriving DecidableEq

def ErrorKind.name : ErrorKind → String
  | error => "Error"
  | typeError => "TypeError"
  | referenceError => "ReferenceError"
  | rangeError => "RangeError"
  | verifyError => "VerifyError"
  | internalError => "InternalError"

/-- Where a method was when an error passed it. -/
structure StackFrame where
  method : String
  module : String
  instruction : Nat
deriving DecidableEq

def StackFrame.text (f : StackFrame) : String :=
  s!"{f.method} ({f.module}:{f.instruction})"

structure VmError where
  kind : ErrorKind
  message : String
  stack : List StackFrame := []
deriving DecidableEq

namespace VmError

def withFrame (e : VmError) (frame : StackFrame) : VmError :=
  { e with stack := e.stack ++ [frame] }

def text (e : VmError) : String :=
  e.kind.name ++ ": " ++ e.message

def stackLines (e : VmError) : List String :=
  e.stack.map fun frame => "    at " ++ frame.text

end VmError

end MovieVm
