import MovieVm.Bytecode.Assembly.Fault
import MovieVm.Domain.Bootstrap
import MovieVm.Movie.Fault

/-!
# Errors of a shell
-/

namespace MovieVm.Shell

open Bytecode

/-- Why a file cannot be parsed. -/
inductive ParseFault where
  | module (cause : ModuleError)
  | movie (cause : Movie.Fault)
  | script (cause : AssemblyError)
deriving DecidableEq

def ParseFault.message : ParseFault → String
  | module cause => cause.message
  | movie cause => cause.message
  | script cause => cause.message

inductive ShellError where
  | unreadable (path : String) (fault : FileFault)
  | unparsable (path : String) (fault : ParseFault)
  | failed (path : String) (cause : VmError)
  | unrecognized (argument : String)
  | bootstrap (cause : BootstrapError)
deriving DecidableEq

/-- What went wrong, without the file it went wrong with. -/
def ShellError.reason : ShellError → String
  | unreadable _ fault => fault.message
  | unparsable _ fault => fault.message
  | failed _ cause => cause.text
  | unrecognized argument => argument
  | bootstrap cause => cause.message

def ShellError.message : ShellError → String
  | unreadable path fault => s!"cannot read {path}: {fault.message}"
  | unparsable path fault => s!"cannot parse {path}: {fault.message}"
  | failed path cause => s!"error executing {path}: {cause.text}"
  | unrecognized argument => s!"unrecognized argument: {argument}"
  | bootstrap cause => cause.message

end MovieVm.Shell
