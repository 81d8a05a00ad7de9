import MovieVm.Console
import MovieVm.Movie.Loader

/-!
# Embedded modules
-/

namespace MovieVm.Movie

/-- The modules that are there when a file is opened. -/
def LoadEvent.blocks : LoadEvent → List (List UInt8)
  | opened file => file.blocks.toList.map (·.data)
  | _ => []

/-- The modules embedded in a file, in the order of the file. -/
def embeddedModules (bytes : List UInt8) : Except Fault (List (List UInt8)) :=
  let d := ({} : Loader).load bytes
  d.result.map fun () => d.events.flatMap LoadEvent.blocks

/-- The same; when the file does not load, a line says why. -/
def extract (c : Console) (bytes : List UInt8) : Option (List (List UInt8)) × Console :=
  match embeddedModules bytes with
  | .ok blocks => (some blocks, c)
  | .error fault => (none, c.redLine s!"Cannot parse SWF, reason: {fault.message}")

end MovieVm.Movie
