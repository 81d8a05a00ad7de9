import MovieVm.Text.Blank

/-!
# Console

All output goes through writers on one console. A console keeps what was emitted on its two channels, the
level and the other settings, and the indentation of each group of writers. Essential lines are always
shown; diagnostic lines obey the level and are silenced in porcelain mode.
-/

namespace MovieVm

inductive LogLevel where
  | error
  | warn
  | info
  | debug
deriving DecidableEq

namespace LogLevel

def rank : LogLevel → Nat
  | error => 0
  | warn => 1
  | info => 2
  | debug => 3

def name : LogLevel → String
  | error => "Error"
  | warn => "Warn"
  | info => "Info"
  | debug => "Debug"

/-- Whether lines of a level are shown when the threshold is `l`. -/
def shows (l line : LogLevel) : Bool :=
  line.rank ≤ l.rank

end LogLevel

inductive Channel where
  | out
  | err
deriving DecidableEq

/-- A line as it was shown, with its indentation and without its end. -/
structure Emission where
  channel : Channel
  line : String
deriving DecidableEq

/-- A writer is known by the group that it shares its indentation with. -/
structure Writer where
  group : Nat
deriving DecidableEq

structure Console where
  level : LogLevel := .warn
  porcelain : Bool := false
  colors : Bool := false
  paddings : Array Nat := #[0]
  emitted : Array Emission := #[]

namespace Console

/-- The writer that a console starts with. -/
def root : Writer := ⟨0⟩

def padding (c : Console) (w : Writer) : Nat :=
  c.paddings[w.group]?.getD 0

/-- A writer with an indentation of its own, which starts at zero. -/
def fork (c : Console) : Writer × Console :=
  (⟨c.paddings.size⟩, { c with paddings := c.paddings.push 0 })

def indent (c : Console) (w : Writer := root) : Console :=
  { c with paddings := c.paddings.modify w.group (· + 1) }

/-- At zero the indentation stays. -/
def outdent (c : Console) (w : Writer := root) : Console :=
  { c with paddings := c.paddings.modify w.group (· - 1) }

/-! ## Lines -/

/-- Two blanks a level. -/
def indentation (levels : Nat) : String :=
  String.ofList (List.replicate (2 * levels) ' ')

def emit (c : Console) (channel : Channel) (line : String) (w : Writer := root) : Console :=
  { c with emitted := c.emitted.push ⟨channel, indentation (c.padding w) ++ line⟩ }

def writeLine (c : Console) (line : String) (w : Writer := root) : Console :=
  c.emit .out line w

/-- One line for each line of a text. -/
def writeLines (c : Console) (text : String) (w : Writer := root) : Console :=
  (Text.lines text.toList).foldl (fun c line => c.writeLine (String.ofList line) w) c

/-- An essential line that only the debug level shows. -/
def debugLine (c : Console) (line : String) (w : Writer := root) : Console :=
  if c.level.shows .debug then c.writeLine line w else c

def infoLine (c : Console) (line : String) (w : Writer := root) : Console :=
  if !c.porcelain && c.level.shows .info then c.emit .out line w else c

def warnLine (c : Console) (line : String) (w : Writer := root) : Console :=
  if !c.porcelain && c.level.shows .warn then c.emit .err line w else c

def errorLine (c : Console) (line : String) (w : Writer := root) : Console :=
  if c.porcelain then c else c.emit .err line w

/-- An essential line, bright red when colors are on. -/
def redLine (c : Console) (line : String) (w : Writer := root) : Console :=
  if c.colors then c.writeLine ("\x1b[91m" ++ line ++ "\x1b[0m") w else c.writeLine line w

def redLines (c : Console) (lines : List String) (w : Writer := root) : Console :=
  lines.foldl (fun c line => c.redLine line w) c

/-- A line, and what follows is indented. -/
def enter (c : Console) (line : String) (w : Writer := root) : Console :=
  (c.writeLine line w).indent w

/-- Ends the indentation; an empty line is not written. -/
def leave (c : Console) (line : String) (w : Writer := root) : Console :=
  if line.isEmpty then c.outdent w else (c.outdent w).writeLine line w

/-! ## What was shown -/

def textOf (emissions : List Emission) : String :=
  String.join (emissions.map fun e => e.line ++ "\n")

/-- Everything shown on both channels, in order. -/
def text (c : Console) : String :=
  textOf c.emitted.toList

def channelText (c : Console) (channel : Channel) : String :=
  textOf (c.emitted.toList.filter (·.channel = channel))

end Console

end MovieVm
