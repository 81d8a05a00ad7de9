import MovieVm.Double.Rounding
import MovieVm.Movie.Fault
import MovieVm.Source
import MovieVm.Text.Utf8

/-!
# Fields of a movie file
-/

namespace MovieVm.Movie

/-- A reader leaves the source where it stopped, after a failure too. -/
abbrev Reader := EStateM Fault Source

namespace Reader

/-- A number of `width` bytes. When there are fewer, all of them are used up. -/
def number (width : Nat) : Reader Nat := do
  let source ← get
  let after := source.skip width
  set after
  if source.position + width ≠ after.position then throw (.truncated after.position)
  return ofLittleEndian (source.rest.take width)

/-- The number whose 256th part a double is. -/
def fixedPoint (n : Nat) : Double :=
  Double.ofUnits false (n <<< 1066) 1

/-- A number of two bytes, in 256ths. -/
def fixed : Reader Double :=
  return fixedPoint (← number 2)

/-- A text that ends before a zero byte, or with the data. -/
def terminatedText : Reader String :=
  modifyGet fun source =>
    let text := source.rest.takeWhile (· ≠ 0)
    (Text.ofUtf8Lossy text, source.skip (text.length + 1))

/-- The next `n` bytes. When there are fewer, none is used up. -/
def bytes (n : Nat) : Reader (List UInt8) := do
  let source ← get
  let after := source.skip n
  if source.position + n ≠ after.position then throw (.truncated source.position)
  set after
  return source.rest.take n

/-- Everything that is left. -/
def rest : Reader (List UInt8) :=
  modifyGet fun source => (source.rest, source.skip source.rest.length)

end Reader

end MovieVm.Movie
