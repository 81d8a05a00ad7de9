/-!
# Blanks, trimming and lines

White space is the Unicode property White_Space. A line ends at a line feed; a carriage return right
before the line feed belongs to the line end.
-/

namespace MovieVm.Text

def isBlank (c : Char) : Bool :=
  c.isWhitespace || c = '\x0b' || c = '\x0c' || c = '\u0085' || c = '\u00a0' || c = '\u1680' ||
    ('\u2000' ≤ c && c ≤ '\u200a') || c = '\u2028' || c = '\u2029' || c = '\u202f' ||
    c = '\u205f' || c = '\u3000'

/-- Control characters: general category Cc. -/
def isControl (c : Char) : Bool :=
  c.toNat < 0x20 || (0x7f ≤ c.toNat && c.toNat < 0xa0)

def trimLeft (s : List Char) : List Char :=
  s.dropWhile isBlank

def trimRight (s : List Char) : List Char :=
  (s.reverse.dropWhile isBlank).reverse

def trim (s : List Char) : List Char :=
  trimRight (trimLeft s)

def dropReturn (line : List Char) : List Char :=
  if line.getLast? = some '\r' then line.dropLast else line

/-- The lines of what is left, where `current` holds the open line backwards. -/
def linesFrom (current : List Char) : List Char → List (List Char)
  | [] => if current.isEmpty then [] else [current.reverse]
  | c :: rest =>
    if c = '\n' then dropReturn current.reverse :: linesFrom [] rest
    else linesFrom (c :: current) rest

/-- The lines of a text, without their ends; a text that ends in a line end has no empty last line. -/
def lines (s : List Char) : List (List Char) :=
  linesFrom [] s

end MovieVm.Text
