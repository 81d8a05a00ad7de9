import MovieVm.Bits

/-!
# Prefix codes

A canonical prefix code is given by the lengths of its codes alone: shorter codes come first, and codes of
one length go to their symbols in order. Codes have at most fifteen bits.
-/

namespace MovieVm.Deflate

/-- Why reading stops: more bits have to arrive first, or the data can be no compressed stream. -/
inductive Stop where
  | starved
  | corrupt
deriving DecidableEq

/-- Reads from the bits that have arrived. -/
abbrev BitReader := EStateM Stop (List Bool)

namespace BitReader

def bit : BitReader Bool := do
  match ← get with
  | [] => throw .starved
  | b :: rest =>
    set rest
    return b

def bits : (width : Nat) → BitReader (List Bool)
  | 0 => return []
  | width + 1 => do
    let b ← bit
    return b :: (← bits width)

/-- A number of `width` bits, the least significant first. -/
def number (width : Nat) : BitReader Nat :=
  return Bits.ofLeastFirst (← bits width)

/-- Drops what is left of a byte that was begun. Bytes arrive whole, so the number of bits says how much. -/
def align : BitReader Unit :=
  modify fun bits => bits.drop (bits.length % 8)

end BitReader

/-! ## Codes -/

/-- How many codes there are of each length from 1 on, and the symbols in the order of their codes. -/
structure Code where
  counts : List Nat
  symbols : Array Nat

namespace Code

def maxLength : Nat := 15

/-- The code that gives each symbol a code of the listed length; length zero means no code. -/
def ofLengths (lengths : List Nat) : Code :=
  let widths := (List.range maxLength).map (· + 1)
  { counts := widths.map fun n => lengths.count n
    symbols := (widths.flatMap fun n => (lengths.zipIdx.filter (·.1 = n)).map (·.2)).toArray }

/-- Whether every sequence of fifteen bits begins with exactly one code. -/
def isComplete (c : Code) : Bool :=
  c.counts.foldl (fun total count => 2 * (total + count)) 0 = 1 <<< (maxLength + 1)

/-- Reads a symbol bit by bit. Of the codes of a length `first` is the lowest and belongs to the symbol at
`index`; a value of fifteen bits that is no code is corrupt. -/
def decodeFrom (symbols : Array Nat) : (counts : List Nat) → (value first index : Nat) → BitReader Nat
  | [], _, _, _ => throw .corrupt
  | count :: counts, value, first, index => do
    let value := 2 * value + (← BitReader.bit).toNat
    let first := 2 * first
    if value < first + count then
      match symbols[index + (value - first)]? with
      | some symbol => return symbol
      | none => throw .corrupt
    else decodeFrom symbols counts value (first + count) (index + count)

def decode (c : Code) : BitReader Nat :=
  decodeFrom c.symbols c.counts 0 0 0

end Code

end MovieVm.Deflate
