import MovieVm.Deflate.Code

/-!
# Inflating a stream

A compressed stream is a two-byte header, blocks, and a checksum of what they hold. The bytes of a stream
may arrive in pieces: all that can be inflated from what has arrived is handed out at once, and a piece
that shows the stream to be corrupt ends it.
-/

namespace MovieVm.Deflate

/-- What is read next. -/
inductive Phase where
  | header
  | block
  | storedHeader (isLast : Bool)
  | stored (isLast : Bool) (left : Nat)
  | coded (isLast : Bool) (literals distances : Code)
  | checksum
  | ended

structure Inflate where
  phase : Phase := .header
  /-- What has arrived and is not used, each byte from its least significant bit on. -/
  bits : List Bool := []
  output : Array UInt8 := #[]

namespace Inflate

def afterBlock (isLast : Bool) : Phase :=
  if isLast then .checksum else .block

/-! ## Codes of a block -/

def fixedLiterals : Code :=
  .ofLengths (List.replicate 144 8 ++ List.replicate 112 9 ++ List.replicate 24 7 ++ List.replicate 8 8)

def fixedDistances : Code :=
  .ofLengths (List.replicate 32 5)

/-- The order in which a block gives the lengths of the codes for its lengths. -/
def lengthOrder : List Nat :=
  [16, 17, 18, 0, 8, 7, 9, 6, 10, 5, 11, 4, 12, 3, 13, 2, 14, 1, 15]

/-- Reads lengths until there are `left` more; those read so far are `previous`, the last one first. -/
def readLengths (code : Code) (left : Nat) (previous : List Nat) : BitReader (List Nat) := do
  match left with
  | 0 => return previous.reverse
  | left + 1 =>
    let symbol ← code.decode
    if symbol < 16 then readLengths code left (symbol :: previous)
    else
      let (length, least, width) ←
        if symbol = 16 then
          match previous with
          | [] => throw .corrupt
          | last :: _ => pure (last, 3, 2)
        else if symbol = 17 then pure (0, 3, 3)
        else pure (0, 11, 7)
      let times := least + (← BitReader.number width)
      if left + 1 < times then throw .corrupt
      readLengths code (left + 1 - max 1 times) (List.replicate times length ++ previous)
termination_by left

/-- A code is usable when it is complete or has at most one symbol. -/
def usable (c : Code) : Bool :=
  c.isComplete || c.symbols.size ≤ 1

def readCodes : BitReader (Code × Code) := do
  let literalCount := (← BitReader.number 5) + 257
  let distanceCount := (← BitReader.number 5) + 1
  let orderCount := (← BitReader.number 4) + 4
  if 286 < literalCount || 30 < distanceCount then throw .corrupt
  let given ← (lengthOrder.take orderCount).mapM fun symbol => do
    return (symbol, ← BitReader.number 3)
  let lengthCode := Code.ofLengths ((List.range 19).map fun symbol => (given.lookup symbol).getD 0)
  if !lengthCode.isComplete then throw .corrupt
  let lengths ← readLengths lengthCode (literalCount + distanceCount) []
  let literals := Code.ofLengths (lengths.take literalCount)
  let distances := Code.ofLengths (lengths.drop literalCount)
  if !usable distances || !usable literals then throw .corrupt
  return (literals, distances)

/-! ## Copies -/

/-- Base and extra bits of the lengths 257 to 285. -/
def lengthTable : Array (Nat × Nat) :=
  #[(3, 0), (4, 0), (5, 0), (6, 0), (7, 0), (8, 0), (9, 0), (10, 0), (11, 1), (13, 1), (15, 1), (17, 1),
    (19, 2), (23, 2), (27, 2), (31, 2), (35, 3), (43, 3), (51, 3), (59, 3), (67, 4), (83, 4), (99, 4),
    (115, 4), (131, 5), (163, 5), (195, 5), (227, 5), (258, 0)]

def distanceTable : Array (Nat × Nat) :=
  #[(1, 0), (2, 0), (3, 0), (4, 0), (5, 1), (7, 1), (9, 2), (13, 2), (17, 3), (25, 3), (33, 4), (49, 4),
    (65, 5), (97, 5), (129, 6), (193, 6), (257, 7), (385, 7), (513, 8), (769, 8), (1025, 9), (1537, 9),
    (2049, 10), (3073, 10), (4097, 11), (6145, 11), (8193, 12), (12289, 12), (16385, 13), (24577, 13)]

/-- A number from a table of bases and extra bits. -/
def readExtended (table : Array (Nat × Nat)) (index : Nat) : BitReader Nat := do
  match table[index]? with
  | none => throw .corrupt
  | some (base, width) => return base + (← BitReader.number width)

/-- Appends `length` bytes, each the one `distance` places back. Before the first byte there are zeros. -/
def copy (output : Array UInt8) (distance : Nat) : (length : Nat) → Array UInt8
  | 0 => output
  | length + 1 =>
    let b := if output.size < distance then 0 else output[output.size - distance]?.getD 0
    copy (output.push b) distance length

/-! ## Steps -/

/-- The method must be deflate, the window at most 32 KiB and no dictionary preset. -/
def isHeader (method flags : Nat) : Bool :=
  (256 * method + flags) % 31 = 0 && method % 16 = 8 && method / 16 ≤ 7 && flags / 32 % 2 = 0

/-- The two sums modulo 65521 that a stream ends with. -/
def checksum (bytes : Array UInt8) : Nat :=
  let (low, high) := bytes.foldl (fun (low, high) b =>
    let low := (low + b.toNat) % 65521
    (low, (high + low) % 65521)) (1, 0)
  65536 * high + low

/-- Reads one item of a phase: what comes next, and the output with what the item adds. -/
def item (output : Array UInt8) : Phase → BitReader (Phase × Array UInt8)
  | .header => do
    let method ← BitReader.number 8
    let flags ← BitReader.number 8
    if isHeader method flags then return (.block, output) else throw .corrupt
  | .block => do
    let isLast ← BitReader.bit
    let kind ← BitReader.number 2
    if kind = 0 then return (.storedHeader isLast, output)
    else if kind = 1 then return (.coded isLast fixedLiterals fixedDistances, output)
    else if kind = 2 then
      let (literals, distances) ← readCodes
      return (.coded isLast literals distances, output)
    else throw .corrupt
  | .storedHeader isLast => do
    BitReader.align
    let length ← BitReader.number 16
    let complement ← BitReader.number 16
    if length + complement ≠ 65535 then throw .corrupt
    return (if length = 0 then afterBlock isLast else .stored isLast length, output)
  | .stored isLast left => do
    let b ← BitReader.number 8
    return (if left ≤ 1 then afterBlock isLast else .stored isLast (left - 1),
      output.push (UInt8.ofNat b))
  | .coded isLast literals distances => do
    let symbol ← literals.decode
    if symbol < 256 then return (.coded isLast literals distances, output.push (UInt8.ofNat symbol))
    else if symbol = 256 then return (afterBlock isLast, output)
    else
      let length ← readExtended lengthTable (symbol - 257)
      let distance ← readExtended distanceTable (← distances.decode)
      return (.coded isLast literals distances, copy output distance length)
  | .checksum => do
    BitReader.align
    let parts ← (List.range 4).mapM fun _ => BitReader.number 8
    if parts.foldl (fun n b => 256 * n + b) 0 = checksum output then return (.ended, output)
    else throw .corrupt
  | .ended => throw .starved

/-- Reads items as long as the bits suffice; an item that is not all there stays. Every item has at least
one bit, so there are no more items than bits. -/
def run : (fuel : Nat) → Inflate → Option Inflate
  | 0, s => some s
  | fuel + 1, s =>
    match item s.output s.phase s.bits with
    | .ok (phase, output) bits => run fuel { phase, bits, output }
    | .error .starved _ => some s
    | .error .corrupt _ => none

/-- Takes the next piece of the stream and hands out what it adds to the output; none when the stream is
corrupt. After the end of the stream nothing counts. -/
def push (s : Inflate) (bytes : List UInt8) : Option (List UInt8 × Inflate) := do
  let bits := s.bits ++ bytes.flatMap fun b => Bits.leastFirst 8 b.toNat
  let next ← run (bits.length + 1) { s with bits }
  let added := next.output.toList.drop s.output.size
  match next.phase with
  | .ended => return (added, { next with bits := [] })
  | _ => return (added, next)

end Inflate

end MovieVm.Deflate
