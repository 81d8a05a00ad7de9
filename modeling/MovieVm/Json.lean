import MovieVm.Text.Hex

/-!
# JSON

A strict reader. It keeps of a number only what a count needs, and of a string whether its escapes form
text at all: two escaped surrogates make one character, a lone one makes none.
-/

namespace MovieVm

inductive Json where
  | null
  | bool (b : Bool)
  | number (natural : Option Nat)
  | string (text : Option String)
  | array (items : List Json)
  | object (fields : List (Option String × Json))
deriving Inhabited

namespace Json

def isBlank (c : Char) : Bool :=
  c = ' ' || c = '\n' || c = '\t' || c = '\r'

def skipBlanks (s : List Char) : List Char :=
  s.dropWhile isBlank

/-! ## Strings -/

def simpleEscape? : Char → Option Char
  | '"' => some '"'
  | '\\' => some '\\'
  | '/' => some '/'
  | 'b' => some '\x08'
  | 'f' => some '\x0c'
  | 'n' => some '\n'
  | 'r' => some '\r'
  | 't' => some '\t'
  | _ => none

/-- The UTF-16 units of a string up to its closing quote, and what follows it. -/
def readUnits? : List Char → Option (List Nat × List Char)
  | [] => none
  | '"' :: rest => some ([], rest)
  | '\\' :: 'u' :: a :: b :: c :: d :: rest => do
    let unit ← Text.readHex? [a, b, c, d]
    let (units, rest) ← readUnits? rest
    return (unit :: units, rest)
  | '\\' :: c :: rest => do
    let plain ← simpleEscape? c
    let (units, rest) ← readUnits? rest
    return (plain.toNat :: units, rest)
  | c :: rest =>
    if c = '\\' || c.toNat < 0x20 then none
    else do
      let (units, rest) ← readUnits? rest
      return (if c.toNat < 0x10000 then c.toNat :: units
        else (0xd800 + (c.toNat - 0x10000) / 0x400) :: (0xdc00 + (c.toNat - 0x10000) % 0x400) :: units,
        rest)

def isHighSurrogate (unit : Nat) : Bool := 0xd800 ≤ unit && unit < 0xdc00
def isLowSurrogate (unit : Nat) : Bool := 0xdc00 ≤ unit && unit < 0xe000

/-- The characters that UTF-16 units stand for, none when a surrogate is alone. -/
def ofUnits? : List Nat → Option (List Char)
  | [] => some []
  | unit :: rest =>
    if isLowSurrogate unit then none
    else if isHighSurrogate unit then
      match rest with
      | low :: rest =>
        if isLowSurrogate low then
          (ofUnits? rest).map
            (Char.ofNat (0x10000 + (unit - 0xd800) * 0x400 + (low - 0xdc00)) :: ·)
        else none
      | [] => none
    else (ofUnits? rest).map (Char.ofNat unit :: ·)

/-- A string after its opening quote. -/
def readString? (s : List Char) : Option (Option String × List Char) :=
  (readUnits? s).map fun (units, rest) => ((ofUnits? units).map String.ofList, rest)

/-! ## Numbers -/

/-- One or more digits. -/
def skipDigits? (s : List Char) : Option (List Char) :=
  match s with
  | c :: rest => if c.isDigit then some (rest.dropWhile Char.isDigit) else none
  | [] => none

def skipFraction? : List Char → Option (List Char)
  | '.' :: rest => skipDigits? rest
  | s => some s

def skipExponent? : List Char → Option (List Char)
  | c :: rest =>
    if c = 'e' || c = 'E' then
      match rest with
      | '+' :: digits | '-' :: digits => skipDigits? digits
      | digits => skipDigits? digits
    else some (c :: rest)
  | [] => some []

/-- What follows the whole part; it has no leading zero. -/
def skipWhole? : List Char → Option (List Char)
  | '0' :: rest => if rest.head?.any Char.isDigit then none else some rest
  | s => skipDigits? s

/-- A number; its value is kept when it is written as a natural number of 64 bits. -/
def readNumber? (s : List Char) : Option (Option Nat × List Char) := do
  let body := match s with | '-' :: rest => rest | _ => s
  let afterWhole ← skipWhole? body
  let rest ← skipExponent? (← skipFraction? afterWhole)
  let isNatural := s.head? ≠ some '-' && rest.length = afterWhole.length
  let digits := body.take (body.length - afterWhole.length)
  let value := digits.foldl (fun n c => 10 * n + (c.toNat - 0x30)) 0
  return (if isNatural && value < 0x10000000000000000 then some value else none, rest)

/-! ## Values -/

/-- What follows a literal word. -/
def afterWord? : (word s : List Char) → Option (List Char)
  | [], s => some s
  | _ :: _, [] => none
  | w :: word, c :: s => if w = c then afterWord? word s else none

mutual

/-- A value at the start of the text, and what follows it. -/
def readValue? : (fuel : Nat) → List Char → Option (Json × List Char)
  | 0, _ => none
  | fuel + 1, s =>
    match skipBlanks s with
    | '"' :: rest => (readString? rest).map fun (text, rest) => (.string text, rest)
    | '[' :: rest =>
      match skipBlanks rest with
      | ']' :: rest => some (.array [], rest)
      | rest => (readItems? fuel rest).map fun (items, rest) => (.array items, rest)
    | c :: rest =>
      if c = '\x7b' then
        match skipBlanks rest with
        | [] => none
        | d :: more =>
          if d = '\x7d' then some (.object [], more)
          else (readFields? fuel (d :: more)).map fun (fields, rest) => (.object fields, rest)
      else if c = 'n' then (afterWord? "ull".toList rest).map (Json.null, ·)
      else if c = 't' then (afterWord? "rue".toList rest).map (Json.bool true, ·)
      else if c = 'f' then (afterWord? "alse".toList rest).map (Json.bool false, ·)
      else (readNumber? (c :: rest)).map fun (n, rest) => (.number n, rest)
    | [] => none

/-- The items of an array up to its closing bracket. -/
def readItems? : (fuel : Nat) → List Char → Option (List Json × List Char)
  | 0, _ => none
  | fuel + 1, s => do
    let (item, rest) ← readValue? fuel s
    match skipBlanks rest with
    | ',' :: rest => do
      let (items, rest) ← readItems? fuel rest
      return (item :: items, rest)
    | ']' :: rest => return ([item], rest)
    | _ => none

/-- The fields of an object up to its closing brace. -/
def readFields? : (fuel : Nat) → List Char → Option (List (Option String × Json) × List Char)
  | 0, _ => none
  | fuel + 1, s =>
    match skipBlanks s with
    | '"' :: rest => do
      let (key, rest) ← readString? rest
      match skipBlanks rest with
      | ':' :: rest => do
        let (value, rest) ← readValue? fuel rest
        match skipBlanks rest with
        | ',' :: rest => do
          let (fields, rest) ← readFields? fuel rest
          return ((key, value) :: fields, rest)
        | c :: rest => if c = '\x7d' then return ([(key, value)], rest) else none
        | [] => none
      | _ => none
    | _ => none

end

/-- The value of a whole text; every nested value takes a character at least. -/
def read? (s : String) : Option Json :=
  let chars := s.toList
  match readValue? (2 * chars.length + 1) chars with
  | some (value, rest) => if (skipBlanks rest).isEmpty then some value else none
  | none => none

end Json

end MovieVm
