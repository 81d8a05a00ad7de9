import MovieVm.Text.Blank
import MovieVm.Text.Hex

/-!
# Quoted text

A quoted text stands between two quotes on one line. Inside, a backslash starts an escape: the quote, the
backslash, `n`, `r`, `t`, or `u` with the code point in hexadecimal between braces.
-/

namespace MovieVm.Text.Quoted

/-! ## Writing -/

/-- Control characters without a short escape are written by their code point. -/
def encodeChar (c : Char) : List Char :=
  if c = '"' then ['\\', '"']
  else if c = '\\' then ['\\', '\\']
  else if c = '\n' then ['\\', 'n']
  else if c = '\r' then ['\\', 'r']
  else if c = '\t' then ['\\', 't']
  else if isControl c then ['\\', 'u', '\x7b'] ++ (hex c.toNat).toList ++ ['\x7d']
  else [c]

def encode (s : List Char) : List Char :=
  '"' :: s.flatMap encodeChar ++ ['"']

/-! ## Reading -/

inductive Fault where
  | notQuoted
  | bareQuote
  | badCodePoint
  | badEscape (c : Option Char)
deriving DecidableEq

/-- Where the reader stands: between characters, after a backslash, or inside a code point whose text so
far is held backwards. -/
inductive Mode where
  | plain
  | escaped
  | codePoint (text : List Char)

def escape? : Char → Option Char
  | '"' => some '"'
  | '\\' => some '\\'
  | 'n' => some '\n'
  | 'r' => some '\r'
  | 't' => some '\t'
  | _ => none

/-- The character whose code point is written after an opening brace; a plus may stand before it. -/
def readCodePoint? : List Char → Option Char
  | brace :: digits =>
    if brace = '\x7b' then
      match readHex? (match digits with | '+' :: rest => rest | _ => digits) with
      | some n => if n.isValidChar then some (Char.ofNat n) else none
      | none => none
    else none
  | [] => none

/-- A code point may lack its closing brace at the end of the text. -/
def decodeFrom : Mode → List Char → Except Fault (List Char)
  | .plain, [] => .ok []
  | .escaped, [] => .error (.badEscape none)
  | .codePoint text, [] =>
    match readCodePoint? text.reverse with
    | some c => .ok [c]
    | none => .error .badCodePoint
  | .plain, c :: rest =>
    if c = '"' then .error .bareQuote
    else if c = '\\' then decodeFrom .escaped rest
    else (decodeFrom .plain rest).map (c :: ·)
  | .escaped, c :: rest =>
    if c = 'u' then decodeFrom (.codePoint []) rest
    else
      match escape? c with
      | some plain => (decodeFrom .plain rest).map (plain :: ·)
      | none => .error (.badEscape (some c))
  | .codePoint text, c :: rest =>
    if c = '\x7d' then
      match readCodePoint? text.reverse with
      | some decoded => (decodeFrom .plain rest).map (decoded :: ·)
      | none => .error .badCodePoint
    else decodeFrom (.codePoint (c :: text)) rest

/-- What stands between the two quotes. -/
def inner? : List Char → Option (List Char)
  | '"' :: rest => if rest.getLast? = some '"' then some rest.dropLast else none
  | _ => none

def decode (s : List Char) : Except Fault (List Char) :=
  match inner? s with
  | some inner => decodeFrom .plain inner
  | none => .error .notQuoted

end MovieVm.Text.Quoted
