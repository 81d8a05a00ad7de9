/-!
# UTF-8

Reading bytes as text, strictly or with U+FFFD for each maximal part that is not well formed.
-/

namespace MovieVm.Text

def replacementChar : Char := '\ufffd'

/-- The text that the bytes encode, none when they are not well-formed UTF-8. -/
def ofUtf8? (bytes : List UInt8) : Option String :=
  String.fromUTF8? (ByteArray.mk bytes.toArray)

def toUtf8 (s : String) : List UInt8 :=
  s.toUTF8.toList

/-- What a lead byte promises: the number of bytes that follow, the range of the first of them, and
the value bits of the lead byte. -/
structure Lead where
  follow : Nat
  low : UInt8
  high : UInt8
  value : Nat

/-- No overlong forms, no surrogates and nothing above U+10FFFF: the range of the second byte says so. -/
def Lead.ofByte? (b : UInt8) : Option Lead :=
  if b < 0x80 then some ⟨0, 0x80, 0xbf, b.toNat⟩
  else if b < 0xc2 then none
  else if b < 0xe0 then some ⟨1, 0x80, 0xbf, b.toNat - 0xc0⟩
  else if b = 0xe0 then some ⟨2, 0xa0, 0xbf, 0⟩
  else if b = 0xed then some ⟨2, 0x80, 0x9f, 0x0d⟩
  else if b < 0xf0 then some ⟨2, 0x80, 0xbf, b.toNat - 0xe0⟩
  else if b = 0xf0 then some ⟨3, 0x90, 0xbf, 0⟩
  else if b < 0xf4 then some ⟨3, 0x80, 0xbf, b.toNat - 0xf0⟩
  else if b = 0xf4 then some ⟨3, 0x80, 0x8f, 4⟩
  else none

/-- Whether a byte continues the character that a lead byte began. -/
def Lead.takes (lead : Lead) (b : UInt8) : Bool :=
  lead.low ≤ b && b ≤ lead.high

/-- Reads the bytes that follow a lead byte. `pending` is the character read so far: its open
continuation bytes and its value. A byte that does not fit ends the character as a replacement and is
read again as a lead byte. -/
def decodeLossy (pending : Option Lead) : List UInt8 → List Char
  | [] => if pending.isSome then [replacementChar] else []
  | b :: rest =>
    match pending.filter (·.takes b) with
    | some lead =>
      let value := lead.value * 64 + (b.toNat - 0x80)
      if lead.follow = 1 then Char.ofNat value :: decodeLossy none rest
      else decodeLossy (some ⟨lead.follow - 1, 0x80, 0xbf, value⟩) rest
    | none =>
      (if pending.isSome then [replacementChar] else []) ++
        match Lead.ofByte? b with
        | none => replacementChar :: decodeLossy none rest
        | some lead =>
          if lead.follow = 0 then Char.ofNat lead.value :: decodeLossy none rest
          else decodeLossy (some lead) rest

def ofUtf8Lossy (bytes : List UInt8) : String :=
  String.ofList (decodeLossy none bytes)

end MovieVm.Text
