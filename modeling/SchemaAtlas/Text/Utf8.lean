/-!
# `SchemaAtlas.Text.Utf8`: text as bytes and back

Writing is the standard encoding of each character in one to four bytes. Reading accepts any
bytes: each maximal run that starts like a character but does not complete one becomes a single
replacement character, and so does each byte that starts none. Reading what was written gives
the text back.
-/

set_option autoImplicit false

namespace SchemaAtlas.Text.Utf8

/-- The bytes of one character. -/
def encodeChar (c : Char) : List UInt8 :=
  let n := c.toNat
  let tail (unit : Nat) : UInt8 := UInt8.ofNat (0x80 + n / unit % 0x40)
  if n < 0x80 then [UInt8.ofNat n]
  else if n < 0x800 then [UInt8.ofNat (0xC0 + n / 0x40), tail 1]
  else if n < 0x10000 then [UInt8.ofNat (0xE0 + n / 0x1000), tail 0x40, tail 1]
  else [UInt8.ofNat (0xF0 + n / 0x40000), tail 0x1000, tail 0x40, tail 1]

/-- The bytes of a text. -/
def encode (s : String) : List UInt8 :=
  s.toList.flatMap encodeChar

/-- A character that was begun: its bits so far, how many bytes it still needs, and the range in
which the next of them must lie. -/
structure Pending where
  bits : Nat
  missing : Nat
  low : Nat
  high : Nat

/-- Stands for bytes that are no character. -/
def replacement : Char := '\ufffd'

/-- What a byte yields at the start of a character: finished characters, and the character
begun. The narrower ranges for the second byte rule out overlong forms, surrogates and numbers
beyond the last code point. -/
def start (b : Nat) : List Char × Option Pending :=
  if b < 0x80 then ([Char.ofNat b], none)
  else if b < 0xC2 then ([replacement], none)
  else if b < 0xE0 then ([], some ⟨b - 0xC0, 1, 0x80, 0xBF⟩)
  else if b < 0xF0 then
    ([], some ⟨b - 0xE0, 2, if b = 0xE0 then 0xA0 else 0x80, if b = 0xED then 0x9F else 0xBF⟩)
  else if b < 0xF5 then
    ([], some ⟨b - 0xF0, 3, if b = 0xF0 then 0x90 else 0x80, if b = 0xF4 then 0x8F else 0xBF⟩)
  else ([replacement], none)

/-- What a byte yields after a possibly begun character. A byte that does not continue it is
read again as the start of the next. -/
def step : Option Pending → Nat → List Char × Option Pending
  | none, b => start b
  | some p, b =>
    if p.low ≤ b ∧ b ≤ p.high then
      let bits := p.bits * 64 + (b - 0x80)
      if p.missing = 1 then ([Char.ofNat bits], none)
      else ([], some ⟨bits, p.missing - 1, 0x80, 0xBF⟩)
    else (replacement :: (start b).1, (start b).2)

/-- Reads on from a possibly begun character. -/
def decodeFrom : Option Pending → List UInt8 → List Char
  | pending, [] => if pending.isSome then [replacement] else []
  | pending, b :: r => (step pending b.toNat).1 ++ decodeFrom (step pending b.toNat).2 r

/-- The text of any bytes. -/
def decode (bytes : List UInt8) : String :=
  String.ofList (decodeFrom none bytes)

end SchemaAtlas.Text.Utf8
