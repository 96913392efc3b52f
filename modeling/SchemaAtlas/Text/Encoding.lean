import SchemaAtlas.Text.Utf8

/-!
# `SchemaAtlas.Text.Encoding`: text in units of one, two or four bytes

A text that begins with two ASCII characters shows by its null bytes which of the standard
encodings it has and in which order the bytes of a unit stand. In units of two bytes, a
character beyond the first 65536 is a pair of units; half of a pair alone stands for no
character.
-/

set_option autoImplicit false

namespace SchemaAtlas.Text

/-! ### Units of two bytes -/

/-- Holds of the units that begin a pair. -/
def isHighUnit (n : Nat) : Bool := 0xD800 ≤ n && n < 0xDC00

/-- Holds of the units that end a pair. -/
def isLowUnit (n : Nat) : Bool := 0xDC00 ≤ n && n < 0xE000

/-- The character of one unit; half of a pair alone stands for no character. -/
def unitChar (n : Nat) : Char :=
  if isHighUnit n || isLowUnit n then Utf8.replacement else Char.ofNat n

/-- The character of a pair of units. -/
def pairChar (high low : Nat) : Char :=
  Char.ofNat (0x10000 + (high - 0xD800) * 0x400 + (low - 0xDC00))

/-- The characters of some units; `high` is a unit just read that may begin a pair. -/
def unitChars : (high : Option Nat) → List Nat → List Char
  | none, [] => []
  | some h, [] => [unitChar h]
  | none, n :: r => if isHighUnit n then unitChars (some n) r else unitChar n :: unitChars none r
  | some h, n :: r =>
    if isLowUnit n then pairChar h n :: unitChars none r
    else if isHighUnit n then unitChar h :: unitChars (some n) r
    else unitChar h :: unitChar n :: unitChars none r

/-! ### Encodings -/

/-- How characters are laid out in bytes; in units of several bytes, `big` tells that the first
byte counts most. -/
inductive Encoding
  | utf8
  | utf16 (big : Bool)
  | utf32 (big : Bool)
  deriving DecidableEq, Repr

namespace Encoding

/-- The encoding of a text that begins with ASCII characters, told by its null bytes. -/
def ofBytes : List UInt8 → Encoding
  | [a, b] => if a = 0 then .utf16 true else if b = 0 then .utf16 false else .utf8
  | a :: b :: c :: d :: _ =>
    if a = 0 then (if b = 0 then .utf32 true else .utf16 true)
    else if b = 0 then (if c = 0 && d = 0 then .utf32 false else .utf16 false)
    else .utf8
  | _ => .utf8

/-- The number that some bytes make up. -/
def numberOf (big : Bool) (bytes : List UInt8) : Nat :=
  (if big then bytes else bytes.reverse).foldl (fun n b => n * 256 + b.toNat) 0

/-- The units of two bytes each, if the bytes come out even. -/
def pairs? (big : Bool) : List UInt8 → Option (List Nat)
  | [] => some []
  | a :: b :: r => (pairs? big r).map (numberOf big [a, b] :: ·)
  | _ => none

/-- The units of four bytes each, if the bytes come out even. -/
def quadruples? (big : Bool) : List UInt8 → Option (List Nat)
  | [] => some []
  | a :: b :: c :: d :: r => (quadruples? big r).map (numberOf big [a, b, c, d] :: ·)
  | _ => none

/-- The bytes without the mark of their order in front. -/
def withoutMark : List UInt8 → List UInt8
  | 0xEF :: 0xBB :: 0xBF :: r => r
  | bytes => bytes

/-- The characters that some bytes stand for, if there are such. -/
def decode? : Encoding → List UInt8 → Option (List Char)
  | utf8, bytes =>
    let text := Utf8.decode bytes
    if Utf8.encode text = bytes then some (Utf8.decodeFrom none (withoutMark bytes)) else none
  | utf16 big, bytes => (pairs? big bytes).map (unitChars none)
  | utf32 big, bytes => do
    let units ← quadruples? big bytes
    if units.all fun n => n < 0x110000 then some (units.map unitChar) else none

end Encoding

end SchemaAtlas.Text
