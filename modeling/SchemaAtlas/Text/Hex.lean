/-!
# `SchemaAtlas.Text.Hex`: hexadecimal digits

Numbers are written with small letters and read with either kind.
-/

set_option autoImplicit false

namespace SchemaAtlas.Text

/-- The value of a hexadecimal digit. -/
def hexValue? (c : Char) : Option Nat :=
  if '0' ≤ c ∧ c ≤ '9' then some (c.toNat - '0'.toNat)
  else if 'a' ≤ c ∧ c ≤ 'f' then some (c.toNat - 'a'.toNat + 10)
  else if 'A' ≤ c ∧ c ≤ 'F' then some (c.toNat - 'A'.toNat + 10)
  else none

/-- Holds of hexadecimal digits. -/
def isHex (c : Char) : Bool :=
  (hexValue? c).isSome

/-- A number in at least `width` hexadecimal digits. -/
def hexDigits (width n : Nat) : List Char :=
  let digits := Nat.toDigits 16 n
  List.replicate (width - digits.length) '0' ++ digits

end SchemaAtlas.Text
