/-!
# `SchemaAtlas.Number.Binary64`: double-precision numbers

A double is a sign, a whole mantissa below 2^53 and a power of two, or an infinity, or not a
number. Here a decimal numeral becomes the double nearest to it, by exact arithmetic on natural
numbers; of two equally near ones, the one with the even mantissa.
-/

set_option autoImplicit false

namespace SchemaAtlas

/-- A double-precision number; the finite ones are `mantissa · 2 ^ exponent`, with a sign that
zero has too. -/
inductive Binary64
  | nan
  | infinite (negative : Bool)
  | finite (negative : Bool) (mantissa : Nat) (exponent : Int)
  deriving DecidableEq, Repr, Inhabited

namespace Binary64

/-- Holds of the two zeros. -/
def isZero : Binary64 → Bool
  | finite _ m _ => m == 0
  | _ => false

/-- `base ^ e` when the exponent is not negative, else one. -/
def powUp (base : Nat) (e : Int) : Nat := base.pow e.toNat

/-- `base ^ (-e)` when the exponent is negative, else one. -/
def powDown (base : Nat) (e : Int) : Nat := base.pow (-e).toNat

/-- The whole number nearest to `num / den`; a half goes to the even neighbour. -/
def roundHalfEven (num den : Nat) : Nat :=
  let q := num / den
  let twice := 2 * (num % den)
  if twice < den then q
  else if den < twice then q + 1
  else if q % 2 = 0 then q else q + 1

/-- The largest `e` with `2 ^ e ≤ num / den`, for positive numbers. -/
def floorLog2 (num den : Nat) : Int :=
  let e : Int := (num.log2 : Int) - (den.log2 : Int)
  if den * powUp 2 e ≤ num * powDown 2 e then e else e - 1

/-- The least exponent of a double. -/
def leastExponent : Int := -1074

/-- The greatest exponent of a double. -/
def greatestExponent : Int := 971

/-- The least mantissa of a double that is not among the smallest, two to the fifty-second. -/
def leastMantissa : Nat := Nat.pow 2 52

/-- The double nearest to the positive number `num / den`. -/
def ofRatio (negative : Bool) (num den : Nat) : Binary64 :=
  let e := max (floorLog2 num den - 52) leastExponent
  let m := roundHalfEven (num * powDown 2 e) (den * powUp 2 e)
  let (m, e) := if m = 2 * leastMantissa then (leastMantissa, e + 1) else (m, e)
  if greatestExponent < e then infinite negative else finite negative m e

/-- The number of decimal digits of a natural number. -/
def digitCount (n : Nat) : Nat := (Nat.toDigits 10 n).length

/-- The double nearest to `digits · 10 ^ scale`. Numerals far beyond either end of the range are
told by their order of magnitude. -/
def ofDecimal (negative : Bool) (digits : Nat) (scale : Int) : Binary64 :=
  if digits = 0 then finite negative 0 0
  else
    let magnitude := (digitCount digits : Int) + scale
    if 310 < magnitude then infinite negative
    else if magnitude < -330 then finite negative 0 0
    else ofRatio negative (digits * powUp 10 scale) (powDown 10 scale)

end Binary64

end SchemaAtlas
