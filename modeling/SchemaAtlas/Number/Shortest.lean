import SchemaAtlas.Number.Binary64

/-!
# `SchemaAtlas.Number.Shortest`: the fewest digits that read back

A double is written with the fewest significant digits that still read back as the same double,
and of those with the digits nearest to it. The numbers that read back as a double form an
interval around it; its ends belong to it when the mantissa is even. On each decimal grid only
the two neighbours of the double need to be tried, because if any point of the grid lies in the
interval, one of them does.

From one ten-thousandth up to ten to the sixteenth the point is put in its place, otherwise an
exponent of at least two digits follows.
-/

set_option autoImplicit false

namespace SchemaAtlas.Binary64

/-- Digits and the place of the point: `digits · 10 ^ (point - number of digits)`. -/
structure Digits where
  digits : Nat
  point : Int
  deriving DecidableEq, Repr

/-- The number `p` with `10 ^ (p - 1) ≤ num / den < 10 ^ p`, for positive numbers. -/
def decimalPoint (num den : Nat) : Int :=
  if den ≤ num then digitCount (num / den)
  else
    let l := digitCount (den / num)
    if den ≤ num * Nat.pow 10 (l - 1) then 2 - (l : Int) else 1 - (l : Int)

/-- The point nearest to `num / den` on the grid of `10 ^ scale`, if it lies between `low / den`
and `high / den`; `closed` tells whether the ends count. -/
def nearestOnGrid? (closed : Bool) (low num high den : Nat) (scale : Int) : Option Nat :=
  let unit := den * powUp 10 scale
  let lift (n : Nat) := n * powDown 10 scale
  let below := lift num / unit
  let inside (k : Nat) : Bool :=
    if closed then lift low ≤ k * unit && k * unit ≤ lift high
    else lift low < k * unit && k * unit < lift high
  let twice := 2 * (lift num % unit)
  let first := if twice < unit || (twice == unit && below % 2 == 0) then below else below + 1
  let second := if first = below then below + 1 else below
  if first ≠ 0 && inside first then some first
  else if second ≠ 0 && inside second then some second
  else none

/-- The digits without their trailing zeros; at most `fuel` zeros are taken off. -/
def dropZeros : Nat → Nat → Nat
  | 0, n => n
  | fuel + 1, n => if n % 10 = 0 then dropZeros fuel (n / 10) else n

/-- The fewest digits that read back as the positive double `m · 2 ^ e`. -/
def shortestDigits (m : Nat) (e : Int) : Digits :=
  -- The neighbours are a whole unit away, but below a power of two only half a unit.
  let half := m = leastMantissa && leastExponent < e
  let den := 4 * powDown 2 e
  let unit := powUp 2 e
  let num := 4 * m * unit
  let low := num - (if half then 1 else 2) * unit
  let high := num + 2 * unit
  let closed := m % 2 == 0
  let point := decimalPoint num den
  let scales := (List.range 17).map fun (k : Nat) => point - 1 - (k : Int)
  match scales.findSome? fun scale =>
      (nearestOnGrid? closed low num high den scale).map fun d => (d, scale) with
  | some (d, scale) =>
    let kept := dropZeros 20 d
    ⟨kept, scale + digitCount d⟩
  | none => ⟨0, 1⟩

/-- The text of a sign. -/
def signText (negative : Bool) : String := if negative then "-" else ""

/-- Digits with the point in its place, or with an exponent. -/
def Digits.text (d : Digits) : String :=
  let cs := Nat.toDigits 10 d.digits
  let n := cs.length
  let zeros (k : Nat) := List.replicate k '0'
  if -4 < d.point && d.point ≤ 16 then
    if d.point ≤ 0 then "0." ++ String.ofList (zeros (-d.point).toNat ++ cs)
    else
      let whole := d.point.toNat
      if n ≤ whole then String.ofList (cs ++ zeros (whole - n)) ++ ".0"
      else String.ofList (cs.take whole) ++ "." ++ String.ofList (cs.drop whole)
  else
    let exponent := d.point - 1
    let size := Nat.toDigits 10 exponent.natAbs
    let padded := if size.length < 2 then '0' :: size else size
    let fraction := if n ≤ 1 then "" else "." ++ String.ofList (cs.drop 1)
    String.ofList (cs.take 1) ++ fraction ++ "e" ++ (if exponent < 0 then "-" else "+")
      ++ String.ofList padded

/-- The text of a double: the fewest digits that read back. -/
def text : Binary64 → String
  | nan => "nan"
  | infinite negative => signText negative ++ "inf"
  | finite negative m e =>
    signText negative ++ (if m = 0 then "0.0" else (shortestDigits m e).text)

end SchemaAtlas.Binary64
