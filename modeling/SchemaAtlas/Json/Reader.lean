import SchemaAtlas.Catalog
import SchemaAtlas.Json.Value
import SchemaAtlas.Scan.Pattern
import SchemaAtlas.Text.Encoding
import SchemaAtlas.Text.Hex

/-!
# `SchemaAtlas.Json.Reader`: values from text

The format's own grammar, with three words more: `NaN`, `Infinity` and `-Infinity`. Blank are
the space, the tab, the line feed and the carriage return. A key that stands twice in an object
keeps its first place and its last value. A whole number of more than 4300 digits is refused
with a fault of its own, and so is an array or object that lies in too many others.
-/

set_option autoImplicit false

namespace SchemaAtlas.Json

open SchemaAtlas.Scan SchemaAtlas.Text

/-- Why a text is not read. -/
inductive Fault
  /-- The text does not follow the grammar. -/
  | malformed
  /-- A whole number has more digits than are converted. -/
  | tooManyDigits (count : Nat)
  /-- An array or object lies in too many others. -/
  | tooDeep
  deriving DecidableEq, Repr

/-- A value and the rest of the text, or the reason why there is none. -/
abbrev Reading (α : Type) := Except Fault (α × List Char)

/-- The most digits of a whole number that are converted. -/
def maxDigits : Nat := 4300

/-- The most arrays and objects, each in the one before, that are gone through. -/
def maxDepth : Nat := 989

/-- The four characters that may stand between tokens. -/
def isSpace (c : Char) : Bool :=
  c == ' ' || c == '\t' || c == '\n' || c == '\r'

/-- The text without the space at its beginning. -/
def skipSpace (cs : List Char) : List Char :=
  cs.dropWhile isSpace

/-! ### Text -/

/-- A 16-bit unit of four hexadecimal digits. -/
def unit? (a b c d : Char) : Option Nat := do
  return (((← hexValue? a) * 16 + (← hexValue? b)) * 16 + (← hexValue? c)) * 16 + (← hexValue? d)

/-- What a backslash and the letter after it stand for. -/
def shortEscape? (c : Char) : Option Char :=
  if c = '"' || c = '\\' || c = '/' then some c
  else if c = 'b' then some '\x08'
  else if c = 'f' then some '\x0c'
  else if c = 'n' then some '\n'
  else if c = 'r' then some '\r'
  else if c = 't' then some '\t'
  else none

/-- Text up to its closing quote; `before` is the text so far, reversed, and `high` a unit just
read that may begin a pair. -/
def textFrom (before : List Char) (high : Option Nat) : List Char → Option (List Char × List Char)
  | [] => none
  | '\\' :: 'u' :: a :: b :: c :: d :: r =>
    match unit? a b c d with
    | none => none
    | some n =>
      match high with
      | some h =>
        if isLowUnit n then textFrom (pairChar h n :: before) none r
        else if isHighUnit n then textFrom (unitChar h :: before) (some n) r
        else textFrom (unitChar n :: unitChar h :: before) none r
      | none =>
        if isHighUnit n then textFrom before (some n) r
          else textFrom (unitChar n :: before) none r
  | '\\' :: c :: r =>
    match shortEscape? c with
    | none => none
    | some x => textFrom (x :: flush) none r
  | c :: r =>
    if c = '"' then some (flush.reverse, r)
    else if c = '\\' || c.toNat < 32 then none
    else textFrom (c :: flush) none r
where
  /-- The text so far, with a unit that begins no pair. -/
  flush : List Char :=
    match high with
    | some h => unitChar h :: before
    | none => before

/-- A text behind its opening quote. -/
def text (cs : List Char) : Reading String :=
  match textFrom [] none cs with
  | some (body, r) => .ok (String.ofList body, r)
  | none => .error .malformed

/-! ### Numbers -/

/-- The decimal digits at the beginning of a text, and the rest. -/
def digits (cs : List Char) : List Char × List Char :=
  cs.span Char.isDigit

/-- The number that decimal digits stand for. -/
def natOfDigits (ds : List Char) : Nat :=
  ds.foldl (fun n c => n * 10 + (c.toNat - '0'.toNat)) 0

/-- The digits behind a point, if there are any. -/
def fraction (cs : List Char) : Option (List Char × List Char) :=
  match cs with
  | '.' :: r =>
    match digits r with
    | ([], _) => none
    | found => some found
  | _ => none

/-- The power of ten behind an `e`, if there is one. -/
def exponent (cs : List Char) : Option (Int × List Char) :=
  match cs with
  | e :: r =>
    if e = 'e' || e = 'E' then
      let (negative, r) := match r with
        | '-' :: r => (true, r)
        | '+' :: r => (false, r)
        | r => (false, r)
      match digits r with
      | ([], _) => none
      | (ds, r) => some (if negative then -(natOfDigits ds : Int) else natOfDigits ds, r)
    else none
  | [] => none

/-- The digits before the point: a zero alone, or digits that do not begin with one. -/
def wholePart (cs : List Char) : Option (List Char × List Char) :=
  match cs with
  | '0' :: r => some (['0'], r)
  | _ =>
    match digits cs with
    | ([], _) => none
    | found => some found

/-- A number behind its sign. -/
def number (negative : Bool) (cs : List Char) : Reading Json :=
  match wholePart cs with
  | none => .error .malformed
  | some (whole, r) =>
    let found := fraction r
    let (places, r) := found.getD ([], r)
    let power := exponent r
    let (scale, r) := power.getD (0, r)
    if found.isNone && power.isNone then
      if maxDigits < whole.length then .error (.tooManyDigits whole.length)
      else
        let n : Int := natOfDigits whole
        .ok (.int (if negative then -n else n), r)
    else
      .ok (.float (.ofDecimal negative (natOfDigits (whole ++ places)) (scale - places.length)),
        r)

/-! ### Values -/

/-- A value that is one of the format's words, or a number. -/
def leaf (cs : List Char) : Reading Json :=
  match literal "null" cs with
  | some r => .ok (.null, r)
  | none => match literal "true" cs with
  | some r => .ok (.bool true, r)
  | none => match literal "false" cs with
  | some r => .ok (.bool false, r)
  | none => match literal "NaN" cs with
  | some r => .ok (.float .nan, r)
  | none => match literal "Infinity" cs with
  | some r => .ok (.float (.infinite false), r)
  | none => match literal "-Infinity" cs with
  | some r => .ok (.float (.infinite true), r)
  | none => match cs with
  | '-' :: r => number true r
  | _ => number false cs

mutual

/-- A value at the very beginning of a text, in `depth` arrays and objects. No more than `fuel`
steps into arrays and objects and along them are made. -/
def value : (fuel depth : Nat) → List Char → Reading Json
  | 0, _, _ => .error .malformed
  | fuel + 1, depth, cs =>
    match cs with
    | '"' :: r => (text r).map fun m => (.string m.1, m.2)
    | '[' :: r =>
      if maxDepth ≤ depth then .error .tooDeep
      else match skipSpace r with
        | ']' :: r => .ok (.array [], r)
        | r => items fuel (depth + 1) [] r
    | '\x7b' :: r =>
      if maxDepth ≤ depth then .error .tooDeep
      else match skipSpace r with
        | '\x7d' :: r => .ok (.object [], r)
        | r => members fuel (depth + 1) [] r
    | cs => leaf cs

/-- The items of an array from one of them on; `before` holds those read, reversed. -/
def items : (fuel depth : Nat) → (before : List Json) → List Char → Reading Json
  | 0, _, _, _ => .error .malformed
  | fuel + 1, depth, before, cs =>
    match value fuel depth cs with
    | .error fault => .error fault
    | .ok (v, r) =>
      match skipSpace r with
      | ',' :: r => items fuel depth (v :: before) (skipSpace r)
      | ']' :: r => .ok (.array (v :: before).reverse, r)
      | _ => .error .malformed

/-- The members of an object from one of them on; `before` holds those read. -/
def members : (fuel depth : Nat) → (before : List (String × Json)) → List Char → Reading Json
  | 0, _, _, _ => .error .malformed
  | fuel + 1, depth, before, cs =>
    match cs with
    | '"' :: r =>
      match text r with
      | .error fault => .error fault
      | .ok (key, r) =>
        match skipSpace r with
        | ':' :: r =>
          match value fuel depth (skipSpace r) with
          | .error fault => .error fault
          | .ok (v, r) =>
            let found := Catalog.setEntry key v before
            match skipSpace r with
            | ',' :: r => members fuel depth found (skipSpace r)
            | '\x7d' :: r => .ok (.object found, r)
            | _ => .error .malformed
        | _ => .error .malformed
    | _ => .error .malformed

end

/-- The value at the very beginning of a text, and the rest of the text. Every step into an
array or object and every step along one takes a character, so the fuel never runs out. -/
def readValue (cs : List Char) : Reading Json :=
  value (2 * cs.length + 2) 0 cs

/-- The value that a text holds, with nothing but space around it. -/
def read (cs : List Char) : Except Fault Json :=
  match readValue (skipSpace cs) with
  | .error fault => .error fault
  | .ok (v, r) => if (skipSpace r).isEmpty then .ok v else .error .malformed

/-- The value that a text holds. -/
def parse (s : String) : Except Fault Json :=
  read s.toList

/-- The value that bytes hold, in the encoding that their null bytes tell. -/
def ofBytes (bytes : List UInt8) : Except Fault Json :=
  match (Encoding.ofBytes bytes).decode? bytes with
  | some cs => read cs
  | none => .error .malformed

end SchemaAtlas.Json
