import SchemaAtlas.Json.Value
import SchemaAtlas.Text.Hex

/-!
# `SchemaAtlas.Json.Printer`: values as text

Text is written with printable ASCII characters only: quotes, backslashes and the usual controls
have short escapes, every other character is given by its number in four hexadecimal digits, or
by two such numbers when it needs more. Values are written on one line, or with one member or
item to a line.
-/

set_option autoImplicit false

namespace SchemaAtlas.Json

open SchemaAtlas.Text

/-! ### Text -/

/-- A 16-bit unit as an escape. -/
def unitEscape (n : Nat) : List Char :=
  '\\' :: 'u' :: hexDigits 4 n

/-- A character as it stands in written text. -/
def escapeChar (c : Char) : List Char :=
  let n := c.toNat
  if c = '"' then ['\\', '"']
  else if c = '\\' then ['\\', '\\']
  else if c = '\n' then ['\\', 'n']
  else if c = '\r' then ['\\', 'r']
  else if c = '\t' then ['\\', 't']
  else if n = 8 then ['\\', 'b']
  else if n = 12 then ['\\', 'f']
  else if 32 ≤ n ∧ n < 127 then [c]
  else if n < 0x10000 then unitEscape n
  else unitEscape (0xD800 + (n - 0x10000) / 0x400) ++ unitEscape (0xDC00 + (n - 0x10000) % 0x400)

/-- A text between quotes. -/
def quote (s : String) : String :=
  String.ofList ('"' :: s.toList.flatMap escapeChar ++ ['"'])

/-- A number as it stands in written text. -/
def floatText : Binary64 → String
  | .nan => "NaN"
  | .infinite negative => Binary64.signText negative ++ "Infinity"
  | x => x.text

/-- The text of a value that holds no others. -/
def leafText : Json → String
  | null => "null"
  | bool b => if b then "true" else "false"
  | int n => toString n
  | float x => floatText x
  | string s => quote s
  | array _ => "[]"
  | object _ => "\x7b\x7d"

/-! ### Values on one line -/

mutual

/-- The value on one line. -/
def compact : Json → String
  | array items => "[" ++ ", ".intercalate (compactItems items) ++ "]"
  | object members => "\x7b" ++ ", ".intercalate (compactMembers members) ++ "\x7d"
  | null => leafText null
  | bool b => leafText (bool b)
  | int n => leafText (int n)
  | float x => leafText (float x)
  | string s => leafText (string s)

/-- The texts of the items of an array. -/
def compactItems : List Json → List String
  | [] => []
  | v :: r => compact v :: compactItems r

/-- The texts of the members of an object. -/
def compactMembers : List (String × Json) → List String
  | [] => []
  | (key, v) :: r => (quote key ++ ": " ++ compact v) :: compactMembers r

end

/-! ### Values over several lines -/

/-- A line break, and two spaces for each level. -/
def newline (level : Nat) : String :=
  String.ofList ('\n' :: List.replicate (2 * level) ' ')

mutual

/-- The value with its members and items each on a line of its own, inside of `level` others. An
object or array without any stays on one line. -/
def indentedAt (level : Nat) : Json → String
  | array (v :: r) =>
    "[" ++ newline (level + 1)
      ++ ("," ++ newline (level + 1)).intercalate
        (indentedAt (level + 1) v :: indentedItems (level + 1) r)
      ++ newline level ++ "]"
  | object ((key, v) :: r) =>
    "\x7b" ++ newline (level + 1)
      ++ ("," ++ newline (level + 1)).intercalate
        ((quote key ++ ": " ++ indentedAt (level + 1) v) :: indentedMembers (level + 1) r)
      ++ newline level ++ "\x7d"
  | array [] => leafText (array [])
  | object [] => leafText (object [])
  | null => leafText null
  | bool b => leafText (bool b)
  | int n => leafText (int n)
  | float x => leafText (float x)
  | string s => leafText (string s)

/-- The texts of the items of an array. -/
def indentedItems (level : Nat) : List Json → List String
  | [] => []
  | v :: r => indentedAt level v :: indentedItems level r

/-- The texts of the members of an object. -/
def indentedMembers (level : Nat) : List (String × Json) → List String
  | [] => []
  | (key, v) :: r => (quote key ++ ": " ++ indentedAt level v) :: indentedMembers level r

end

/-- The value with its members and items each on a line of its own. -/
def indented (v : Json) : String :=
  indentedAt 0 v

end SchemaAtlas.Json
