import SchemaAtlas.Json.Printer
import SchemaAtlas.Text.Ends
import SchemaAtlas.Text.Printable

/-!
# `SchemaAtlas.Json.Plain`: values as a reader would say them

A text says itself. Other values are spelled out: `True`, `None`, numbers as their shortest
text, lists and objects with their parts between brackets; texts inside them stand between
quotes, single ones unless the text has a single quote and no double one, and with escapes for
what has no shape of its own.

Values also have a truth: empty texts, lists and objects, zeros, `false` and `null` are false.
-/

set_option autoImplicit false

namespace SchemaAtlas.Json

open SchemaAtlas.Text

/-- A character as it stands in a text between quotes. -/
def quotedChar (quote c : Char) : List Char :=
  let n := c.toNat
  if c = quote || c = '\\' then ['\\', c]
  else if c = '\n' then ['\\', 'n']
  else if c = '\r' then ['\\', 'r']
  else if c = '\t' then ['\\', 't']
  else if Text.isPrintable c then [c]
  else if n < 0x100 then '\\' :: 'x' :: hexDigits 2 n
  else if n < 0x10000 then '\\' :: 'u' :: hexDigits 4 n
  else '\\' :: 'U' :: hexDigits 8 n

/-- A text between quotes. -/
def quotedPlain (s : String) : String :=
  let cs := s.toList
  let quote := if cs.contains '\'' && !cs.contains '"' then '"' else '\''
  String.ofList (quote :: cs.flatMap (quotedChar quote) ++ [quote])

mutual

/-- A value as it stands inside of others. -/
def spelled : Json → String
  | null => "None"
  | bool b => if b then "True" else "False"
  | int n => toString n
  | float x => x.text
  | string s => quotedPlain s
  | array items => "[" ++ ", ".intercalate (spelledItems items) ++ "]"
  | object members => "\x7b" ++ ", ".intercalate (spelledMembers members) ++ "\x7d"

/-- The items of a list. -/
def spelledItems : List Json → List String
  | [] => []
  | v :: r => spelled v :: spelledItems r

/-- The members of an object. -/
def spelledMembers : List (String × Json) → List String
  | [] => []
  | (key, v) :: r => (quotedPlain key ++ ": " ++ spelled v) :: spelledMembers r

end

/-- A value as a reader would say it. -/
def plain : Json → String
  | string s => s
  | v => spelled v

/-- The truth of a value. -/
def isTrue : Json → Bool
  | null => false
  | bool b => b
  | int n => n != 0
  | float x => !x.isZero
  | string s => s != ""
  | array items => !items.isEmpty
  | object members => !members.isEmpty

end SchemaAtlas.Json
