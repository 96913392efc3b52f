import SchemaAtlas.Text.Lines

/-!
# `SchemaAtlas.Disk.Place`: places on a disk

A place is written as names between slashes. Empty names and single dots say nothing and are
passed over; a slash in front starts the place at the top of the whole system instead of the
current folder.
-/

set_option autoImplicit false

namespace SchemaAtlas

/-- A place: what it starts from, which is the current folder if `root` is empty, and the names
that lead there. -/
structure Place where
  root : String := ""
  names : List String
  deriving DecidableEq, Repr, Inhabited

namespace Place

open SchemaAtlas.Text

/-- The names between the slashes of a text that say something. -/
def namesIn (text : String) : List String :=
  (cut '/' text).filter fun name => name != "" && name != "."

/-- The slashes that a text starts with, as far as they count: one, or exactly two. -/
def rootOf : List Char → String
  | '/' :: '/' :: '/' :: _ => "/"
  | '/' :: '/' :: _ => "//"
  | '/' :: _ => "/"
  | _ => ""

/-- The place that a text tells. -/
def ofText (text : String) : Place where
  root := rootOf text.toList
  names := namesIn text

/-- The place as text. -/
def text (p : Place) : String :=
  if p.root = "" ∧ p.names = [] then "." else p.root ++ "/".intercalate p.names

/-- The place that names lead to from here. -/
def below (p : Place) (names : List String) : Place :=
  { p with names := p.names ++ names }

/-- The folder that a place lies in. -/
def parent (p : Place) : Place :=
  { p with names := p.names.dropLast }

/-- The place with the home folder in the place of a tilde in front; none if it is the tilde of
a named user. -/
def expandHome? (home : String) (p : Place) : Option Place :=
  match p.root, p.names with
  | "", first :: rest =>
    if first = "~" then some ((ofText home).below rest)
    else if first.toList.head? == some '~' then none
    else some p
  | _, _ => some p

end Place

end SchemaAtlas
