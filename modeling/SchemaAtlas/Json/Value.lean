import SchemaAtlas.Number.Shortest

/-!
# `SchemaAtlas.Json.Value`: values of the data format

The members of an object stand in the order in which they were written. Whole numbers are exact;
numbers with a point or an exponent are doubles.
-/

set_option autoImplicit false

namespace SchemaAtlas

/-- A value of the data format. -/
inductive Json
  | null
  | bool (b : Bool)
  | int (n : Int)
  | float (x : Binary64)
  | string (s : String)
  | array (items : List Json)
  | object (members : List (String × Json))
  deriving Inhabited, BEq, Repr

namespace Json

/-- The member of an object under a key. -/
def member? (key : String) : Json → Option Json
  | object members => members.lookup key
  | _ => none

/-- A list of texts. -/
def strings (items : List String) : Json :=
  array (items.map string)

/-- The value, if there is one. -/
def ofOption {α : Type} (f : α → Json) : Option α → Json
  | some a => f a
  | none => null

end Json

end SchemaAtlas
