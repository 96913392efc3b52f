/-!
# `SchemaAtlas.Text.Ends`: how a text begins, ends, and what it contains
-/

set_option autoImplicit false

namespace SchemaAtlas.Text

/-- What follows `lead`, if the characters begin with it. -/
def afterLead? : (lead cs : List Char) → Option (List Char)
  | [], cs => some cs
  | _ :: _, [] => none
  | l :: lead, c :: cs => if l = c then afterLead? lead cs else none

/-- Holds when the text begins with `lead`. -/
def startsWith (lead s : String) : Bool :=
  lead.toList.isPrefixOf s.toList

/-- Holds when the text ends with `tail`. -/
def endsWith (tail s : String) : Bool :=
  tail.toList.isSuffixOf s.toList

/-- The text without its first `n` characters. -/
def dropFirst (n : Nat) (s : String) : String :=
  String.ofList (s.toList.drop n)

/-- The text without its last `n` characters. -/
def dropLast (n : Nat) (s : String) : String :=
  String.ofList (s.toList.take (s.toList.length - n))

/-- The first `n` characters of a text. -/
def takeFirst (n : Nat) (s : String) : String :=
  String.ofList (s.toList.take n)

/-- What stands before `tail`, if the text ends with it. -/
def beforeTail? (tail s : String) : Option String :=
  if endsWith tail s then some (dropLast tail.toList.length s) else none

/-- Holds when `part` occurs somewhere in the characters. -/
def occursIn (part : List Char) : List Char → Bool
  | [] => part.isEmpty
  | c :: r => part.isPrefixOf (c :: r) || occursIn part r

/-- Holds when the text has `part` somewhere in it. -/
def contains (part s : String) : Bool :=
  occursIn part.toList s.toList

end SchemaAtlas.Text
