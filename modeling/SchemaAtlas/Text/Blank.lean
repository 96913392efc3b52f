import SchemaAtlas.Text.CodeRange

/-!
# `SchemaAtlas.Text.Blank`: blank characters, trimming and words

Blank are the characters that Unicode counts as white space or as a separator of paragraphs, and
the four information separators of ASCII. A space of no width is not blank.
-/

set_option autoImplicit false

namespace SchemaAtlas.Text

/-- Blank characters beyond ASCII. -/
def blankRanges : List (Nat × Nat) :=
  [(0x85, 0x85), (0xA0, 0xA0), (0x1680, 0x1680), (0x2000, 0x200A), (0x2028, 0x2029),
    (0x202F, 0x202F), (0x205F, 0x205F), (0x3000, 0x3000)]

/-- White space: tab to carriage return, the information separators, the space, and
`blankRanges`. -/
def isBlank (c : Char) : Bool :=
  let n := c.toNat
  if n < 128 then (9 ≤ n && n ≤ 13) || (28 ≤ n && n ≤ 32) else covers blankRanges n

/-- What is left after the leading blanks. -/
def skipBlanks (cs : List Char) : List Char :=
  cs.dropWhile isBlank

/-- The list without those last elements that satisfy `p`. -/
def dropEndWhile (p : Char → Bool) (cs : List Char) : List Char :=
  (cs.reverse.dropWhile p).reverse

/-- The text without blanks at its end. -/
def trimEnd (s : String) : String :=
  String.ofList (dropEndWhile isBlank s.toList)

/-- The text without blanks at either end. -/
def trim (s : String) : String :=
  String.ofList (dropEndWhile isBlank (skipBlanks s.toList))

/-- The maximal runs of characters that are not blank; `run` is the run in progress, reversed. -/
def fieldsFrom (run : List Char) : List Char → List String
  | [] => if run.isEmpty then [] else [String.ofList run.reverse]
  | c :: r =>
    if isBlank c then
      if run.isEmpty then fieldsFrom [] r else String.ofList run.reverse :: fieldsFrom [] r
    else fieldsFrom (c :: run) r

/-- The words of a line, in order: its maximal runs of characters that are not blank. -/
def fields (s : String) : List String :=
  fieldsFrom [] s.toList

end SchemaAtlas.Text
