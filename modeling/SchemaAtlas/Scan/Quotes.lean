/-!
# `SchemaAtlas.Scan.Quotes`: where quoted strings begin and end

A quoted string runs from a single or double quote to the next quote of the same kind; inside it
a backslash takes the character after it along. Reading one character at a time, it is enough to
remember whether a string is open, by which quote, and whether a backslash was just read. All
scanners of source text follow this one rule.
-/

set_option autoImplicit false

namespace SchemaAtlas.Scan

/-- Where a reader stands with respect to quoted strings. -/
inductive Quotes
  | outside
  | inside (quote : Char)
  | escaped (quote : Char)
  deriving DecidableEq, Repr

/-- Holds of the two characters that open a quoted string. -/
def isQuote (c : Char) : Bool :=
  c == '\'' || c == '"'

/-- Where the reader stands after one more character. -/
def Quotes.step : Quotes → Char → Quotes
  | outside, c => if isQuote c then inside c else outside
  | inside q, c => if c = '\\' then escaped q else if c = q then outside else inside q
  | escaped q, _ => inside q

end SchemaAtlas.Scan
