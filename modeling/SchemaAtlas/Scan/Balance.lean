import SchemaAtlas.Scan.Quotes

/-!
# `SchemaAtlas.Scan.Balance`: matching braces and ends of statements

A block reaches from its opening brace to the first closing brace at which as many braces have
closed as have opened; a statement reaches to its first semicolon. Braces and semicolons inside
quoted strings do not count.
-/

set_option autoImplicit false

namespace SchemaAtlas.Scan

/-- How a character outside of quoted strings changes the number of open braces. -/
def braceWeight (c : Char) : Int :=
  if c = '{' then 1 else if c = '}' then -1 else 0

/-- The index of the first closing brace that leaves no brace open; `i` is the index of the next
character, and `depth` the number of open braces before it. -/
def closeFrom (quotes : Quotes) (depth : Int) (i : Nat) : List Char → Option Nat
  | [] => none
  | c :: r =>
    if quotes = .outside then
      let depth' := depth + braceWeight c
      if c = '}' ∧ depth' = 0 then some i else closeFrom (quotes.step c) depth' (i + 1) r
    else closeFrom (quotes.step c) depth (i + 1) r

/-- The index of the brace that closes the one at index `start`, if the block is closed. -/
def closingBrace? (cs : List Char) (start : Nat) : Option Nat :=
  closeFrom .outside 0 start (cs.drop start)

/-- The index of the brace that closes a block, given what follows its opening brace and the
index at which that begins. -/
def blockEnd? (start : Nat) (cs : List Char) : Option Nat :=
  closeFrom .outside 1 start cs

/-- The index of the first semicolon outside of quoted strings. -/
def semicolonFrom (quotes : Quotes) (i : Nat) : List Char → Option Nat
  | [] => none
  | c :: r =>
    if quotes = .outside ∧ c = ';' then some i else semicolonFrom (quotes.step c) (i + 1) r

/-- The index of the semicolon that ends the statement which begins at `start`, or the length of
the text. -/
def statementEnd (cs : List Char) (start : Nat) : Nat :=
  (semicolonFrom .outside start (cs.drop start)).getD cs.length

end SchemaAtlas.Scan
