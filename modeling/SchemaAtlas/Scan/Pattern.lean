import SchemaAtlas.Scan.Quotes
import SchemaAtlas.Text.Blank
import SchemaAtlas.Text.Ends
import SchemaAtlas.Text.Word

/-!
# `SchemaAtlas.Scan.Pattern`: recognizing pieces of source text

A recognizer looks at the beginning of a text; if it likes what it sees it gives a value and the
rest of the text. Each recognizer here takes as much as it can, and no longer or shorter take of
the same piece could let the whole succeed where it fails, so no choice is ever taken back.

Searching tries a recognizer at every place, from left to right. A full search goes on behind
each match, so matches do not overlap.
-/

set_option autoImplicit false

namespace SchemaAtlas.Scan

open SchemaAtlas.Text

/-- Gives a value and the rest of the text, if the text begins in the right way. -/
abbrev Recognizer (α : Type) := List Char → Option (α × List Char)

/-! ### Small pieces -/

/-- The rest after exactly this text. -/
def literal (text : String) (cs : List Char) : Option (List Char) :=
  afterLead? text.toList cs

/-- The rest after at least one blank and all that follow it. -/
def someBlanks : List Char → Option (List Char)
  | [] => none
  | c :: r => if isBlank c then some (skipBlanks r) else none

/-- The longest run of characters of a kind, which must not be empty. -/
def run (p : Char → Bool) : Recognizer (List Char) := fun cs =>
  match cs.takeWhile p with
  | [] => none
  | c :: r => some (c :: r, cs.dropWhile p)

/-- A name: the longest run of word characters. -/
def name : Recognizer String := fun cs =>
  (run isWord cs).map fun m => (String.ofList m.1, m.2)

/-- One of the two quotes. -/
def quote : Recognizer Char
  | [] => none
  | c :: r => if isQuote c then some (c, r) else none

/-- The rest after this one character. -/
def char (x : Char) : List Char → Option (List Char)
  | [] => none
  | c :: r => if c = x then some r else none

/-- A name between two quotes of the same kind. -/
def quotedName : Recognizer String := fun cs => do
  let (q, cs) ← quote cs
  let (word, cs) ← name cs
  let cs ← char q cs
  return (word, cs)

/-! ### Quoted strings -/

/-- What a quoted string holds, up to its closing quote. A backslash at the end of a line does not
continue the string. -/
def quotedBody (q : Char) : Recognizer (List Char)
  | [] => none
  | '\\' :: c :: r =>
    if c = '\n' then none else (quotedBody q r).map fun m => ('\\' :: c :: m.1, m.2)
  | c :: r =>
    if c = '\\' then none
    else if c = q then some ([], r)
    else (quotedBody q r).map fun m => (c :: m.1, m.2)

/-- A quoted string; its value is what stands between the quotes, backslashes included. -/
def quoted : Recognizer String := fun cs => do
  let (q, cs) ← quote cs
  let (body, cs) ← quotedBody q cs
  return (String.ofList body, cs)

/-! ### Searching -/

/-- A match: where it starts, where it stops, its value, and the rest of the text behind it. -/
structure Match (α : Type) where
  start : Nat
  stop : Nat
  value : α
  rest : List Char
  deriving Repr

/-- The first match; `i` is the index of the next character. -/
def findFrom {α : Type} (p : Recognizer α) (i : Nat) : List Char → Option (Match α)
  | [] => none
  | c :: r =>
    match p (c :: r) with
    | some (a, rest) => some ⟨i, i + ((c :: r).length - rest.length), a, rest⟩
    | none => findFrom p (i + 1) r

/-- The first match in a text. -/
def find? {α : Type} (p : Recognizer α) (cs : List Char) : Option (Match α) :=
  findFrom p 0 cs

/-- All matches from left to right; `i` is the index of the next character, and `skip` the
number of characters that belong to a match already found. -/
def findAllFrom {α : Type} (p : Recognizer α) (i skip : Nat) : List Char → List (Match α)
  | [] => []
  | c :: r =>
    match skip with
    | skip + 1 => findAllFrom p (i + 1) skip r
    | 0 =>
      match p (c :: r) with
      | some (a, rest) =>
        let width := (c :: r).length - rest.length
        ⟨i, i + width, a, rest⟩ :: findAllFrom p (i + 1) (width - 1) r
      | none => findAllFrom p (i + 1) 0 r

/-- All matches in a text, from left to right and without overlap. -/
def findAll {α : Type} (p : Recognizer α) (cs : List Char) : List (Match α) :=
  findAllFrom p 0 0 cs

/-- What the quoted strings of a text hold, in order. -/
def quotedStrings (cs : List Char) : List String :=
  (findAll quoted cs).map Match.value

end SchemaAtlas.Scan
