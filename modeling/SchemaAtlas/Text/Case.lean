import SchemaAtlas.Text.CaseTable

/-!
# `SchemaAtlas.Text.Case`: capital and small forms of whole texts

The full mappings of Unicode: a character may become several (`ß` becomes `SS`), and a capital
sigma becomes a final sigma at the end of a word, that is, when a letter stands before it and
none after it. Signs such as the apostrophe are passed over in that look.
-/

set_option autoImplicit false

namespace SchemaAtlas.Text

/-- The capital form of one character. -/
def capitalOf (c : Char) : List Char :=
  let n := c.toNat
  if n < 128 then [c.toUpper]
  else match longCapitals.find? fun entry => entry.1 == n with
    | some entry => entry.2.map Char.ofNat
    | none => match capitalRuns.findSome? fun run => run.apply? n with
      | some m => [Char.ofNat m]
      | none => [c]

/-- The small form of one character, apart from the sigma's special place at the end of a word. -/
def smallOf (c : Char) : List Char :=
  let n := c.toNat
  if n < 128 then [c.toLower]
  else match longSmalls.find? fun entry => entry.1 == n with
    | some entry => entry.2.map Char.ofNat
    | none => match smallRuns.findSome? fun run => run.apply? n with
      | some m => [Char.ofNat m]
      | none => [c]

/-- Letters that have case. -/
def isCased (c : Char) : Bool :=
  if c.toNat < 128 then c.isAlpha else covers casedRanges c.toNat

/-- Signs that are passed over when the neighbouring letter of a sigma is looked for. -/
def isPassed (c : Char) : Bool :=
  if c.toNat < 128 then c == '\'' || c == '.' || c == ':' || c == '^' || c == '\x60'
  else covers passedRanges c.toNat

/-- Holds when the next character that is not passed over is a letter with case. -/
def letterAhead : List Char → Bool
  | [] => false
  | c :: r => if isPassed c then letterAhead r else isCased c

/-- Small forms of the rest of a text; `letterBehind` tells whether a letter with case stands
before. -/
def lowerFrom (letterBehind : Bool) : List Char → List Char
  | [] => []
  | c :: r =>
    let small := if c == 'Σ' then [if letterBehind && !letterAhead r then 'ς' else 'σ']
      else smallOf c
    small ++ lowerFrom (if isPassed c then letterBehind else isCased c) r

/-- The text in capitals. -/
def upper (s : String) : String :=
  String.ofList (s.toList.flatMap capitalOf)

/-- The text in small letters. -/
def lower (s : String) : String :=
  String.ofList (lowerFrom false s.toList)

end SchemaAtlas.Text
