import SchemaAtlas.Scan.Balance
import SchemaAtlas.Scan.ClassName
import SchemaAtlas.Scan.Mask
import SchemaAtlas.Scan.Pattern

/-!
# `SchemaAtlas.Migration.Closure`: where a migration speaks about a table

A migration speaks about a table inside a closure that it hands to the schema builder:

    Schema::create('posts', function (Blueprint $table) { ... });

`Schema::create` makes the table, `Schema::table` alters it. Closures are found in the masked
text, so that comments have no say, and their offsets are offsets into the text itself. A
closure whose brace is never closed is left out.
-/

set_option autoImplicit false

namespace SchemaAtlas.Migration

open SchemaAtlas.Scan SchemaAtlas.Text

/-- What a closure does with its table. -/
inductive BlockKind
  | create
  | alter
  deriving DecidableEq, Repr, Inhabited

namespace BlockKind

/-- The word for a kind. -/
def word : BlockKind → String
  | create => "create"
  | alter => "alter"

/-- The kind that a word stands for. -/
def ofWord? (word : String) : Option BlockKind :=
  if word = "create" then some create else if word = "alter" then some alter else none

end BlockKind

/-- The head of a closure: what it does, with which table, and the variable that stands for the
builder in its body. -/
structure Head where
  kind : BlockKind
  table : String
  builder : String
  deriving DecidableEq, Repr

/-- A closure: its head, the offset just past its opening brace, and that of its closing brace. -/
structure Closure extends Head where
  bodyStart : Nat
  bodyEnd : Nat
  deriving DecidableEq, Repr

/-! ### Recognizing a head -/

/-- The builder's method. -/
def builderMethod : Recognizer BlockKind := fun cs =>
  match literal "create" cs with
  | some cs => some (.create, cs)
  | none => (literal "table" cs).map fun cs => (.alter, cs)

/-- Past the word `static`, if it stands there alone. -/
def skipStatic (cs : List Char) : List Char :=
  ((literal "static" cs).bind someBlanks).getD cs

/-- Past the type of the closure's parameter, which may be left out but must be a `Blueprint`. -/
def skipParameterType (cs : List Char) : Option (List Char) :=
  match run isClassPart cs with
  | none => some cs
  | some (type, cs) => if "Blueprint".toList.isSuffixOf type then someBlanks cs else none

/-- Past the closure's return type, which may be left out but must be `void`. -/
def skipReturnType (cs : List Char) : Option (List Char) :=
  match char ':' cs with
  | none => some cs
  | some cs => (literal "void" (skipBlanks cs)).map skipBlanks

/-- Past a pair of parentheses and what they hold. -/
def parenthesized (cs : List Char) : Option (List Char) := do
  let cs ← char '(' cs
  char ')' (cs.dropWhile fun c => c != ')')

/-- Past the list of variables that the closure captures, if there is one. -/
def skipCaptures (cs : List Char) : Option (List Char) :=
  match literal "use" cs with
  | none => some cs
  | some cs => (parenthesized (skipBlanks cs)).map skipBlanks

/-- The head of a closure, opening brace included. -/
def head : Recognizer Head := fun cs => do
  let cs ← literal "Schema::" cs
  let (kind, cs) ← builderMethod cs
  let cs ← char '(' (skipBlanks cs)
  let (table, cs) ← quotedName (skipBlanks cs)
  let cs ← char ',' (skipBlanks cs)
  let cs ← literal "function" (skipStatic (skipBlanks cs))
  let cs ← char '(' (skipBlanks cs)
  let cs ← skipParameterType (skipBlanks cs)
  let cs ← char '$' cs
  let (builder, cs) ← name cs
  let cs ← char ')' (skipBlanks cs)
  let cs ← skipReturnType (skipBlanks cs)
  let cs ← skipCaptures cs
  let cs ← char '{' cs
  return (⟨kind, table, builder⟩, cs)

/-! ### Finding closures -/

/-- The closure behind a head, if its brace is closed. -/
def Head.close? (m : Match Head) : Option Closure :=
  (blockEnd? m.stop m.rest).map fun close => ⟨m.value, m.stop, close⟩

/-- The closures of a text whose comments are masked, in order. -/
def closuresOfMasked (masked : List Char) : List Closure :=
  (findAll head masked).filterMap Head.close?

/-- The closures of a migration, in order. -/
def closures (text : String) : List Closure :=
  closuresOfMasked (mask text.toList)

/-! ### The way back -/

/-- The type of the value that a method returns, if it is given. -/
def skipResultType (cs : List Char) : Option (List Char) :=
  match char ':' cs with
  | none => some cs
  | some cs => (name (skipBlanks cs)).map fun m => skipBlanks m.2

/-- The head of the method that undoes the migration, opening brace included. -/
def downHead : Recognizer Unit := fun cs => do
  let cs ← literal "function" cs
  let cs ← someBlanks cs
  let cs ← literal "down" cs
  let cs ← parenthesized (skipBlanks cs)
  let cs ← skipResultType (skipBlanks cs)
  let cs ← char '{' cs
  return ((), cs)

/-- Where the method that undoes the migration begins and ends. Left open, it ends with the
text. -/
def downSpan? (masked : List Char) : Option (Nat × Nat) :=
  (find? downHead masked).map fun m =>
    (m.start, (blockEnd? m.stop m.rest).getD masked.length)

end SchemaAtlas.Migration
