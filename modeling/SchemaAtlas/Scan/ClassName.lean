import SchemaAtlas.Scan.Pattern
import SchemaAtlas.Text.Lines

/-!
# `SchemaAtlas.Scan.ClassName`: classes as arguments

A class is given to a method as a constant, `User::class`, or by its name between quotes. Either
may carry a namespace, which plays no part in what the class is called.
-/

set_option autoImplicit false

namespace SchemaAtlas.Scan

open SchemaAtlas.Text

/-- Characters of a class name with its namespace. -/
def isClassPart (c : Char) : Bool :=
  isWord c || c == '\\'

/-- A class name without its namespace. -/
def shortClassName (path : List Char) : String :=
  lastPiece '\\' (String.ofList path)

/-- A class given as a constant. -/
def classConstant : Recognizer String := fun cs => do
  let (path, cs) ← run isClassPart cs
  let cs ← literal "::class" cs
  return (shortClassName path, cs)

/-- A class given by its quoted name; the two quotes need not be of the same kind. -/
def quotedClass : Recognizer String := fun cs => do
  let (_, cs) ← quote cs
  let (path, cs) ← run isClassPart cs
  let (_, cs) ← quote cs
  return (shortClassName path, cs)

/-- A class given in either form. -/
def classArgument : Recognizer String := fun cs =>
  match classConstant cs with
  | some m => some m
  | none => quotedClass cs

end SchemaAtlas.Scan
