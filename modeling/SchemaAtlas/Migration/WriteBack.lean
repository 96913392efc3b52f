import SchemaAtlas.Migration.File

/-!
# `SchemaAtlas.Migration.WriteBack`: writing a table back into its migration

The body of the first closure that creates the table is written anew from the columns;
everything outside of it stays as it is. The new statements are indented like the first line of
the old body, or one step deeper than the closure if the body had no lines.
-/

set_option autoImplicit false

namespace SchemaAtlas.Migration

open SchemaAtlas.Scan SchemaAtlas.Text

/-- Spaces and tabs. -/
def isIndent (c : Char) : Bool :=
  c == ' ' || c == '\t'

/-- One step of indentation. -/
def indentStep : List Char := [' ', ' ', ' ', ' ']

/-- The indentation of the line that a text ends in. -/
def lastLineIndent (before : List Char) : List Char :=
  (before.reverse.takeWhile fun c => c != '\n').reverse.takeWhile isIndent

/-- A line that is not blank, behind its line break; its value is the indentation. -/
def indentedLine : Recognizer (List Char) := fun cs => do
  let cs ← char '\n' cs
  match cs.dropWhile isIndent with
  | [] => none
  | c :: r => if isBlank c then none else some (cs.takeWhile isIndent, r)

/-- The first closure that creates the table. -/
def creation? (table : String) (cs : List Closure) : Option Closure :=
  cs.find? fun c => c.kind == .create && c.table == table

/-- The body of a closure written anew. -/
def newBody (text : List Char) (c : Closure) (columns : List Column) (fks : List ForeignKey) :
    List Char :=
  let closeIndent := lastLineIndent (text.take (c.bodyStart - 1))
  let first := find? indentedLine ((text.take c.bodyEnd).drop c.bodyStart)
  let indent := (first.map Match.value).getD (closeIndent ++ indentStep)
  '\n' :: (statementLines (String.ofList indent) (tableStatements c.builder columns fks)).toList
    ++ closeIndent

/-- The migration with the table's columns written anew; a migration that does not create the
table stays as it is. -/
def writeBack (text table : String) (columns : List Column) (fks : List ForeignKey) : String :=
  match creation? table (closures text) with
  | none => text
  | some c =>
    let cs := text.toList
    String.ofList (cs.take c.bodyStart ++ newBody cs c columns fks ++ cs.drop c.bodyEnd)

end SchemaAtlas.Migration
