import SchemaAtlas.Migration.Statement

/-!
# `SchemaAtlas.Migration.Block`: what a closure says about its table

The requests of a closure's statements are gathered in order. An identifier comes first among
the columns, wherever it is declared; a column that is declared again keeps its place; a
constraint on a column that is declared elsewhere takes effect after all declarations.
-/

set_option autoImplicit false

namespace SchemaAtlas.Migration

open SchemaAtlas.Scan

/-- What a closure says about its table: columns and foreign keys to have, columns and foreign
keys to lose, columns to rename. `reverse` marks the closures of the method that undoes the
migration. -/
structure Block where
  table : String
  kind : BlockKind
  columns : List Column := []
  foreignKeys : List ForeignKey := []
  dropped : List String := []
  droppedForeign : List String := []
  renamed : List (String × String) := []
  reverse : Bool := false
  bodyStart : Nat := 0
  bodyEnd : Nat := 0
  deriving DecidableEq, Repr

/-- The requests gathered so far. -/
structure Draft where
  identifier : Option String := none
  columns : List Column := []
  foreignKeys : List ForeignKey := []
  constraints : List ForeignKey := []
  dropped : List String := []
  droppedForeign : List String := []
  renamed : List (String × String) := []
  deriving DecidableEq, Repr

namespace Draft

/-- The draft with one more request. -/
def add (d : Draft) : Request → Draft
  | .identify name => { d with identifier := some name }
  | .declare column => { d with columns := putColumn column d.columns }
  | .refer fk => { d with foreignKeys := putForeignKey fk d.foreignKeys }
  | .constrain fk => { d with constraints := d.constraints ++ [fk] }
  | .drop names => { d with dropped := d.dropped ++ names }
  | .dropForeign names => { d with droppedForeign := d.droppedForeign ++ names }
  | .rename old new => { d with renamed := d.renamed ++ [(old, new)] }

/-- All requests of some statements. -/
def ofStatements (statements : List Statement) : Draft :=
  (statements.flatMap Statement.requests).foldl add {}

/-- An identifier column of the name. -/
def identifierColumn (name : String) : Column :=
  { name := name, type := .id, isPrimary := true }

/-- The declared columns with the identifier in front. -/
def orderedColumns (d : Draft) : List Column :=
  match d.identifier with
  | none => d.columns
  | some name => identifierColumn name :: d.columns.filter fun c => c.name != name

/-- The columns, each flagged that a constraint was stated for. -/
def finalColumns (d : Draft) : List Column :=
  d.constraints.foldl
    (fun columns fk => updateColumn fk.column (fun c => { c with isForeign := true }) columns)
    d.orderedColumns

/-- The foreign keys of the declarations, overruled by the constraints. -/
def finalForeignKeys (d : Draft) : List ForeignKey :=
  d.constraints.foldl (fun fks fk => putForeignKey fk fks) d.foreignKeys

end Draft

/-- What a closure of a masked text says. -/
def Closure.block (masked : List Char) (down? : Option (Nat × Nat)) (c : Closure) : Block :=
  let body := (masked.drop c.bodyStart).take (c.bodyEnd - c.bodyStart)
  let draft := Draft.ofStatements (statements body c.builder)
  { table := c.table
    kind := c.kind
    columns := draft.finalColumns
    foreignKeys := draft.finalForeignKeys
    dropped := draft.dropped
    droppedForeign := draft.droppedForeign
    renamed := draft.renamed
    reverse := down?.any fun down => down.1 ≤ c.bodyStart && c.bodyStart < down.2
    bodyStart := c.bodyStart
    bodyEnd := c.bodyEnd }

/-- The blocks of a migration, in order. -/
def blocks (text : String) : List Block :=
  let masked := mask text.toList
  (closuresOfMasked masked).map (Closure.block masked (downSpan? masked))

end SchemaAtlas.Migration
