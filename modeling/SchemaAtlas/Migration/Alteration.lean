import SchemaAtlas.Migration.Block

/-!
# `SchemaAtlas.Migration.Alteration`: what a block does to a table

A block first renames columns, then takes columns and foreign keys away, and last enters its
own. A column is renamed only if it is there and the new name is free. A foreign key may be
taken away by its column or by the name of its index, which is made of the table and the column.
-/

set_option autoImplicit false

namespace SchemaAtlas

open SchemaAtlas.Text

/-- One line in the record of what happened to a schema. -/
inductive Change
  | created (table : String)
  | renamed (table old new : String)
  | dropped (table column : String)
  | declared (table column : String)
  | modelled (className : String)
  deriving DecidableEq, Repr

/-- The line as text. -/
def Change.text : Change → String
  | created table => "CREATE:" ++ table
  | renamed table old new => "RENAME:" ++ table ++ "." ++ old ++ "->" ++ new
  | dropped table column => "DROP:" ++ table ++ "." ++ column
  | declared table column => "COLUMN:" ++ table ++ "." ++ column
  | modelled className => "MODEL:" ++ className

namespace Table

/-- Holds when a column can get the new name: it is there, and no column bears the name. -/
def canRename (t : Table) (old new : String) : Bool :=
  t.hasColumn old && !t.hasColumn new

/-- The foreign keys with those on one column put on another. -/
def moveForeignKeys (old new : String) (fks : List ForeignKey) : List ForeignKey :=
  fks.map fun fk => if fk.column = old then { fk with column := new } else fk

/-- The table with a column under a new name, in its place, and its foreign keys with it. -/
def renameColumn (t : Table) (old new : String) : Table :=
  if t.canRename old new then
    { t with
      columns := updateColumn old (fun c => { c with name := new }) t.columns
      foreignKeys := moveForeignKeys old new t.foreignKeys }
  else t

/-- The table after several renames, in order. -/
def renameColumns (t : Table) (renames : List (String × String)) : Table :=
  renames.foldl (fun t r => t.renameColumn r.1 r.2) t

/-- The renames that take place, in order. -/
def takenRenames (t : Table) : List (String × String) → List (String × String)
  | [] => []
  | r :: rest =>
    let later := (t.renameColumn r.1 r.2).takenRenames rest
    if t.canRename r.1 r.2 then r :: later else later

/-- The table without some columns and the foreign keys on them. -/
def dropColumns (t : Table) (names : List String) : Table :=
  { t with
    columns := t.columns.filter fun c => !names.contains c.name
    foreignKeys := t.foreignKeys.filter fun fk => !names.contains fk.column }

/-- The column that an entry of a list of foreign keys to drop names: a column, or the index of
one. -/
def droppedForeignColumn? (t : Table) (entry : String) : Option String :=
  if t.hasColumn entry then some entry
  else if startsWith (t.name ++ "_") entry && endsWith "_foreign" entry then
    some (dropFirst (t.name.length + 1) (dropLast "_foreign".length entry))
  else none

/-- The table without the foreign keys on a column, which is no longer flagged. -/
def dropForeignKey (t : Table) (column : String) : Table :=
  { t with
    columns := updateColumn column (fun c => { c with isForeign := false }) t.columns
    foreignKeys := t.foreignKeys.filter fun fk => fk.column != column }

/-- The table without the foreign keys that a list of entries names. -/
def dropForeignKeys (t : Table) (entries : List String) : Table :=
  (entries.filterMap t.droppedForeignColumn?).foldl dropForeignKey t

/-- The table with some columns and foreign keys entered. -/
def enter (t : Table) (columns : List Column) (fks : List ForeignKey) : Table :=
  { t with
    columns := columns.foldl (fun columns c => putColumn c columns) t.columns
    foreignKeys := fks.foldl (fun fks fk => putForeignKey fk fks) t.foreignKeys }

/-- The table after a block that alters it. -/
def alter (t : Table) (b : Migration.Block) : Table :=
  ((((t.renameColumns b.renamed).dropColumns b.dropped).dropForeignKeys b.droppedForeign).enter
    b.columns b.foreignKeys)

/-- What the block changes, line by line. -/
def changesOf (t : Table) (b : Migration.Block) : List Change :=
  (t.takenRenames b.renamed).map (fun r => .renamed b.table r.1 r.2)
    ++ b.dropped.map (.dropped b.table)
    ++ b.columns.map fun c => .declared b.table c.name

end Table

end SchemaAtlas
