import SchemaAtlas.Schema.Column

/-!
# `SchemaAtlas.Schema.Table`: tables

A table is its columns and its foreign keys, each in order of declaration.
-/

set_option autoImplicit false

namespace SchemaAtlas

/-- A table. -/
structure Table where
  name : String
  columns : List Column := []
  foreignKeys : List ForeignKey := []
  deriving DecidableEq, Repr, Inhabited

namespace Table

/-- The first column of a name. -/
def column? (t : Table) (name : String) : Option Column :=
  t.columns.find? fun c => c.name == name

/-- Holds when the table has a column of the name. -/
def hasColumn (t : Table) (name : String) : Bool :=
  t.columns.any fun c => c.name == name

/-- The first foreign key on a column. -/
def foreignKeyOn? (t : Table) (column : String) : Option ForeignKey :=
  t.foreignKeys.find? fun fk => fk.column == column

/-- The first column of the primary key. -/
def primaryKey? (t : Table) : Option Column :=
  t.columns.find? Column.isPrimary

/-- Holds of a table that looks like a join of two others, such as `role_user`: two words, not a
plural, and at least two foreign keys. -/
def isPivot (t : Table) : Bool :=
  t.name.toList.contains '_' && !Text.endsWith "s" t.name && 2 ≤ t.foreignKeys.length

end Table

/-! ### Column and constraint lists -/

/-- The columns with `column` in the place of the first of its name, or at the end. -/
def putColumn (column : Column) : List Column → List Column
  | [] => [column]
  | c :: r => if c.name = column.name then column :: r else c :: putColumn column r

/-- The foreign keys with `fk` at the end as the only one on its column. -/
def putForeignKey (fk : ForeignKey) (fks : List ForeignKey) : List ForeignKey :=
  fks.filter (fun other => other.column != fk.column) ++ [fk]

/-- The columns with the first one named `name` passed through `f`. -/
def updateColumn (name : String) (f : Column → Column) : List Column → List Column
  | [] => []
  | c :: r => if c.name = name then f c :: r else c :: updateColumn name f r

end SchemaAtlas
