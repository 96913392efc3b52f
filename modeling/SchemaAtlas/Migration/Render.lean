import SchemaAtlas.Migration.Statement

/-!
# `SchemaAtlas.Migration.Render`: columns as statements

Every column has one statement that declares it, and a whole table is a list of statements: the
identifier first, then the other columns in order, then the foreign keys that no column
statement can carry, and last the two audit columns, which have a method of their own. A
reference to any table's rows, an identifier column and a type column of one stem, is one
statement again.
-/

set_option autoImplicit false

namespace SchemaAtlas.Migration

open SchemaAtlas.Text

/-- The modifier that turns an identifier column into a foreign key. The table is named only if
it is not the one that the column's name implies. -/
def constrained (column : String) (fk? : Option ForeignKey) : String :=
  match fk? with
  | some fk =>
    if fk.target = Naming.defaultTarget column then "->constrained()"
    else "->constrained('" ++ fk.target ++ "')"
  | none => "->constrained()"

/-- The statement that declares a column, such as `$table->string('title')->nullable();`. -/
def columnStatement (builder : String) (c : Column) (fk? : Option ForeignKey) : String :=
  let call (method : String) : String :=
    "$" ++ builder ++ "->" ++ method ++ "('" ++ c.name ++ "')"
  let nullable := if c.nullable then "->nullable()" else ""
  if c.type = .id then
    if c.name = Naming.identifier then "$" ++ builder ++ "->id();" else call "id" ++ ";"
  else if c.type = .foreignId then
    call "foreignId" ++ nullable ++ constrained c.name fk? ++ "->cascadeOnDelete();"
  else if c.type = .uuid ∧ c.isForeign ∧ fk?.isSome then
    call "foreignUuid" ++ nullable ++ constrained c.name fk? ++ "->cascadeOnDelete();"
  else
    call c.type.method ++ nullable ++ (if c.isPrimary then "->primary()" else "") ++ ";"

/-! ### References to any table's rows -/

/-- The method that declares a reference with an identifier of this type. -/
def morphMethod? (type : ColumnType) (nullable : Bool) : Option String :=
  (morphMethods.find? fun m => m.2 == (type, nullable)).map Prod.fst

/-- The last element that satisfies `p`. -/
def findLast? {α : Type} (p : α → Bool) (l : List α) : Option α :=
  l.reverse.find? p

/-- The stem and the method of the reference that an identifier column is half of: it is flagged
as foreign, no foreign key is on it, and there is a type column to it that may be null if and
only if it may be null itself. -/
def morphOf? (columns : List Column) (fks : List ForeignKey) (c : Column) :
    Option (String × String) := do
  let stem ← beforeTail? Naming.referenceEnd c.name
  let typeColumn ← findLast? (fun other => other.name == stem ++ morphTypeEnd) columns
  if c.isForeign && !(fks.any fun fk => fk.column == c.name) && typeColumn.type == .string
      && typeColumn.nullable == c.nullable then
    return (stem, ← morphMethod? c.type c.nullable)
  else none

/-- The references among some columns: the name of the identifier column, the stem, and the
method. -/
def morphs (columns : List Column) (fks : List ForeignKey) : List (String × String × String) :=
  columns.filterMap fun c => (morphOf? columns fks c).map fun m => (c.name, m)

/-! ### Whole tables -/

/-- The statement for a table's own identifier: its identifier column, or one under the usual
name unless another column bears that name. -/
def identifierStatements (builder : String) (columns : List Column) : List String :=
  match columns.find? fun c => c.type == .id with
  | some c => [columnStatement builder c none]
  | none =>
    if columns.any fun c => c.name == Naming.identifier then [] else ["$" ++ builder ++ "->id();"]

/-- The columns with statements of their own: all but the identifier, the audit columns, and the
type columns of references. -/
def bodyColumns (columns : List Column) (morphs : List (String × String × String)) :
    List Column :=
  (columns.eraseP fun c => c.type == .id).filter fun c =>
    !Naming.auditColumns.contains c.name && !morphs.any fun m => m.2.1 ++ morphTypeEnd == c.name

/-- The last foreign key on a column. -/
def foreignKeyFor? (fks : List ForeignKey) (c : Column) : Option ForeignKey :=
  findLast? (fun fk => fk.column == c.name) fks

/-- The statement for a column among others. -/
def bodyStatement (builder : String) (fks : List ForeignKey)
    (morphs : List (String × String × String))
    (c : Column) : String :=
  match findLast? (fun m => m.1 == c.name) morphs with
  | some (_, stem, method) => "$" ++ builder ++ "->" ++ method ++ "('" ++ stem ++ "');"
  | none => columnStatement builder c (foreignKeyFor? fks c)

/-- The statement for the foreign key on a column whose own statement cannot carry it. -/
def constraintStatement? (builder : String) (fks : List ForeignKey)
    (morphs : List (String × String × String)) (c : Column) : Option String :=
  if morphs.any fun m => m.1 == c.name then none
  else match foreignKeyFor? fks c with
    | some fk =>
      if c.type = .foreignId ∨ c.type = .uuid then none
      else
        some ("$" ++ builder ++ "->foreign('" ++ c.name ++ "')->references('" ++ Naming.identifier
          ++ "')->on('" ++ fk.target ++ "')->cascadeOnDelete();")
    | none => none

/-- The statements of a whole table. -/
def tableStatements (builder : String) (columns : List Column) (fks : List ForeignKey) :
    List String :=
  let morphs := morphs columns fks
  let body := bodyColumns columns morphs
  identifierStatements builder columns
    ++ body.map (bodyStatement builder fks morphs)
    ++ body.filterMap (constraintStatement? builder fks morphs)
    ++ ["$" ++ builder ++ "->timestamps();"]

end SchemaAtlas.Migration
