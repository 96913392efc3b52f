import SchemaAtlas.Schema.Snapshot

/-!
# `SchemaAtlas.Relation.Resolve`: the edges between tables

Edges come from columns that refer to other tables, in order of tables and columns, and then
from the relations that classes declare. A column's target is found by its name first and by its
foreign key second; a class's table by its binding first and by its name second. Between two
tables only the first edge counts, whichever way it runs, and no edge leads from a table to
itself.
-/

set_option autoImplicit false

namespace SchemaAtlas.Relation

open SchemaAtlas.Text

/-! ### Edges from columns -/

/-- What the name of a column that refers to another table says about the table. -/
def referenceBase? (c : Column) : Option String :=
  if c.name = Naming.identifier then none else beforeTail? Naming.referenceEnd c.name

/-- The last of some names that reads like this in small letters. -/
def lastLike? (names : List String) (small : String) : Option String :=
  names.reverse.find? fun name => lower name == small

/-- The table that a column's name refers to: named by the plural, the singular, or the base
itself. -/
def targetByName? (names : List String) (base : String) : Option String :=
  let base := lower base
  [Naming.pluralize base, Naming.singularize base, base].findSome? (lastLike? names)

/-- The table that a column's foreign key refers to. -/
def targetByKey? (names : List String) (table : Table) (c : Column) : Option String :=
  match table.foreignKeyOn? c.name with
  | some fk => if names.contains fk.target then some fk.target else none
  | none => none

/-- The table that a column refers to. -/
def target? (names : List String) (table : Table) (c : Column) : Option String :=
  ((referenceBase? c).bind (targetByName? names)).or (targetByKey? names table c)

/-- The edge from a column. -/
def columnEdge? (names : List String) (table : Table) (c : Column) : Option Edge :=
  (target? names table c).map fun target => ⟨table.name, target, .belongsTo, some c.name⟩

/-- The edges from the columns of all tables. -/
def columnEdges (tables : Catalog Table) : List Edge :=
  tables.values.flatMap fun table => table.columns.filterMap (columnEdge? tables.names table)

/-! ### Edges from declarations -/

/-- What a table may be called by a class, and the table: its name in small letters, then the
singular of that. Of two tables of one such name the first counts. -/
def calledNames (tables : Catalog Table) : List (String × String) :=
  tables.names.map (fun name => (lower name, name))
    ++ tables.names.map fun name => (Naming.singularize (lower name), name)

/-- The table of a class. -/
def tableOfModel? (tables : Catalog Table) (bindings : Catalog String) (className : String) :
    Option String :=
  let byName :=
    [lower className, Naming.snakeCase className].findSome? fun candidate =>
      [Naming.pluralize candidate, candidate].findSome? fun key => (calledNames tables).lookup key
  match bindings.get? className with
  | some bound => if tables.contains bound then some bound else byName
  | none => byName

/-- The edge from a declared relation. -/
def declaredEdge? (tables : Catalog Table) (bindings : Catalog String) (r : DeclaredRelation) :
    Option Edge := do
  let source ← tableOfModel? tables bindings r.fromModel
  let target ← tableOfModel? tables bindings r.toModel
  return ⟨source, target, r.kind, none⟩

/-! ### Selection -/

/-- All edges there could be, in order. -/
def candidates (tables : Catalog Table) (declared : List DeclaredRelation)
    (bindings : Catalog String) : List Edge :=
  columnEdges tables ++ declared.filterMap (declaredEdge? tables bindings)

/-- The edges with one more at the end, if it joins two tables that no edge joins yet. -/
def addEdge (edges : List Edge) (e : Edge) : List Edge :=
  if e.source = e.target then edges
  else if edges.any fun other => other.pairKey == e.pairKey || other.id == e.id then edges
  else edges ++ [e]

/-- The edges between tables, given what classes declare and which tables they are bound to. -/
def resolve (tables : Catalog Table) (declared : List DeclaredRelation)
    (bindings : Catalog String) :
    List Edge :=
  (candidates tables declared bindings).foldl addEdge []

/-- The edges of a schema. -/
def ofSnapshot (s : Snapshot) : List Edge :=
  resolve s.tables (s.models.values.flatMap Model.declared)
    (.ofList (s.models.values.map fun m => (m.className, m.tableName)))

end SchemaAtlas.Relation
