import SchemaAtlas.Json.Plain
import SchemaAtlas.Migration.File
import SchemaAtlas.Model.Source
import SchemaAtlas.Source.File
import SchemaAtlas.Suggestion.Payload

/-!
# `SchemaAtlas.Suggestion.Basic`: suggested schemas and their files

A suggestion is a list of tables and a list of relations between their classes. It is read from
an object with good will: entries that make no sense are passed over, unknown column types
become strings. A suggestion amounts to files, a migration and a class for each table.
-/

set_option autoImplicit false

namespace SchemaAtlas

/-- A suggested schema. -/
structure Suggestion where
  tables : List Table := []
  relations : List DeclaredRelation := []
  deriving DecidableEq, Repr, Inhabited

namespace Suggestion

/-! ### Reading -/

/-- A member of an object, or `null`. -/
def member (members : Payload) (key : String) : Json :=
  (members.lookup key).getD .null

/-- A name that is a text and not empty. -/
def nameOf? (members : Payload) : Option String :=
  match member members "name" with
  | .string name => if name = "" then none else some name
  | _ => none

/-- The column type that a value means; a string if it means none. -/
def typeOf : Json → ColumnType
  | .string token => (ColumnType.ofToken? token).getD .string
  | _ => .string

/-- The column that a value describes. -/
def columnOf? : Json → Option Column
  | .object members => do
    let name ← nameOf? members
    let type := typeOf (member members "type")
    return { name := name
             type := type
             isPrimary := type = .id || (member members "isPk").isTrue
             isForeign := type = .foreignId
             nullable := (member members "nullable").isTrue }
  | _ => none

/-- The columns with one more at the end, unless the name is taken. -/
def addColumn (columns : List Column) (c : Column) : List Column :=
  if columns.any fun other => other.name == c.name then columns else columns ++ [c]

/-- The values that a list of columns holds. Objects and texts hold parts that describe no
columns; other values cannot be gone through unless they are false. -/
def itemsOf (v : Json) : Except Failure (List Json) :=
  match v with
  | .array items => .ok items
  | .object _ => .ok []
  | .string _ => .ok []
  | v => if v.isTrue then .error .wrongKind else .ok []

/-- The foreign key of a column that is flagged as foreign and named after a table. -/
def foreignKeyOf? (c : Column) : Option ForeignKey :=
  if c.isForeign then
    (Text.beforeTail? Naming.referenceEnd c.name).map fun base => ⟨c.name, Naming.pluralize base⟩
  else none

/-- The table of some described columns. -/
def tableOf (name : String) (items : List Json) : Table :=
  let columns := (items.filterMap columnOf?).foldl addColumn []
  ⟨name, columns, columns.filterMap foreignKeyOf?⟩

/-- The table that a value describes. -/
def tableOf? : Json → Except Failure (Option Table)
  | .object members =>
    match nameOf? members with
    | none => .ok none
    | some name => (itemsOf (member members "columns")).map fun items => some (tableOf name items)
  | _ => .ok none

/-- The kind of relation that a value names. -/
def kindOf? : Json → Option RelationKind
  | .string word => RelationKind.ofKeyword? word
  | _ => none

/-- The relation that a value describes. -/
def relationOf? : Json → Option DeclaredRelation
  | .object members => do
    let kind ← kindOf? (member members "type")
    let source := member members "fromModel"
    let target := member members "toModel"
    let method := member members "methodName"
    if source.isTrue && target.isTrue then
      return ⟨source.plain, kind, target.plain, if method.isTrue then method.plain else ""⟩
    else none
  | _ => none

/-- The suggestion that an object holds. -/
def ofPayload (members : Payload) : Except Failure Suggestion := do
  match member members "tables" with
  | .array items =>
    let tables ← items.mapM tableOf?
    let relations :=
      match member members "relations" with
      | .array items => items.filterMap relationOf?
      | _ => []
    return ⟨tables.filterMap id, relations⟩
  | _ => .error (.suggestion .noTables)

/-! ### Files -/

/-- A class name with a small letter in front. -/
def uncapitalized (className : String) : String :=
  Text.lower (Text.takeFirst 1 className) ++ Text.dropFirst 1 className

/-- The relation with a method: its own, or one named after the class it leads to. -/
def withMethod (r : DeclaredRelation) : DeclaredRelation :=
  if r.method = "" then
    let stem := uncapitalized r.toModel
    { r with method := if r.kind.isSingular then Naming.singularize stem
      else Naming.pluralize stem }
  else r

/-- The migration of a table, under a file name. -/
def migrationFile (name : String) (t : Table) : SourceFile where
  path := Migration.folder ++ "/" ++ name
  name := name
  content := Migration.source t
  kind := .migration

/-- The class of a table, with the relations that are declared from it. -/
def modelFile (relations : List DeclaredRelation) (t : Table) : SourceFile :=
  let className := Naming.tableToModel t.name
  let own := (relations.filter fun r => r.fromModel == className).map withMethod
  { path := Model.folder ++ "/" ++ Model.fileName className
    name := Model.fileName className
    content := Model.source className t.name own
    kind := .model }

/-- The files of a suggestion: the migrations of all tables, named from the given moment on,
then their classes. -/
def files (now : Moment) (s : Suggestion) : Except Failure (List SourceFile) :=
  match Migration.fileNames? now (s.tables.map Table.name) with
  | some names =>
    .ok ((names.zip s.tables).map (fun m => migrationFile m.1 m.2)
      ++ s.tables.map (modelFile s.relations))
  | none => .error .calendarEnds

end Suggestion

end SchemaAtlas
