import SchemaAtlas.Json.Value
import SchemaAtlas.Schema.Snapshot

/-!
# `SchemaAtlas.Schema.Record`: a schema as data

The parts of a schema as values of the data format, for exports and for answers to the page.
-/

set_option autoImplicit false

namespace SchemaAtlas

/-- A column as data. -/
def Column.json (c : Column) : Json := .object
  [("name", .string c.name), ("type", .string c.type.method),
    ("is_primary_key", .bool c.isPrimary),
    ("is_foreign_key", .bool c.isForeign), ("nullable", .bool c.nullable)]

/-- A foreign key as data. -/
def ForeignKey.json (fk : ForeignKey) : Json := .object
  [("column", .string fk.column), ("referenced_table", .string fk.target)]

/-- A table as data. -/
def Table.json (t : Table) : Json := .object
  [("name", .string t.name), ("columns", .array (t.columns.map Column.json)),
    ("foreign_keys", .array (t.foreignKeys.map ForeignKey.json)), ("is_pivot", .bool t.isPivot)]

/-- A relation of a model as data. -/
def ModelRelation.json (r : ModelRelation) : Json := .object
  [("method", .string r.method), ("kind", .string r.kind.keyword), ("target", .string r.target)]

/-- A model as data. -/
def Model.json (m : Model) : Json := .object
  [("class", .string m.className), ("table", .string m.tableName),
    ("explicit_table", .bool m.isExplicit),
    ("relations", .array (m.relations.map ModelRelation.json)),
    ("file_path", .string m.path)]

/-- A declared relation as data. -/
def DeclaredRelation.json (r : DeclaredRelation) : Json := .object
  [("fromModel", .string r.fromModel), ("type", .string r.kind.keyword),
    ("toModel", .string r.toModel),
    ("methodName", .string r.method)]

/-- An edge as data. -/
def Edge.json (e : Edge) : Json := .object
  [("id", .string e.id), ("source", .string e.source), ("target", .string e.target),
    ("kind", .string e.kind.keyword), ("origin_column", .ofOption .string e.column)]

/-- A schema as data. -/
def Snapshot.json (s : Snapshot) : Json := .object
  [("tables", .object (s.tables.map Table.json).entries),
    ("models", .object (s.models.map Model.json).entries),
    ("sources", .object (s.sources.map Json.strings).entries)]

end SchemaAtlas
