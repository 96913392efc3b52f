import SchemaAtlas.Catalog
import SchemaAtlas.Schema.Model
import SchemaAtlas.Schema.Table

/-!
# `SchemaAtlas.Schema.Snapshot`: a schema at one moment

A snapshot holds the tables and models by name, and for each table the files that made it what
it is.
-/

set_option autoImplicit false

namespace SchemaAtlas

/-- Tables, models, and for each table the paths of the files that created and altered it. -/
structure Snapshot where
  tables : Catalog Table := .empty
  models : Catalog Model := .empty
  sources : Catalog (List String) := .empty
  deriving DecidableEq, Inhabited

namespace Snapshot

/-- The snapshot of just these tables. -/
def ofTables (tables : List Table) : Snapshot where
  tables := .ofList (tables.map fun t => (t.name, t))

/-- The tables that no model stands for. -/
def orphanTables (s : Snapshot) : List String :=
  s.tables.names.filter fun name => !s.models.values.any fun m => m.tableName == name

/-- The classes whose table is not there. -/
def orphanModels (s : Snapshot) : List String :=
  (s.models.values.filter fun m => !s.tables.contains m.tableName).map Model.className

end Snapshot

end SchemaAtlas
