import SchemaAtlas.Failure
import SchemaAtlas.Relation.Resolve
import SchemaAtlas.Schema.History

/-!
# `SchemaAtlas.Analysis`: what a set of files says

An analysis holds the schema that the files amount to, the edges between its tables, the record of
changes, and how many files of each kind there were.
-/

set_option autoImplicit false

namespace SchemaAtlas

/-- What a file holds. -/
inductive Extract
  | blocks (blocks : List Migration.Block)
  | model (model? : Option Model)

/-- What a file of either readable kind holds. -/
def SourceFile.extract (f : SourceFile) : Except Failure Extract :=
  match f.kind with
  | .migration => .ok (.blocks (Migration.blocks f.content))
  | .model => .ok (.model (Model.ofText? f.content f.path))
  | .other => .error (.nothingToRead f.path)

/-- What a set of files says. -/
structure Analysis where
  snapshot : Snapshot := {}
  edges : List Edge := []
  changes : List Change := []
  migrationCount : Nat := 0
  modelCount : Nat := 0
  deriving DecidableEq, Inhabited

namespace Analysis

/-- What these files say. -/
def ofSources (files : List SourceFile) : Analysis :=
  let history := History.ofSources files
  { snapshot := history.snapshot
    edges := Relation.ofSnapshot history.snapshot
    changes := history.changes
    migrationCount := (SourceFile.ofKind .migration files).length
    modelCount := (SourceFile.ofKind .model files).length }

/-- The number of tables. -/
def tableCount (a : Analysis) : Nat := a.snapshot.tables.size

/-- The number of edges. -/
def relationCount (a : Analysis) : Nat := a.edges.length

end Analysis

end SchemaAtlas
