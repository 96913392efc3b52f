import SchemaAtlas.Migration.Alteration
import SchemaAtlas.Model.Class
import SchemaAtlas.Schema.Snapshot
import SchemaAtlas.Source.File

/-!
# `SchemaAtlas.Schema.History`: how a schema comes about

A schema comes about by its migrations, one after another, and then by its models. A table that
is created again starts afresh; an alteration of a table that is not there does nothing. Blocks
of the method that undoes a migration have no part in it.
-/

set_option autoImplicit false

namespace SchemaAtlas

open SchemaAtlas.Migration

/-- A schema and the record of what led to it. -/
structure History where
  snapshot : Snapshot := {}
  changes : List Change := []
  deriving DecidableEq, Inhabited

namespace History

/-- The files of a table with one more at the end. -/
def recordSource (table path : String) (sources : Catalog (List String)) :
    Catalog (List String) :=
  sources.insert table ((sources.get? table).getD [] ++ [path])

/-- The history after a block that creates a table. -/
def create (h : History) (b : Block) (path : String) : History where
  snapshot := { h.snapshot with
    tables := h.snapshot.tables.insert b.table ⟨b.table, b.columns, b.foreignKeys⟩
    sources := recordSource b.table path h.snapshot.sources }
  changes := h.changes ++ [.created b.table]

/-- The history after a block that alters a table. -/
def alter (h : History) (b : Block) (path : String) : History :=
  match h.snapshot.tables.get? b.table with
  | none => h
  | some table =>
    { snapshot := { h.snapshot with
        tables := h.snapshot.tables.insert b.table (table.alter b)
        sources := recordSource b.table path h.snapshot.sources }
      changes := h.changes ++ table.changesOf b }

/-- The history after a block of a file. -/
def applyBlock (path : String) (h : History) (b : Block) : History :=
  if b.reverse then h
  else match b.kind with
    | .create => h.create b path
    | .alter => h.alter b path

/-- The history after a migration. -/
def applyMigration (h : History) (blocks : List Block) (path : String) : History :=
  blocks.foldl (applyBlock path) h

/-- The history after a model. -/
def addModel (h : History) (m : Model) : History where
  snapshot := { h.snapshot with models := h.snapshot.models.insert m.className m }
  changes := h.changes ++ [.modelled m.className]

/-- The history of the migrations among some files, in order of creation, and then of the models
among them. -/
def ofSources (files : List SourceFile) : History :=
  let migrations := SourceFile.chronological (SourceFile.ofKind .migration files)
  let history := migrations.foldl (fun h f => h.applyMigration (blocks f.content) f.path) {}
  ((SourceFile.ofKind .model files).filterMap fun f => Model.ofText? f.content f.path).foldl
  addModel history

end History

end SchemaAtlas
