import SchemaAtlas.Analysis
import SchemaAtlas.Export.Ddl
import SchemaAtlas.Export.Interface
import SchemaAtlas.Export.Script
import SchemaAtlas.Json.Printer
import SchemaAtlas.Migration.File
import SchemaAtlas.Model.Source
import SchemaAtlas.Schema.Record

/-!
# `SchemaAtlas.Export.Mode`: the exports of an analysis

A schema can be had as statements of the database, as interfaces of the page, as classes, as
migrations, as a setup script that writes the classes and migrations, and as data.
-/

set_option autoImplicit false

namespace SchemaAtlas.Export

/-- The forms in which a schema can be had. -/
inductive Mode
  | sql
  | typescript
  | models
  | migrations
  | shell
  | json
  deriving DecidableEq, Repr

namespace Mode

/-- All forms. -/
def all : List Mode := [sql, typescript, models, migrations, shell, json]

/-- The name of a form. -/
def name : Mode → String
  | sql => "sql"
  | typescript => "typescript"
  | models => "models"
  | migrations => "migrations"
  | shell => "shell"
  | json => "json"

/-- The form of a name, in capital or small letters. -/
def ofName (name : String) : Except Failure Mode :=
  let small := Text.lower name
  match all.find? fun mode => mode.name == small with
  | some mode => .ok mode
  | none => .error (.unknownMode small)

end Mode

/-- The names of the exports are those of the forms. -/
theorem exportNames_eq : exportNames = Mode.all.map Mode.name := rfl

/-- A migration for each table, each after those it refers to: path and content. -/
def migrationFiles (now : Moment) (s : Snapshot) : Except Failure (List (String × String)) := do
  let tables ← ordered s
  match Migration.fileNames? now (tables.map Table.name) with
  | some names =>
    .ok ((names.zip tables).map fun m => (Migration.folder ++ "/" ++ m.1, Migration.source m.2))
  | none => .error .calendarEnds

/-- The export of an analysis in one of its forms. Migrations are named from the given moment
on. -/
def render (now : Moment) (a : Analysis) : Mode → Except Failure String
  | .sql => ddl a.snapshot
  | .typescript => .ok (interfaces a.snapshot)
  | .models => .ok (Model.sources a.snapshot a.edges)
  | .migrations => do
    let files ← migrationFiles now a.snapshot
    return Model.separator.intercalate (files.map Prod.snd)
  | .shell => do
    let files ← migrationFiles now a.snapshot
    return script usualTitle (files ++ Model.files a.snapshot a.edges)
  | .json => .ok a.snapshot.json.indented

/-- The export of an analysis under a name. -/
def byName (now : Moment) (a : Analysis) (name : String) : Except Failure String := do
  render now a (← Mode.ofName name)

end SchemaAtlas.Export
