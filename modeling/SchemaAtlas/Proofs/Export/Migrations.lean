import SchemaAtlas.Export.Mode
import SchemaAtlas.Proofs.Export.Order
import SchemaAtlas.Proofs.Migration.Bundle
import SchemaAtlas.Proofs.Migration.Names

/-!
# `SchemaAtlas.Proofs.Export.Migrations`: the exported migrations, read again

The migrations of a schema are exported as one text, a migration for each table, if its
tables can be put in order and the calendar is long enough for their names
(`migrationFiles_eq`). Read again, the text gives a block for each table, in the order of
the export, and each block has the settled columns and foreign keys of its table
(`unplaced_blocks_render`). `Table.settled` tells how these differ from what the
table has.
-/

set_option autoImplicit false

namespace SchemaAtlas.Export

open SchemaAtlas.Text SchemaAtlas.Migration

/-- The block that makes a settled table, and does nothing else. -/
def settledBlock (t : Table) : Block where
  table := t.name
  kind := .create
  columns := t.settled.columns
  foreignKeys := t.settled.foreignKeys

/-- The migration of a table says that the table is the settled one: what its statements ask
for comes to these columns and keys. -/
theorem sourceBlock_eq {t : Table} (h : t.Regular) : sourceBlock t = settledBlock t := by
  have hcolumns := finalColumns_tableDraft h
  have hkeys := finalForeignKeys_tableDraft h
  rw [sourceBlock, Draft.block, hcolumns, hkeys, tableDraft_eq h.named h.distinct]
  rfl

/-- The migrations of tables in a row, under the given names. -/
def namedMigrations (names : List String) (tables : List Table) : List (String × String) :=
  (names.zip tables).map fun m => (Migration.folder ++ "/" ++ m.1, source m.2)

/-- The contents of the migrations are the sources of their tables, in order, if there are
enough names. -/
theorem map_snd_namedMigrations {names : List String} {tables : List Table}
    (h : tables.length ≤ names.length) :
    (namedMigrations names tables).map Prod.snd = tables.map source := by
  rw [namedMigrations, List.map_map]
  show (names.zip tables).map (source ∘ Prod.snd) = _
  rw [← List.map_map, List.map_snd_zip h]

/-- The migrations of a schema, or why there are none: its tables cannot be put in order, or the
calendar ends before the last of them is named. -/
theorem migrationFiles_eq (now : Moment) {s : Snapshot} {sorted : List Table}
    (h : ordered s = if Orderable s then .ok sorted else .error .tooDeep) :
    migrationFiles now s
      = if Orderable s then
          match fileNames? now (sorted.map Table.name) with
          | some names => .ok (namedMigrations names sorted)
          | none => .error .calendarEnds
        else .error .tooDeep := by
  rw [migrationFiles, h]
  split
  · rfl
  · rfl

/-- The exported text, or why there is none. The order comes before the names, so it is the
order that is missing if both fail. -/
theorem render_migrations (now : Moment) {a : Analysis} {sorted : List Table}
    (h : ordered a.snapshot = if Orderable a.snapshot then .ok sorted else .error .tooDeep) :
    render now a .migrations
      = if Orderable a.snapshot then
          if (fileNames? now (sorted.map Table.name)).isSome then
            .ok (Model.separator.intercalate (sorted.map source))
          else .error .calendarEnds
        else .error .tooDeep := by
  rw [render, migrationFiles_eq now h]
  split
  · cases hnames : fileNames? now (sorted.map Table.name) with
    | none => simp
    | some names =>
        have hlength : sorted.length ≤ names.length := by
          rw [length_fileNames? hnames, List.length_map]
        show Except.ok
          (Model.separator.intercalate ((namedMigrations names sorted).map Prod.snd)) = _
        rw [map_snd_namedMigrations hlength, Option.isSome_some, if_pos rfl]
  · rfl

/-- The exported migrations are read as a block for each table, in the order of
the export: it creates the settled table, on the way forward, and drops and
renames nothing. There are none if the tables cannot be put in order or the calendar
ends before the last of them is named. -/
theorem unplaced_blocks_render (now : Moment) (a : Analysis)
    (h : ∀ t ∈ a.snapshot.tables.values, isName t.name = true ∧ t.Regular) :
    ∃ sorted text,
      ordered a.snapshot = (if Orderable a.snapshot then .ok sorted else .error .tooDeep)
        ∧ render now a .migrations
          = (if Orderable a.snapshot then
              if (fileNames? now (sorted.map Table.name)).isSome then .ok text
              else .error .calendarEnds
            else .error .tooDeep)
        ∧ sorted.Perm a.snapshot.tables.values
        ∧ (blocks text).map Block.unplaced = sorted.map settledBlock := by
  obtain ⟨sorted, hordered, hperm⟩ := exists_ordered a.snapshot
  have hregular : ∀ t ∈ sorted, isName t.name = true ∧ t.Regular :=
    fun t ht => h t (hperm.mem_iff.mp ht)
  refine ⟨sorted, _, hordered, render_migrations now hordered, hperm, ?_⟩
  calc (blocks (Model.separator.intercalate (sorted.map source))).map Block.unplaced
      = sorted.map sourceBlock :=
        unplaced_blocks_intercalate fun t ht => ⟨(hregular t ht).1, (hregular t ht).2.named⟩
    _ = sorted.map settledBlock :=
      List.map_congr_left fun t ht => sourceBlock_eq (hregular t ht).2

/-- A schema of two tables, the first of which refers to the second. -/
def blog : Analysis where
  snapshot := .ofTables
    [{ name := "posts"
       columns := [{ name := "user_id", type := .foreignId, isForeign := true },
         { name := "title", type := .string, nullable := true },
         { name := "number", type := .id, isPrimary := true },
         { name := "created_at", type := .timestamp }]
       foreignKeys := [⟨"user_id", "users"⟩] },
      { name := "users", columns := [{ name := "email", type := .string }], foreignKeys := [] }]

/-- A post refers to its user, so users are exported first. The posts come back with their
identifier in front and without the audit column. -/
theorem unplaced_blocks_render_blog :
    ∃ text, render ⟨2024, 1, 31, 23, 59, 59⟩ blog .migrations = .ok text
      ∧ (blocks text).map Block.unplaced
        = [{ table := "users"
             kind := .create
             columns := [{ name := "id", type := .id, isPrimary := true },
               { name := "email", type := .string }] },
           { table := "posts"
             kind := .create
             columns := [{ name := "number", type := .id, isPrimary := true },
               { name := "user_id", type := .foreignId, isForeign := true },
               { name := "title", type := .string, nullable := true }]
             foreignKeys := [⟨"user_id", "users"⟩] }] := by
  have hregular : ∀ t ∈ blog.snapshot.tables.values, isName t.name = true ∧ t.Regular := by
    decide +kernel
  have horderable : Orderable blog.snapshot := by decide +kernel
  obtain ⟨sorted, text, hordered, hrender, -, hblocks⟩ :=
    unplaced_blocks_render ⟨2024, 1, 31, 23, 59, 59⟩ blog hregular
  rw [if_pos horderable] at hordered hrender
  -- users come first, as posts refer to them
  obtain rfl : blog.snapshot.tables.values.reverse = sorted := by
    have hvalues : ordered blog.snapshot = .ok blog.snapshot.tables.values.reverse := by
      decide +kernel
    exact Except.ok.inj (hvalues.symm.trans hordered)
  have hnames : (fileNames? ⟨2024, 1, 31, 23, 59, 59⟩
      (blog.snapshot.tables.values.reverse.map Table.name)).isSome = true := by
    decide +kernel
  refine ⟨text, ?_, ?_⟩
  · rw [hrender, if_pos hnames]
  · rw [hblocks]
    decide +kernel

end SchemaAtlas.Export
