import SchemaAtlas.Proofs.Catalog
import SchemaAtlas.Proofs.Migration.Alteration
import SchemaAtlas.Proofs.Migration.Draft
import SchemaAtlas.Schema.History

/-!
# `SchemaAtlas.Proofs.Schema.History`: what files add to a schema

The tables of a schema come from the migrations alone and its models from the
models alone, so what the one kind of file says has no part in what the other
gives (`snapshot_ofSources`).

One block enters one table and its file, or nothing (`snapshot_applyBlock`). So what a
history tells of a table is what the blocks of that table made of it, one after
another (`told_applyMigration`, `get?_ofMigrations`).
-/

set_option autoImplicit false

namespace SchemaAtlas.History

open SchemaAtlas.Migration

/-! ### Models -/

/-- The models that some files hold. -/
def modelsIn (files : List SourceFile) : List Model :=
  (SourceFile.ofKind .model files).filterMap fun f => Model.ofText? f.content f.path

/-- Models are entered by their class. -/
def enterModels (c : Catalog Model) (models : List Model) : Catalog Model :=
  models.foldl (fun c m => c.insert m.className m) c

/-- The history of the migrations among some files. -/
def ofMigrations (files : List SourceFile) : History :=
  (SourceFile.chronological (SourceFile.ofKind .migration files)).foldl
    (fun h f => h.applyMigration (blocks f.content) f.path) {}

/-- Adding models one after another enters them among the models of the snapshot and changes
nothing else in it. -/
theorem snapshot_foldl_addModel (models : List Model) (h : History) :
    (models.foldl addModel h).snapshot
      = { h.snapshot with models := enterModels h.snapshot.models models } := by
  induction models generalizing h with
  | nil => rfl
  | cons m models ih =>
      rw [List.foldl_cons, ih, addModel, enterModels, enterModels, List.foldl_cons]

/-- No block has a part in the models: it changes a table, its files and nothing else. -/
theorem models_applyBlock (path : String) (h : History) (b : Block) :
    (h.applyBlock path b).snapshot.models = h.snapshot.models := by
  rw [applyBlock]
  split
  · rfl
  · split
    · rfl
    · rw [alter]
      split
      · rfl
      · rfl

/-- Nor has a migration, since it is applied block by block. -/
theorem models_applyMigration (path : String) (bs : List Block) (h : History) :
    (h.applyMigration bs path).snapshot.models = h.snapshot.models :=
  apply_foldl (f := applyBlock path) (g := fun h : History => h.snapshot.models)
    (fun b _ h => models_applyBlock path h b) h

/-- So the history of all migrations has no models in it. -/
theorem models_ofMigrations (files : List SourceFile) :
    (ofMigrations files).snapshot.models = .empty := by
  rw [ofMigrations]
  exact apply_foldl (g := fun h : History => h.snapshot.models)
    (fun f _ h => models_applyMigration f.path _ h) {}

/-- A schema has its tables and their sources from the migrations, and its models from the
models. -/
theorem snapshot_ofSources (files : List SourceFile) :
    (ofSources files).snapshot
      = { tables := (ofMigrations files).snapshot.tables
          models := enterModels .empty (modelsIn files)
          sources := (ofMigrations files).snapshot.sources } := by
  show ((modelsIn files).foldl addModel (ofMigrations files)).snapshot = _
  rw [snapshot_foldl_addModel, models_ofMigrations]

/-! ### New tables -/

/-- The history with a table that a file creates. -/
def withTable (path : String) (h : History) (t : Table) : History where
  snapshot := { h.snapshot with
    tables := h.snapshot.tables.insert t.name t
    sources := recordSource t.name path h.snapshot.sources }
  changes := h.changes ++ [.created t.name]

/-- Distinct new tables are entered one after another, each with its file, behind the tables
that were there. -/
theorem entries_foldl_withTable (batch : List (String × Table))
    (hdistinct : (batch.map fun m => m.2.name).Nodup) (h : History)
    (htables : ∀ m ∈ batch, m.2.name ∉ h.snapshot.tables.names)
    (hsources : ∀ m ∈ batch, m.2.name ∉ h.snapshot.sources.names) :
    (batch.foldl (fun h m => h.withTable m.1 m.2) h).snapshot.tables.entries
        = h.snapshot.tables.entries ++ batch.map (fun m => (m.2.name, m.2))
      ∧ (batch.foldl (fun h m => h.withTable m.1 m.2) h).snapshot.sources.entries
        = h.snapshot.sources.entries ++ batch.map fun m => (m.2.name, [m.1]) := by
  induction batch generalizing h with
  | nil => simp
  | cons m batch ih =>
      rw [List.map_cons, List.nodup_cons] at hdistinct
      have hm := List.mem_cons_self (a := m) (l := batch)
      have hpath : h.snapshot.sources.get? m.2.name = none :=
        (Catalog.get?_eq_none_iff _ _).mpr (hsources m hm)
      -- the first table is new, and the tables behind it have other names
      have hnew : ∀ {α : Type} (c : Catalog α) (a : α), (∀ n ∈ m :: batch, n.2.name ∉ c.names) →
          ∀ n ∈ batch, n.2.name ∉ (c.insert m.2.name a).names := by
        intro α c a hc n hn
        rw [Catalog.names_insert, if_neg (hc m hm), List.mem_append, not_or, List.mem_singleton]
        exact ⟨hc n (List.mem_cons_of_mem m hn),
          fun heq => hdistinct.1 (List.mem_map.mpr ⟨n, hn, heq⟩)⟩
      have hrest := ih hdistinct.2 (h.withTable m.1 m.2) (hnew _ _ htables) (hnew _ _ hsources)
      have htableEntries := Catalog.entries_insert_of_notMem (htables m hm) m.2
      have hsourceEntries := Catalog.entries_insert_of_notMem (hsources m hm)
        ((h.snapshot.sources.get? m.2.name).getD [] ++ [m.1])
      rw [List.foldl_cons, hrest.1, hrest.2, withTable]
      constructor
      · rw [htableEntries, List.append_assoc]
        rfl
      · rw [recordSource, hsourceEntries, hpath, List.append_assoc]
        rfl

/-! ### The story of one table -/

/-- The blocks among some migrations that have a part in a table. -/
def blocksFor (table : String) (migrations : List SourceFile) : List Block :=
  (migrations.flatMap fun f => blocks f.content).filter fun b => !b.reverse && b.table == table

/-- The blocks for a table are those in the first migration, in their order, and then those
in the others. -/
theorem blocksFor_cons (table : String) (f : SourceFile) (migrations : List SourceFile) :
    blocksFor table (f :: migrations)
      = (blocks f.content).filter (fun b => !b.reverse && b.table == table)
        ++ blocksFor table migrations := by
  rw [blocksFor, List.flatMap_cons, List.filter_append, blocksFor]

/-- The blocks for a table in two lists of migrations are those in the one and then those in
the other. -/
theorem blocksFor_append (table : String) (before after : List SourceFile) :
    blocksFor table (before ++ after) = blocksFor table before ++ blocksFor table after := by
  rw [blocksFor, List.flatMap_append, List.filter_append, blocksFor, blocksFor]

/-- The blocks that make a table what it is, in order. -/
def story (table : String) (files : List SourceFile) : List Block :=
  blocksFor table (SourceFile.chronological (SourceFile.ofKind .migration files))

/-- What a table is after one more block. -/
def next (table? : Option Table) (b : Block) : Option Table :=
  match b.kind with
  | .create => some ⟨b.table, b.columns, b.foreignKeys⟩
  | .alter => table?.map fun t => t.alter b

/-- Nothing is made of a table only if it is not there, since no block takes a table
away. -/
theorem eq_none_of_next {table? : Option Table} {b : Block} (h : next table? b = none) :
    table? = none := by
  rw [next] at h
  cases hkind : b.kind with
  | create => simp [hkind] at h
  | alter => simpa [hkind] using h

/-- A block of the way forward enters what it makes of its table, together with its file,
and does nothing if it makes nothing. -/
theorem snapshot_applyBlock (path : String) (h : History) {b : Block}
    (hforward : b.reverse = false) :
    (h.applyBlock path b).snapshot
      = match next (h.snapshot.tables.get? b.table) b with
        | none => h.snapshot
        | some t => { h.snapshot with
            tables := h.snapshot.tables.insert b.table t
            sources := recordSource b.table path h.snapshot.sources } := by
  rw [applyBlock, if_neg (by simp [hforward]), next]
  cases b.kind with
  | create => rfl
  | alter =>
      show (h.alter b path).snapshot = _
      rw [alter]
      cases h.snapshot.tables.get? b.table with
      | none => rfl
      | some t => rfl

/-- What a history tells of a table: the table, and its files. -/
def told (h : History) (table : String) : Option Table × Option (List String) :=
  (h.snapshot.tables.get? table, h.snapshot.sources.get? table)

/-- What is told of a table after one more block of it. A block that finds nothing to
alter leaves no trace of its file. -/
def retold (path : String) (tale : Option Table × Option (List String)) (b : Block) :
    Option Table × Option (List String) :=
  match next tale.1 b with
  | none => tale
  | some t => (some t, some (tale.2.getD [] ++ [path]))

/-- What a block does to the tale of a table does to the table what `next` says; the list of
files goes along. -/
theorem fst_retold (path : String) (tale : Option Table × Option (List String)) (b : Block) :
    (retold path tale b).1 = next tale.1 b := by
  rw [retold]
  cases hnext : next tale.1 b with
  | none => exact eq_none_of_next hnext
  | some t => rfl

/-- A block changes what is told of its own table, and of no other, and a block that belongs
to the way back changes nothing. -/
theorem told_applyBlock (path : String) (h : History) (b : Block) (table : String) :
    (h.applyBlock path b).told table
      = if !b.reverse && b.table == table then retold path (h.told table) b
        else h.told table := by
  cases hreverse : b.reverse with
  | true =>
      rw [applyBlock, if_pos hreverse]
      rfl
  | false =>
      have hpart : (!false && b.table == table) = true ↔ b.table = table := by simp
      rw [told, snapshot_applyBlock path h hreverse]
      by_cases htable : b.table = table
      · rw [if_pos (hpart.mpr htable), ← htable, retold, told]
        cases next (h.snapshot.tables.get? b.table) b with
        | none => rfl
        | some t => simp only [recordSource, Catalog.get?_insert, if_true]
      · rw [if_neg (mt hpart.mp htable), told]
        cases next (h.snapshot.tables.get? b.table) b with
        | none => rfl
        | some t => simp only [recordSource, Catalog.get?_insert, if_neg (Ne.symm htable)]

/-- After a migration, it is what the migration's blocks of the table make of it. -/
theorem told_applyMigration (h : History) (bs : List Block) (path table : String) :
    (h.applyMigration bs path).told table
      = (bs.filter fun b => !b.reverse && b.table == table).foldl (retold path)
        (h.told table) := by
  rw [applyMigration]
  induction bs generalizing h with
  | nil => rfl
  | cons b bs ih =>
      rw [List.foldl_cons, ih, told_applyBlock, List.filter_cons]
      split
      · rw [List.foldl_cons]
      · rfl

/-- After a migration, a table is what the migration's forward blocks for it make of the
table there was. -/
theorem get?_applyMigration (h : History) (bs : List Block) (path table : String) :
    (h.applyMigration bs path).snapshot.tables.get? table
      = (bs.filter fun b => !b.reverse && b.table == table).foldl next
        (h.snapshot.tables.get? table) := by
  have htold := congrArg Prod.fst (told_applyMigration h bs path table)
  rw [← List.foldl_hom Prod.fst (fun tale b => (fst_retold path tale b).symm)] at htold
  exact htold

/-- A table is what its story makes of it, beginning from no table at all. -/
theorem get?_ofMigrations (files : List SourceFile) (table : String) :
    (ofMigrations files).snapshot.tables.get? table = (story table files).foldl next none := by
  have hfiles : ∀ (migrations : List SourceFile) (h : History),
      (migrations.foldl (fun h f => h.applyMigration (blocks f.content) f.path)
        h).snapshot.tables.get? table
        = (blocksFor table migrations).foldl next (h.snapshot.tables.get? table) := by
    intro migrations h
    induction migrations generalizing h with
    | nil => rfl
    | cons f migrations ih =>
        rw [List.foldl_cons, ih, get?_applyMigration, blocksFor_cons, List.foldl_append]
  exact hfiles _ {}

/-- The table that a block creates. -/
def made (b : Block) : Table :=
  ⟨b.table, b.columns, b.foreignKeys⟩

/-- A block that creates makes its own table, whether or not there was one before. -/
theorem next_of_create {b : Block} (h : b.kind = .create) (table? : Option Table) :
    next table? b = some (made b) := by
  rw [next, h]
  rfl

/-- A block that alters makes an altered table of the one there was, and nothing where there
was none. -/
theorem next_of_alter {b : Block} (h : b.kind = .alter) (table? : Option Table) :
    next table? b = table?.map fun t => t.alter b := by
  rw [next, h]

/-- Holds of blocks of which each alteration suits what the blocks before it make of the
table. -/
def Along (suits : Table → Block → Prop) : Option Table → List Block → Prop
  | _, [] => True
  | table?, b :: later =>
    (b.kind = .alter → ∀ t ∈ table?, suits t b) ∧ Along suits (next table? b) later

instance decidableAlong (suits : Table → Block → Prop) [∀ t b, Decidable (suits t b)] :
    (table? : Option Table) → (bs : List Block) → Decidable (Along suits table? bs)
  | _, [] => inferInstanceAs (Decidable True)
  | table?, b :: later =>
    haveI := decidableAlong suits (next table? b) later
    inferInstanceAs
      (Decidable ((b.kind = .alter → ∀ t ∈ table?, suits t b)
        ∧ Along suits (next table? b) later))

/-- What holds of the tables that some blocks create, and outlasts alterations that suit
it, holds of what the blocks make. -/
theorem of_foldl_next_of_along {p : Table → Prop} {suits : Table → Block → Prop} {bs : List Block}
    {table? : Option Table} (ht : ∀ t ∈ table?, p t)
    (hcreate : ∀ b ∈ bs, b.kind = .create → p (made b))
    (halter : ∀ b ∈ bs, ∀ t, p t → suits t b → p (t.alter b)) (hsuits : Along suits table? bs) :
    ∀ t ∈ bs.foldl next table?, p t := by
  induction bs generalizing table? with
  | nil => exact ht
  | cons b bs ih =>
      refine ih ?_ (fun d hd => hcreate d (List.mem_cons_of_mem b hd))
        (fun d hd => halter d (List.mem_cons_of_mem b hd)) hsuits.2
      cases hkind : b.kind with
      | create =>
          rw [next_of_create hkind]
          rintro _ ⟨⟩
          exact hcreate b List.mem_cons_self hkind
      | alter =>
          rw [next_of_alter hkind]
          intro t htb
          obtain ⟨u, hu, rfl⟩ := Option.map_eq_some_iff.mp htb
          exact halter b List.mem_cons_self u (ht u hu) (hsuits.1 hkind u hu)

/-- What suits every table suits the tables along the way, so a condition on the blocks
alone is enough. -/
theorem along_of_forall {suits : Table → Block → Prop} {bs : List Block}
    (h : ∀ b ∈ bs, ∀ t, suits t b)
    (table? : Option Table) : Along suits table? bs := by
  induction bs generalizing table? with
  | nil => trivial
  | cons b bs ih =>
      exact ⟨fun _ t _ => h b List.mem_cons_self t,
        ih (fun d hd => h d (List.mem_cons_of_mem b hd)) _⟩

/-- What holds of the tables that some blocks create, and outlasts alterations, holds of
what the blocks make. -/
theorem of_foldl_next {p : Table → Prop} {bs : List Block} {table? : Option Table}
    (ht : ∀ t ∈ table?, p t)
    (hcreate : ∀ b ∈ bs, b.kind = .create → p (made b))
    (halter : ∀ b ∈ bs, ∀ t, p t → p (t.alter b)) :
    ∀ t ∈ bs.foldl next table?, p t :=
  of_foldl_next_of_along ht hcreate (fun b hb t ht _ => halter b hb t ht)
    (@along_of_forall (fun _ _ => True) bs (fun _ _ _ => trivial) table?)

/-- The blocks in the story of a table are about that table, even where one file has blocks
for several. -/
theorem table_of_mem_story {table : String} {files : List SourceFile} {b : Block}
    (hb : b ∈ story table files) : b.table = table := by
  have hpart := (List.mem_filter.mp hb).2
  rw [Bool.and_eq_true, beq_iff_eq] at hpart
  exact hpart.2

section Story

variable {files : List SourceFile} {table : String} {t : Table}
  (h : (ofMigrations files).snapshot.tables.get? table = some t)

include h

/-- A table of the schema goes by its own name, so it is found where one looks for it. -/
theorem name_of_get? : t.name = table := by
  rw [get?_ofMigrations] at h
  exact of_foldl_next (p := fun t => t.name = table) (fun _ hu => by cases hu)
    (fun b hb _ => table_of_mem_story hb) (fun b _ t ht => (Table.name_alter t b).trans ht) t h

/-- No name stands twice among the columns of a table of the schema. -/
theorem nodup_names_of_get? : (t.columns.map Column.name).Nodup := by
  have hstory : ∀ b ∈ story table files, (b.columns.map Column.name).Nodup := by
    intro b hb
    obtain ⟨f, -, hf⟩ := List.mem_flatMap.mp (List.mem_filter.mp hb).1
    exact nodup_columns_of_mem_blocks hf
  rw [get?_ofMigrations] at h
  exact of_foldl_next (p := fun t => (t.columns.map Column.name).Nodup) (fun _ hu => by cases hu)
    (fun b hb _ => hstory b hb) (fun b _ t ht => Table.nodup_names_alter ht b) t h

end Story

end SchemaAtlas.History
