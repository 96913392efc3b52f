import SchemaAtlas.Proofs.List
import SchemaAtlas.Proofs.Migration.Reread
import SchemaAtlas.Proofs.Migration.Rewritten
import SchemaAtlas.Proofs.Session.Rewrite

/-!
# `SchemaAtlas.Proofs.Export.ForeignKeys`: which foreign keys an export keeps

A foreign key is written with the statement of its column, or in a statement of its
own, or not at all. `Table.SaysKey` tells which keys are written: the last one on a
column which is not the type column of a reference to any table's rows and, if it is
of universal identifiers, is flagged.

For every table that files amount to, the exported migration is read as a block that
creates the table and has just these keys on the columns that it declares
(`mem_foreignKeys_exported_iff`).
-/

set_option autoImplicit false

namespace SchemaAtlas

open SchemaAtlas.Text SchemaAtlas.Scan SchemaAtlas.Migration

/-- Holds of a column that a table declares by a statement of the column's own kind: it is
not the identifier of the table and no audit column. -/
structure Table.Declares (t : Table) (c : Column) : Prop where
  mem : c ∈ t.columns
  notIdentifier : t.columns.find? (fun c => c.type == .id) ≠ some c
  notAudit : c.name ∉ Naming.auditColumns

/-- Holds of a foreign key on a column that the statements of the table say. -/
structure Table.SaysKey (t : Table) (c : Column) (fk : ForeignKey) : Prop where
  /-- Of several keys on a column, only the last is said. -/
  last : t.keyOn? c = some fk
  /-- A universal identifier says its key if it is flagged. -/
  flagged : c.type = .uuid → c.isForeign = true
  /-- The type column of a reference has no statement of its own. -/
  apart : t.isMorphType c = false

instance (t : Table) (c : Column) : Decidable (t.Declares c) :=
  decidable_of_iff (c ∈ t.columns ∧ t.columns.find? (fun c => c.type == .id) ≠ some c
      ∧ c.name ∉ Naming.auditColumns)
    ⟨fun ⟨hmem, hidentifier, haudit⟩ => ⟨hmem, hidentifier, haudit⟩,
      fun h => ⟨h.mem, h.notIdentifier, h.notAudit⟩⟩

instance (t : Table) (c : Column) (fk : ForeignKey) : Decidable (t.SaysKey c fk) :=
  decidable_of_iff
    (t.keyOn? c = some fk ∧ (c.type = .uuid → c.isForeign = true) ∧ t.isMorphType c = false)
    ⟨fun ⟨hlast, hflagged, hapart⟩ => ⟨hlast, hflagged, hapart⟩,
      fun h => ⟨h.last, h.flagged, h.apart⟩⟩

namespace Migration

variable {t : Table} {c : Column} {fk : ForeignKey}

/-! ### Columns with statements -/

/-- A column that a statement of its own is written for is not the type half of a pair,
which is declared with the other half. -/
theorem isMorphType_of_mem_statedColumns (hc : c ∈ t.statedColumns) :
    t.isMorphType c = false := by
  have hcond := (List.mem_filter.mp hc).2
  rw [Bool.and_eq_true, Bool.not_eq_true'] at hcond
  simpa using hcond.2

/-- What is declared has a statement unless it comes with the other half of a reference. -/
theorem mem_statedColumns_of_declares (h : t.Declares c) (hhalf : t.isMorphType c = false) :
    c ∈ t.statedColumns := by
  refine List.mem_filter.mpr ⟨mem_eraseP_of_find?_ne h.mem h.notIdentifier, ?_⟩
  have haudit : Naming.auditColumns.contains c.name = false := by simpa using h.notAudit
  rw [haudit, hhalf]
  rfl

/-- A column with a statement of its own that does not count up by itself is one of the
table's own columns. -/
theorem mem_ownColumns_of_mem_statedColumns (hc : c ∈ t.statedColumns) (hid : c.type ≠ .id) :
    c ∈ t.ownColumns := by
  rw [← filter_statedColumns]
  exact List.mem_filter.mpr ⟨hc, by simpa using hid⟩

/-! ### Keys with statements -/

/-- A column with a key has a last one, and this one is on the column too. -/
theorem exists_keyOn?_of_mem (hfk : fk ∈ t.foreignKeys) (hcolumn : fk.column = c.name) :
    ∃ last, t.keyOn? c = some last ∧ last.column = c.name := by
  cases hlast : t.keyOn? c with
  | none =>
      have hnone := List.find?_eq_none.mp hlast fk (List.mem_reverse.mpr hfk)
      exact absurd (beq_iff_eq.mpr hcolumn) hnone
  | some last => exact ⟨last, rfl, beq_iff_eq.mp (mem_of_findLast?_eq_some hlast).2⟩

/-- The key that comes with the declaration of a column is the last one on it. -/
theorem carriedKey?_of_keyOn? {last : ForeignKey} (hlast : t.keyOn? c = some last)
    (hcolumn : last.column = c.name) :
    t.carriedKey? c = if carriesKey c (some last) then some last else none := by
  rw [Table.carriedKey?, hlast, ← hcolumn]
  rfl

section Written

variable (hn : Named t.columns t.foreignKeys) (hd : (t.columns.map Column.name).Nodup)

include hn hd

/-- A key that is read on a column is the one that comes with its declaration, or the one
that is stated for it. -/
theorem mem_foreignKeys_extracted_iff (hc : c ∈ t.columns) (hcolumn : fk.column = c.name) :
    fk ∈ (extracted t).foreignKeys
      ↔ (c ∈ t.ownColumns ∧ t.carriedKey? c = some fk) ∨ c ∈ t.statedColumns
        ∧ t.statedKey? c = some fk := by
  show fk ∈ (tableDraft t).finalForeignKeys ↔ _
  rw [finalForeignKeys_tableDraft_eq hn hd, List.mem_append, List.mem_filterMap, Table.statedKeys,
    List.mem_filterMap]
  constructor
  · rintro (⟨d, hdm, hkey⟩ | ⟨d, hdm, hkey⟩)
    · obtain rfl : d = c := List.inj_on_of_nodup_map hd (mem_columns_of_mem_ownColumns hdm) hc
        ((column_of_carriedKey? d fk hkey).1.symm.trans hcolumn)
      exact .inl ⟨hdm, hkey⟩
    · obtain rfl : d = c := List.inj_on_of_nodup_map hd (mem_columns_of_mem_statedColumns hdm) hc
        ((column_of_statedKey? d fk hkey).1.symm.trans hcolumn)
      exact .inr ⟨hdm, hkey⟩
  · rintro (⟨hown, hkey⟩ | ⟨hstated, hkey⟩)
    · exact .inl ⟨c, hown, hkey⟩
    · exact .inr ⟨c, hstated, hkey⟩

/-- The keys on declared columns that come back are those that the statements say, be it
with the column or in a constraint apart. -/
theorem mem_foreignKeys_extracted_iff_saysKey (hc : t.Declares c) (hfk : fk ∈ t.foreignKeys)
    (hcolumn : fk.column = c.name) : fk ∈ (extracted t).foreignKeys ↔ t.SaysKey c fk := by
  obtain ⟨last, hlast, hname⟩ := exists_keyOn?_of_mem hfk hcolumn
  rw [mem_foreignKeys_extracted_iff hn hd hc.mem hcolumn, carriedKey?_of_keyOn? hlast hname,
    Table.statedKey?]
  constructor
  · -- a key that is said comes with a declaration, which a universal identifier has if flagged,
    -- or apart
    rintro (⟨hown, hkey⟩ | ⟨hstated, hkey⟩)
    · split at hkey
      · rename_i hcarries
        refine ⟨hlast.trans hkey, fun huuid => ?_,
          isMorphType_of_mem_statedColumns (mem_statedColumns_of_mem_ownColumns hown)⟩
        simpa [carriesKey, huuid] using hcarries
      · cases hkey
    · split at hkey
      · cases hkey
      · rename_i htype
        exact ⟨hkey, fun huuid => absurd (.inr huuid) htype,
          isMorphType_of_mem_statedColumns hstated⟩
  · intro h
    have hstated := mem_statedColumns_of_declares hc h.apart
    obtain rfl : last = fk := Option.some.inj (hlast.symm.trans h.last)
    by_cases htype : c.type = .foreignId ∨ c.type = .uuid
    · -- the column's own statement carries the key
      have hid : c.type ≠ .id := by
        rcases htype with htype | htype
        · simp [htype]
        · simp [htype]
      have hcarries : carriesKey c (some last) = true := by
        rcases htype with htype | huuid
        · simp [carriesKey, htype]
        · simp [carriesKey, huuid, h.flagged huuid]
      exact .inl ⟨mem_ownColumns_of_mem_statedColumns hstated hid, if_pos hcarries⟩
    · exact .inr ⟨hstated, by rw [if_neg htype, hlast]⟩

end Written

end Migration

/-! ### Tables of a schema -/

namespace History

variable {files : List SourceFile} {table : String} {t : Table}

/-- The tables of a schema have names of word characters, as the heads that create and alter
them can hold no others. -/
theorem isName_of_get? (h : (ofMigrations files).snapshot.tables.get? table = some t) :
    isName t.name = true := by
  have hstory : ∀ b ∈ story table files, isName b.table = true := by
    intro b hb
    obtain ⟨f, -, hf⟩ := List.mem_flatMap.mp (List.mem_filter.mp hb).1
    obtain ⟨c, hc, rfl⟩ := List.mem_map.mp hf
    exact isName_table_of_mem hc
  rw [get?_ofMigrations] at h
  exact of_foldl_next (p := fun t => isName t.name = true) (fun _ hu => by cases hu)
    (fun b hb _ => hstory b hb) (fun b _ t ht => (Table.name_alter t b).symm ▸ ht) t h

/-- The exported migration of a table that files amount to is read as one block, which
creates the table on the way forward. Of the keys on the columns that the table declares,
it has those that the statements say. -/
theorem mem_foreignKeys_exported_iff
    (ht : (Analysis.ofSources files).snapshot.tables.get? table = some t)
    (hn : Named t.columns t.foreignKeys) :
    ∃ b, blocks (source t) = [b] ∧ b.kind = .create ∧ b.table = table ∧ b.reverse = false
      ∧ ∀ c, t.Declares c → ∀ fk ∈ t.foreignKeys, fk.column = c.name →
        (fk ∈ b.foreignKeys ↔ t.SaysKey c fk) := by
  have hget : (ofMigrations files).snapshot.tables.get? table = some t := by
    rwa [Analysis.ofSources, snapshot_ofSources] at ht
  obtain ⟨b, hb, hunplaced⟩ := exists_blocks_source_eq ⟨isName_of_get? hget, hn⟩
  have htable : b.table = t.name := congrArg Block.table hunplaced
  refine ⟨b, hb, congrArg Block.kind hunplaced, htable.trans (name_of_get? hget),
    congrArg Block.reverse hunplaced, fun c hc fk hfk hcolumn => ?_⟩
  have hkeys : b.foreignKeys = (extracted t).foreignKeys := congrArg Block.foreignKeys hunplaced
  rw [hkeys]
  exact mem_foreignKeys_extracted_iff_saysKey hn (nodup_names_of_get? hget) hc hfk hcolumn

/-- A migration with a key of each kind: with a foreign identifier, with a universal one,
and stated apart. -/
def crewMigration : SourceFile :=
  ⟨"1_crews.php", "1_crews.php",
    "Schema::create('crews',function(Blueprint $t)\x7b$t->foreignId('ship_id')->constrained();"
      ++ "$t->foreignUuid('port_id');$t->integer('rank');$t->foreign('rank')->on('ranks');\x7d);",
    .migration⟩

/-- The closure that creates the table. -/
def crewClosure : Closure := ⟨⟨.create, "crews", "t"⟩, 46, 166⟩

/-- A crew has a key of each kind that is said: on a reference, on a column of another type,
and on one that is no reference by name. All three come back. -/
theorem mem_foreignKeys_exported_iff_crews :
    ∃ t b, (Analysis.ofSources [crewMigration]).snapshot.tables.get? "crews" = some t
      ∧ blocks (source t) = [b]
      ∧ ∀ fk ∈ ([⟨"ship_id", "ships"⟩, ⟨"port_id", "ports"⟩, ⟨"rank", "ranks"⟩] : List
        ForeignKey),
        fk ∈ b.foreignKeys := by
  let ship : Column := { name := "ship_id", type := .foreignId, isForeign := true }
  let port : Column := { name := "port_id", type := .uuid, isForeign := true }
  let rank : Column := { name := "rank", type := .integer, isForeign := true }
  let keys : List (Column × ForeignKey) :=
    [(ship, ⟨"ship_id", "ships"⟩), (port, ⟨"port_id", "ports"⟩), (rank, ⟨"rank", "ranks"⟩)]
  let t : Table := ⟨"crews", keys.map Prod.fst, keys.map Prod.snd⟩
  have hmakes :=
    of_ofList_append (t := crewMigration.content) (p := fun cs => Session.Makes cs t crewClosure)
    rfl rfl rfl (by decide +kernel)
  have ht := Session.get?_ofSources_singleton rfl hmakes
  obtain ⟨b, hb, -, -, -, hkeys⟩ :=
    mem_foreignKeys_exported_iff ht ⟨by decide +kernel, by decide +kernel⟩
  have hsaid : ∀ m ∈ keys, t.Declares m.1 ∧ m.2.column = m.1.name ∧ t.SaysKey m.1 m.2 := by
    decide +kernel
  refine ⟨t, b, ht, hb, fun fk hfk => ?_⟩
  obtain ⟨m, hm, rfl⟩ : ∃ m ∈ keys, m.2 = fk := List.mem_map.mp hfk
  obtain ⟨hdeclares, hcolumn, hsays⟩ := hsaid m hm
  exact (hkeys m.1 hdeclares m.2 (List.mem_map_of_mem hm) hcolumn).mpr hsays

/-- Holds of a key on a declared column that a table has, and the exported migration of the
table has not. -/
def LosesKey (files : List SourceFile) (table : String) (fk : ForeignKey) : Prop :=
  ∃ t, (Analysis.ofSources files).snapshot.tables.get? table = some t ∧ fk ∈ t.foreignKeys
    ∧ (∃ c, t.Declares c ∧ fk.column = c.name) ∧ ∀ b ∈ blocks (source t), fk ∉ b.foreignKeys

/-- A key that no statement says is lost: the schema of the files has it, and the block of
its exported migration has not. -/
theorem losesKey_of_not_saysKey
    (ht : (Analysis.ofSources files).snapshot.tables.get? table = some t)
    (hn : Named t.columns t.foreignKeys) {c : Column} (hc : t.Declares c) {fk : ForeignKey}
    (hfk : fk ∈ t.foreignKeys) (hcolumn : fk.column = c.name) (h : ¬t.SaysKey c fk) :
    LosesKey files table fk := by
  have hget : (ofMigrations files).snapshot.tables.get? table = some t := by
    rwa [Analysis.ofSources, snapshot_ofSources] at ht
  refine ⟨t, ht, hfk, ⟨c, hc, hcolumn⟩, fun b hb => ?_⟩
  obtain ⟨d, hd, hunplaced⟩ := exists_blocks_source_eq ⟨isName_of_get? hget, hn⟩
  rw [hd, List.mem_singleton] at hb
  have hkeys : b.foreignKeys = (extracted t).foreignKeys :=
    hb ▸ congrArg Block.foreignKeys hunplaced
  rw [hkeys, mem_foreignKeys_extracted_iff_saysKey hn (nodup_names_of_get? hget) hc hfk hcolumn]
  exact h

/-- A migration that states a key on a column of universal identifiers in an alteration. -/
def ownerMigration : SourceFile :=
  ⟨"1_pets.php", "1_pets.php",
    "Schema::create('pets',function(Blueprint $t)\x7b$t->id();$t->uuid('owner_id');\x7d);"
      ++ "Schema::table('pets',function(Blueprint $t)\x7b$t->foreign('owner_id')->on('users');\x7d);",
    .migration⟩

/-- The closure that creates the table. -/
def ownerClosure : Closure := ⟨⟨.create, "pets", "t"⟩, 45, 75⟩

/-- A migration that states a key on the type column of a reference to any table's rows. -/
def itemMigration : SourceFile :=
  ⟨"1_tags.php", "1_tags.php",
    "Schema::create('tags',function(Blueprint $t)\x7b$t->id();$t->morphs('item');"
      ++ "$t->foreign('item_type')->on('kinds');\x7d);",
    .migration⟩

/-- The closure that creates the table. -/
def itemClosure : Closure := ⟨⟨.create, "tags", "t"⟩, 45, 111⟩

/-- Both keys are lost: the one on a universal identifier whose column is not flagged, and
the one on the type half of a pair. -/
theorem losesKey_owner_item :
    LosesKey [ownerMigration] "pets" ⟨"owner_id", "users"⟩
      ∧ LosesKey [itemMigration] "tags" ⟨"item_type", "kinds"⟩ := by
  let id : Column := { name := "id", type := .id, isPrimary := true }
  let owner : Column := { name := "owner_id", type := .uuid }
  let itemId : Column := { name := "item_id", type := .unsignedBigInteger, isForeign := true }
  let itemType : Column := { name := "item_type", type := .string, isForeign := true }
  let pets : Table := ⟨"pets", [id, owner], [⟨"owner_id", "users"⟩]⟩
  let tags : Table := ⟨"tags", [id, itemId, itemType], [⟨"item_type", "kinds"⟩]⟩
  -- what the two migrations say is computed once, and the rest is about the tables
  have hpets :=
    of_ofList_append (t := ownerMigration.content)
    (p := fun cs => Session.Makes cs pets ownerClosure)
    rfl rfl rfl (by decide +kernel)
  have htags :=
    of_ofList_append (t := itemMigration.content)
    (p := fun cs => Session.Makes cs tags itemClosure)
    rfl rfl rfl (by decide +kernel)
  constructor
  · exact losesKey_of_not_saysKey (Session.get?_ofSources_singleton rfl hpets)
      ⟨by decide +kernel, by decide +kernel⟩ (c := owner) (by decide +kernel) (by decide) rfl
      (by decide +kernel)
  · exact losesKey_of_not_saysKey (Session.get?_ofSources_singleton rfl htags)
      ⟨by decide +kernel, by decide +kernel⟩ (c := itemType) (by decide +kernel) (by decide) rfl
      (by decide +kernel)

end History

end SchemaAtlas
