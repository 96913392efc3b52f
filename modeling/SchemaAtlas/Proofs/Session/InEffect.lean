import SchemaAtlas.Proofs.Migration.Reread
import SchemaAtlas.Proofs.Session.Rewrite

/-!
# `SchemaAtlas.Proofs.Session.InEffect`: an edit that is done takes effect

An edit of a session is written into the migration that first creates the table, and
the later blocks of the table work on what was written. So the edit is in effect
afterwards if what was written says it (`ColumnEdit.Said`) and no later block undoes
it (`ColumnEdit.Spared`): `inEffect_run?`.

What a migration cannot say is a matter of how tables are written. A table without an
identifier is given one, so a column `id` comes back when it is dropped
(`vain_labelMigration`); the audit columns have one statement for all of them, which
is always there; an identifier is never null.
-/

set_option autoImplicit false

namespace SchemaAtlas

open Migration Scan

namespace ColumnEdit

/-- Holds of a table in which a change is in effect. -/
def InEffect (t : Table) : ColumnEdit → Prop
  | add name type nullable => ∃ c ∈ t.columns, c.name = name ∧ c.type = type
      ∧ c.nullable = nullable
  | drop name => name ∉ t.columns.map Column.name
  | rename old new => new ∈ t.columns.map Column.name ∧ old ∉ t.columns.map Column.name

/-- Holds of a change that is said when the table is written: the new column is not
left to the audit columns and is null only if it is no identifier, of several
identifiers the last gets a name, and a column `id` goes only if some other is the
identifier. -/
def Said (u : Table) : ColumnEdit → Prop
  | add name type nullable => Table.Spoken name ∧ (type = .id → nullable = false)
  | drop name => name = Naming.identifier → ∃ c ∈ u.columns, c.type = .id
  | rename old new => Table.Spoken new
    ∧ (∀ c ∈ u.columns, c.name = new → c.type = .id → u.LastIdentifier c)
    ∧ (old = Naming.identifier → ∃ c ∈ u.columns, c.type = .id)

/-- Holds of a change that a later block of the table does not undo. A column that was
added is undone as well by another declaration of it. -/
def SparedBy (t : Table) (b : Block) : ColumnEdit → Prop
  | add name _ _ => b.Keeps t name ∧ name ∉ b.columns.map Column.name
  | drop name => ¬b.Brings t name
  | rename old new => b.Keeps t new ∧ ¬b.Brings t old

/-- Holds of a change that is not undone by any block of a list of alterations, where
each of them works on what the ones before it leave of the table. -/
def Spared (e : ColumnEdit) : Table → List Block → Prop
  | _, [] => True
  | t, b :: later => b.kind = .alter ∧ e.SparedBy t b ∧ e.Spared (t.alter b) later

instance (t : Table) : (e : ColumnEdit) → Decidable (e.InEffect t)
  | add name type nullable =>
    inferInstanceAs
      (Decidable (∃ c ∈ t.columns, c.name = name ∧ c.type = type ∧ c.nullable = nullable))
  | drop name => inferInstanceAs (Decidable (name ∉ t.columns.map Column.name))
  | rename old new =>
    inferInstanceAs
      (Decidable (new ∈ t.columns.map Column.name ∧ old ∉ t.columns.map Column.name))

instance (u : Table) : (e : ColumnEdit) → Decidable (e.Said u)
  | add name type nullable =>
    inferInstanceAs (Decidable (Table.Spoken name ∧ (type = .id → nullable = false)))
  | drop name =>
      inferInstanceAs (Decidable (name = Naming.identifier → ∃ c ∈ u.columns, c.type = .id))
  | rename old new => inferInstanceAs (Decidable (Table.Spoken new
    ∧ (∀ c ∈ u.columns, c.name = new → c.type = .id → u.LastIdentifier c)
    ∧ (old = Naming.identifier → ∃ c ∈ u.columns, c.type = .id)))

instance (t : Table) (b : Block) : (e : ColumnEdit) → Decidable (e.SparedBy t b)
  | add name _ _ =>
      inferInstanceAs (Decidable (b.Keeps t name ∧ name ∉ b.columns.map Column.name))
  | drop name => inferInstanceAs (Decidable (¬b.Brings t name))
  | rename old new => inferInstanceAs (Decidable (b.Keeps t new ∧ ¬b.Brings t old))

instance decidableSpared (e : ColumnEdit) :
    (t : Table) → (later : List Block) → Decidable (e.Spared t later)
  | _, [] => .isTrue trivial
  | t, b :: later =>
    have := decidableSpared e (t.alter b) later
    inferInstanceAs (Decidable (b.kind = .alter ∧ e.SparedBy t b ∧ e.Spared (t.alter b) later))

variable {e : ColumnEdit} {t u : Table}

/-! ### One block and a run of blocks -/

/-- A change that a block spares stays in effect when the block is applied to the table. -/
theorem InEffect.alter {b : Block} (h : e.InEffect t) (hb : e.SparedBy t b) :
    e.InEffect (t.alter b) := by
  cases e with
  | add name type nullable =>
      obtain ⟨c, hc, rfl, rfl, rfl⟩ := h
      exact Table.exists_like_alter hc hb.1 hb.2
  | drop name =>
      intro hname
      rcases Table.mem_names_alter hname with hname | hbrings
      · exact h hname
      · exact hb hbrings
  | rename old new =>
      refine ⟨Table.mem_names_alter_of_keeps h.1 hb.1, fun hold => ?_⟩
      rcases Table.mem_names_alter hold with hold | hbrings
      · exact h.2 hold
      · exact hb.2 hbrings

/-- A change that stays spared is in effect after a list of alterations, by induction over
the list. -/
theorem InEffect.foldl_alter {later : List Block} (h : e.InEffect t) (hlater : e.Spared t later) :
    e.InEffect (later.foldl Table.alter t) := by
  induction later generalizing t with
  | nil => exact h
  | cons b later ih =>
      obtain ⟨-, hb, hrest⟩ := hlater
      exact ih (h.alter hb) hrest

/-- Blocks that spare a change are alterations: one that creates the table would begin it
anew. -/
theorem Spared.kind_eq {later : List Block} (h : e.Spared t later) :
    ∀ b ∈ later, b.kind = .alter := by
  induction later generalizing t with
  | nil => exact fun _ hb => absurd hb List.not_mem_nil
  | cons b later ih =>
      intro d hd
      rcases List.mem_cons.mp hd with rfl | hd
      · exact h.1
      · exact ih h.2.2 d hd

/-! ### What is written -/

section Written

variable {name old new : String} {type : ColumnType} {nullable : Bool}

/-- A column is added under a new name, behind all others, and no foreign key of an
undeclared column is written. -/
theorem of_written?_add (h : (add name type nullable).written? t = some u) :
    name ∉ t.columns.map Column.name ∧ u.name = t.name
      ∧ u.columns = t.columns ++ [Session.newColumn name type nullable]
      ∧ u.foreignKeys = t.foreignKeys.filter fun fk => u.columns.any fun c =>
        c.name == fk.column := by
  rw [written?] at h
  split at h
  · cases h
  · rename_i hnew
    obtain rfl := Option.some.inj h
    rw [Table.hasColumn_iff] at hnew
    exact ⟨hnew, rfl, rfl, rfl⟩

/-- Dropping a column writes the others, in their order. -/
theorem of_written?_drop (h : (drop name).written? t = some u) :
    u.name = t.name ∧ u.columns = t.columns.filter fun c => c.name != name := by
  rw [written?] at h
  split at h
  · obtain rfl := Option.some.inj h
    exact ⟨rfl, rfl⟩
  · cases h

/-- A column that is there gets a new name that was free, and the others are written as they
were. -/
theorem of_written?_rename (h : (rename old new).written? t = some u) :
    old ∈ t.columns.map Column.name ∧ new ∉ t.columns.map Column.name ∧ u.name = t.name
      ∧ u.columns = Session.renamedColumns old new t.columns := by
  rw [written?] at h
  obtain ⟨⟨hold, hnew⟩, rfl⟩ := of_make?_rename h
  exact ⟨hold, hnew, rfl, rfl⟩

end Written

/-- What is written goes by the name of the table that was there. -/
theorem name_written? (h : e.written? t = some u) : u.name = t.name := by
  cases e with
  | add name type nullable => exact (of_written?_add h).2.1
  | drop name => exact (of_written?_drop h).1
  | rename old new => exact (of_written?_rename h).2.2.1

/-- No name stands twice in what is written, if none did in the table. -/
theorem nodup_names_written? (hd : (t.columns.map Column.name).Nodup)
    (h : e.written? t = some u) :
    (u.columns.map Column.name).Nodup := by
  cases e with
  | add name type nullable =>
      obtain ⟨hnew, -, hcolumns, -⟩ := of_written?_add h
      rw [hcolumns, List.map_append, List.nodup_append]
      refine ⟨hd, List.nodup_singleton _, fun n hn m hm => ?_⟩
      rw [List.mem_singleton.mp hm]
      rintro rfl
      exact hnew hn
  | drop name =>
      rw [(of_written?_drop h).2]
      exact (List.filter_sublist.map Column.name).nodup hd
  | rename old new =>
      obtain ⟨-, hnew, -, hcolumns⟩ := of_written?_rename h
      have hrenamed : Session.renamedColumns old new t.columns
          = updateColumn old (fun c => { c with name := new }) t.columns :=
        (updateColumn_eq_map hd old _).symm
      rw [hcolumns, hrenamed]
      exact nodup_names_updateColumn hd hnew fun _ => rfl

section Written

variable {name old new : String} {type : ColumnType} {nullable : Bool}

/-- An added column is the last of all, so it is the last identifier if it is one. -/
theorem lastIdentifier_newColumn (h : (add name type nullable).written? t = some u)
    (htype : type = .id) :
    u.LastIdentifier (Session.newColumn name type nullable) := by
  obtain ⟨-, -, hcolumns, -⟩ := of_written?_add h
  rw [Table.LastIdentifier, hcolumns, List.filter_append,
    List.filter_cons_of_pos (by simp [Session.newColumn, htype]), List.filter_nil,
    List.getLast?_concat]

/-- A dropped column is not written, so it can only come back through a later block. -/
theorem notMem_names_written?_drop (h : (drop name).written? t = some u) :
    name ∉ u.columns.map Column.name := by
  intro hname
  obtain ⟨c, hc, rfl⟩ := List.mem_map.mp hname
  rw [(of_written?_drop h).2] at hc
  simpa using (List.mem_filter.mp hc).2

/-- No column is written under the name that was taken from one, since the new name is
another. -/
theorem notMem_names_written?_rename (h : (rename old new).written? t = some u) :
    old ∉ u.columns.map Column.name := by
  obtain ⟨hold, hnew, -, hcolumns⟩ := of_written?_rename h
  intro hname
  obtain ⟨d, hd, hdn⟩ := List.mem_map.mp hname
  rw [hcolumns] at hd
  obtain ⟨x, -, rfl⟩ := List.mem_map.mp hd
  split at hdn
  · have hsame : new = old := hdn
    rw [hsame] at hnew
    exact hnew hold
  · rename_i hxold
    exact hxold hdn

/-- A renamed column is written under its new name, which is how the edit shows. -/
theorem exists_written?_rename (h : (rename old new).written? t = some u) :
    ∃ c ∈ u.columns, c.name = new := by
  obtain ⟨hold, -, -, hcolumns⟩ := of_written?_rename h
  obtain ⟨c, hc, hcn⟩ := List.mem_map.mp hold
  refine ⟨{ c with name := new }, ?_, rfl⟩
  rw [hcolumns]
  exact List.mem_map.mpr ⟨c, hc, if_pos hcn⟩

end Written

/-- A name that is not written does not come back, unless it is that of the identifier which a
table is given that has none. -/
theorem notMem_names_extracted {name : String} (hn : Named u.columns u.foreignKeys)
    (hdu : (u.columns.map Column.name).Nodup) (hname : name ∉ u.columns.map Column.name)
    (hid : name = Naming.identifier → ∃ c ∈ u.columns, c.type = .id) :
    name ∉ (extracted u).columns.map Column.name := by
  intro hback
  rcases mem_names_extracted hn hdu hback with hwritten | ⟨hidentifier, hnone⟩
  · exact hname hwritten
  · obtain ⟨c, hc, htype⟩ := hid hidentifier
    exact hnone c hc htype

/-- What comes back of a table that was written has the change in effect if the table
says it. -/
theorem inEffect_extracted (hd : (t.columns.map Column.name).Nodup) (h : e.written? t = some u)
    (hn : Named u.columns u.foreignKeys) (hsaid : e.Said u) : e.InEffect (extracted u) := by
  have hdu := nodup_names_written? hd h
  cases e with
  | add name type nullable =>
      obtain ⟨hspoken, hid⟩ := hsaid
      obtain ⟨-, -, hcolumns, -⟩ := of_written?_add h
      have hc : Session.newColumn name type nullable ∈ u.columns := by
        rw [hcolumns]
        exact List.mem_append_right _ (List.mem_singleton_self _)
      exact ⟨_, returned_mem_extracted hn hdu hc hspoken (lastIdentifier_newColumn h),
        like_returned hdu hc hid⟩
  | drop name => exact notMem_names_extracted hn hdu (notMem_names_written?_drop h) hsaid
  | rename old new =>
      obtain ⟨hspoken, hlast, hidentifier⟩ := hsaid
      refine ⟨?_, notMem_names_extracted hn hdu (notMem_names_written?_rename h) hidentifier⟩
      obtain ⟨c, hc, rfl⟩ := exists_written?_rename h
      have hback := returned_mem_extracted hn hdu hc hspoken (hlast c hc rfl)
      exact List.mem_map.mpr ⟨_, hback, name_returned _ _⟩

end ColumnEdit

namespace Session

/-! ### Edits that are done -/

/-- A table of a session that says what its files say has its own name, and no name
twice among its columns. -/
theorem name_and_nodup_of_table? {s : Session} (h : s.analysis = .ofSources s.files)
    {table : String}
    {t : Table} (ht : s.table? table = some t) :
    t.name = table ∧ (t.columns.map Column.name).Nodup := by
  rw [table?, h] at ht
  have ht : (History.ofSources s.files).snapshot.tables.get? table = some t := ht
  rw [History.snapshot_ofSources] at ht
  exact ⟨History.name_of_get? ht, History.nodup_names_of_get? ht⟩

/-- An edit of a session is in effect if what is written says it and no later block of
the table undoes it. -/
theorem inEffect_run? {s s' : Session} (hs : Reachable s) {table : String} {e : ColumnEdit}
    (hrun : e.run? s table = some s') (hforward : s.WritesForward table) {t u : Table}
    (ht : s.table? table = some t) (hu : e.written? t = some u)
    (hn : Named u.columns u.foreignKeys)
    (hsaid : e.Said u) (hspared : e.Spared (extracted u) (History.laterBlocks table s'.files)) :
    ∃ t', s'.table? table = some t' ∧ e.InEffect t' := by
  obtain ⟨t₀, u₀, ht₀, hu₀, hedit⟩ := exists_written?_of_run? hrun
  obtain rfl : t₀ = t := Option.some.inj (ht₀.symm.trans ht)
  obtain rfl : u₀ = u := Option.some.inj (hu₀.symm.trans hu)
  obtain ⟨hname, hd⟩ := name_and_nodup_of_table? hs.analysis ht
  have hwritten : (⟨table, u₀.columns, u₀.foreignKeys⟩ : Table) = u₀ := by
    rw [← hname, ← ColumnEdit.name_written? hu]
  obtain ⟨after, htable, -, hall⟩ := exists_table?_editTable? hedit hn hforward
  -- none of the later blocks creates the table, so the written block is the first that does
  have hlater : History.laterBlocks table s'.files = after := by
    rcases hall with hall | ⟨b, hb, hkind⟩
    · exact hall
    · have halter := hspared.kind_eq b hb
      rw [hkind] at halter
      cases halter
  rw [hlater] at hspared
  rw [htable, hwritten, History.foldl_next_of_alter hspared.kind_eq]
  exact ⟨_, rfl, (ColumnEdit.inEffect_extracted hd hu hn hsaid).foldl_alter hspared⟩

/-- A migration that creates a table and renames a column of it. -/
def tagMigration : SourceFile :=
  ⟨"1_tags.php", "1_tags.php",
    "Schema::create('tags',function(Blueprint $t)\x7b$t->text('label');\x7d);"
      ++ "Schema::table('tags',function(Blueprint $t)\x7b$t->renameColumn('label','title');\x7d);",
    .migration⟩

/-- The closure that creates the table. -/
def tagClosure : Closure := ⟨⟨.create, "tags", "t"⟩, 45, 63⟩

/-- The title can be renamed although a later block made it of the label: there is no
label any more. -/
theorem inEffect_run?_title :
    ∃ s', (ColumnEdit.rename "title" "name").run? (start [tagMigration] none) "tags" = some s'
      ∧ ∃ t', s'.table? "tags" = some t'
        ∧ "name" ∈ t'.columns.map Column.name ∧ "title" ∉ t'.columns.map Column.name := by
  let e : ColumnEdit := .rename "title" "name"
  let t : Table := ⟨"tags", [{ name := "title", type := .text }], []⟩
  let u : Table := ⟨"tags", [{ name := "name", type := .text }], []⟩
  have hu : e.written? t = some u := by decide +kernel
  have hn : Named u.columns u.foreignKeys := ⟨by decide +kernel, by decide +kernel⟩
  have hsaid : e.Said u := by decide +kernel
  -- all that is read of the migration, before and after the edit
  have hdecided := of_ofList_append (t := tagMigration.content)
    (p := fun cs => Makes cs t tagClosure ∧ tagClosure.Forward (mask cs)
      ∧ rewritten cs tagClosure u.columns u.foreignKeys ≠ cs
      ∧ decide (e.Spared (extracted u)
          ((blocksOf "tags" (rewritten cs tagClosure u.columns u.foreignKeys)).dropWhile
            fun b => b.kind != .create).tail) = true)
    rfl rfl rfl (by decide +kernel)
  obtain ⟨hmakes, houtside, hne, hspared⟩ := hdecided
  have hforward : (start [tagMigration] none).WritesForward "tags" :=
    of_closure_start (p := fun f c => c.Forward (mask f.content.toList)) rfl hmakes houtside
  obtain ⟨s', hrun, -, hstory⟩ := exists_run?_start rfl hmakes hu hne
  rw [← hstory "tags", ← History.laterBlocks] at hspared
  have heffect :=
    inEffect_run? (.start _ _) hrun hforward (table?_start_singleton rfl hmakes) hu hn hsaid
    (of_decide_eq_true hspared)
  exact ⟨s', hrun, heffect⟩

/-- Holds of an edit that is done and yet is not in effect afterwards. -/
def Vain (s : Session) (table : String) (e : ColumnEdit) : Prop :=
  ∃ s', e.run? s table = some s' ∧ ∃ t', s'.table? table = some t' ∧ ¬e.InEffect t'

/-- A migration that creates a table with an identifier and adds a column to it. -/
def labelMigration : SourceFile :=
  ⟨"1_tags.php", "1_tags.php",
    "Schema::create('tags',function(Blueprint $t)\x7b$t->id();\x7d);"
      ++ "Schema::table('tags',function(Blueprint $t)\x7b$t->text('label');\x7d);",
    .migration⟩

/-- The closure that creates the table. -/
def labelClosure : Closure := ⟨⟨.create, "tags", "t"⟩, 45, 54⟩

/-- An identifier that is dropped comes back, and so does a column that a later block
declares. -/
theorem vain_labelMigration :
    Reachable (start [labelMigration] none)
      ∧ (start [labelMigration] none).Vain "tags" (.drop "id")
      ∧ (start [labelMigration] none).Vain "tags" (.drop "label") := by
  let id : Column := { name := "id", type := .id, isPrimary := true }
  let label : Column := { name := "label", type := .text }
  let t : Table := ⟨"tags", [id, label], []⟩
  -- either column is there again when the later block has been read
  have hdecided := of_ofList_append (t := labelMigration.content)
    (p := fun cs => Makes cs t labelClosure
      ∧ rewritten cs labelClosure [label] [] ≠ cs ∧ rewritten cs labelClosure [id] [] ≠ cs
      ∧ (blocksOf "tags" (rewritten cs labelClosure [label] [])).foldl History.next none = some t
      ∧ (blocksOf "tags" (rewritten cs labelClosure [id] [])).foldl History.next none = some t)
    rfl rfl rfl (by decide +kernel)
  obtain ⟨hmakes, hneId, hneLabel, hbackId, hbackLabel⟩ := hdecided
  have hvain : ∀ (name : String) (columns : List Column), name ∈ t.columns.map Column.name →
      (ColumnEdit.drop name).written? t = some { t with columns := columns } →
      rewritten labelMigration.content.toList labelClosure columns []
        ≠ labelMigration.content.toList →
      (blocksOf "tags" (rewritten labelMigration.content.toList labelClosure columns [])).foldl
        History.next none = some t →
      (start [labelMigration] none).Vain "tags" (.drop name) := by
    intro name columns hname hu hne hback
    obtain ⟨s', hrun, hanalysis, hstory⟩ := exists_run?_start rfl hmakes hu hne
    refine ⟨s', hrun, t, ?_, fun hnot => hnot hname⟩
    rw [table?_eq_foldl_story hanalysis, hstory]
    exact hback
  exact ⟨.start _ _, hvain "id" [label] (by decide) (by decide +kernel) hneId hbackId,
    hvain "label" [id] (by decide) (by decide +kernel) hneLabel hbackLabel⟩

end Session

end SchemaAtlas
