import SchemaAtlas.Proofs.Migration.Replay
import SchemaAtlas.Proofs.Session.Apart
import SchemaAtlas.Proofs.Session.InEffect

/-!
# `SchemaAtlas.Proofs.Session.Untouched`: columns that an edit leaves alone

To add a column to a table, the whole table is written into the migration that first
creates it, and then the later blocks of the table are done again on what was written.
So a column that was there before is there afterwards, with its foreign key, if a
migration can say it as it is (`Table.Writes`) and if the later blocks, which had their
part in it before, leave it as it is (`Table.Undisturbed`): `untouched_addColumn?`.

An audit column with a statement of its own is lost, for instance, as these columns
have one statement for all of them which names none (`lost_addColumn?`).
-/

set_option autoImplicit false

namespace SchemaAtlas

open Migration Scan

namespace Table

/-- Holds of a column that is read just as it is written in a table, and has no more
than one foreign key. -/
structure Writes (u : Table) (c : Column) : Prop where
  spoken : Spoken c.name
  expresses : u.Expresses c
  key : ∀ fk ∈ u.foreignKeys, fk.column = c.name → u.keyOn? c = some fk

instance (u : Table) (c : Column) : Decidable (u.Writes c) :=
  decidable_of_iff (Spoken c.name ∧ u.Expresses c
    ∧ ∀ fk ∈ u.foreignKeys, fk.column = c.name → u.keyOn? c = some fk)
    ⟨fun ⟨hspoken, hexpresses, hkey⟩ => ⟨hspoken, hexpresses, hkey⟩,
      fun h => ⟨h.spoken, h.expresses, h.key⟩⟩

/-- Holds of a column that the later blocks leave as it is when they are done on the
table that was written: they create the table anew, or they leave the name of the
column and its foreign key alone, or they say what is so. -/
def Undisturbed (u : Table) (c : Column) (later : List Block) : Prop :=
  (∃ b ∈ later, b.kind = .create) ∨ (∀ b ∈ later, b.LeavesName u.name c.name)
    ∨ Block.AllConfirm c (u.keysOn c.name) (extracted u) later

variable {t u : Table} {c : Column}

/-- A column that can be said comes back as it is, with its foreign key, when the table is
written and read. -/
theorem Writes.mem_extracted (h : u.Writes c) (hn : Named u.columns u.foreignKeys)
    (hd : (u.columns.map Column.name).Nodup) (hc : c ∈ u.columns) :
    c ∈ (extracted u).columns ∧ ∀ fk ∈ u.keysOn c.name, fk ∈ (extracted u).foreignKeys := by
  constructor
  · have hback := returned_mem_extracted hn hd hc h.spoken fun htype =>
      (h.expresses.identifier htype).2.2
    rwa [returned_eq_self hd hc h.expresses] at hback
  · intro fk hfk
    obtain ⟨hmem, hcolumn⟩ := List.mem_filter.mp hfk
    exact mem_foreignKeys_extracted hn hd hc h.spoken.1 h.expresses
      (h.key fk hmem (beq_iff_eq.mp hcolumn))

/-- What the later blocks leave undisturbed is in the table that they make of what was
written, as it is in the table that they made before. -/
theorem Undisturbed.mem_foldl_next {later : List Block} (h : u.Undisturbed c later)
    (hname : c.name ≠ "")
    {first : Table} (hfirst : first.name = u.name)
    (ht : later.foldl History.next (some first) = some t)
    (hd : (t.columns.map Column.name).Nodup) (hc : c ∈ t.columns)
    (hkeys : ∀ fk ∈ t.keysOn c.name, fk ∈ u.keysOn c.name)
    (hback : c ∈ (extracted u).columns ∧ ∀ fk ∈ u.keysOn c.name, fk ∈ (extracted u).foreignKeys)
    {t' : Table} (ht' : later.foldl History.next (some (extracted u)) = some t') :
    c ∈ t'.columns ∧ ∀ fk ∈ t.keysOn c.name, fk ∈ t'.foreignKeys := by
  by_cases hcreate : ∃ b ∈ later, b.kind = .create
  · -- what was written has no part in the table
    rw [History.foldl_next_of_create hcreate (some (extracted u)) (some first), ht] at ht'
    obtain rfl := Option.some.inj ht'
    exact ⟨hc, fun fk hfk => (List.mem_filter.mp hfk).1⟩
  · have halter : ∀ b ∈ later, b.kind = .alter := by
      intro b hb
      cases hkind : b.kind with
      | create => exact absurd ⟨b, hb, hkind⟩ hcreate
      | alter => rfl
    rw [History.foldl_next_of_alter halter] at ht ht'
    obtain rfl := Option.some.inj ht
    obtain rfl := Option.some.inj ht'
    rcases h with hcreated | hleaves | hconfirm
    · exact absurd hcreated hcreate
    · have hdback : ((extracted u).columns.map Column.name).Nodup := Draft.nodup_finalColumns _
      obtain ⟨hstays, hstaysKeys⟩ := mem_foldl_alter_of_leavesName hleaves hname hfirst
        (show (extracted u).name = u.name from rfl) hd hdback hc hback.1
      refine ⟨hstays, fun fk hfk => hstaysKeys fk hfk ?_⟩
      exact List.mem_filter.mpr ⟨hback.2 fk (hkeys fk hfk), (List.mem_filter.mp hfk).2⟩
    · obtain ⟨hstays, hstaysKeys⟩ := mem_foldl_alter_of_allConfirm hname
        (fun key hkey => beq_iff_eq.mp (List.mem_filter.mp hkey).2) hback.1 hback.2 hconfirm
      exact ⟨hstays, fun fk hfk => hstaysKeys fk (hkeys fk hfk)⟩

end Table

namespace ColumnEdit

variable {name : String} {type : ColumnType} {nullable : Bool} {t u : Table}

/-- What is written to add a column has the columns that were there, and their keys. -/
theorem mem_written?_add (h : (ColumnEdit.add name type nullable).written? t = some u)
    {c : Column}
    (hc : c ∈ t.columns) : c ∈ u.columns ∧ ∀ fk ∈ t.keysOn c.name, fk ∈ u.keysOn c.name := by
  obtain ⟨-, -, hcolumns, hfks⟩ := of_written?_add h
  have hcu : c ∈ u.columns := by
    rw [hcolumns]
    exact List.mem_append_left _ hc
  refine ⟨hcu, fun fk hfk => ?_⟩
  obtain ⟨hmem, hcolumn⟩ := List.mem_filter.mp hfk
  rw [Table.keysOn, hfks]
  refine List.mem_filter.mpr ⟨List.mem_filter.mpr ⟨hmem, List.any_eq_true.mpr ⟨c, hcu, ?_⟩⟩,
    hcolumn⟩
  rw [beq_iff_eq.mp hcolumn]
  exact beq_self_eq_true _

end ColumnEdit

namespace Session

/-- When a column is added, the columns that were there before stay as they are, with
their foreign keys, if a migration can say them and the later blocks do not disturb
them. -/
theorem untouched_addColumn? {s s' : Session} (hs : Reachable s) {table name : String}
    {type : ColumnType}
    {nullable : Bool} (hrun : s.addColumn? table name type nullable = some s')
    (hapart : s.WritesApart table) {t u : Table} (ht : s.table? table = some t)
    (hu : (ColumnEdit.add name type nullable).written? t = some u)
    (hn : Named u.columns u.foreignKeys) :
    ∃ t', s'.table? table = some t' ∧ ∀ c ∈ t.columns, u.Writes c →
      u.Undisturbed c (History.laterBlocks table s.files) →
      c ∈ t'.columns ∧ ∀ fk ∈ t.foreignKeys, fk.column = c.name → fk ∈ t'.foreignKeys := by
  have hrun' : (ColumnEdit.add name type nullable).run? s table = some s' := hrun
  obtain ⟨t₀, u₀, ht₀, hu₀, hedit⟩ := exists_written?_of_run? hrun'
  obtain rfl : t₀ = t := Option.some.inj (ht₀.symm.trans ht)
  obtain rfl : u₀ = u := Option.some.inj (hu₀.symm.trans hu)
  obtain ⟨hname, hd⟩ := name_and_nodup_of_table? hs.analysis ht
  have hnameu : u₀.name = table := (ColumnEdit.name_written? hu).trans hname
  have hwritten : (⟨table, u₀.columns, u₀.foreignKeys⟩ : Table) = u₀ := by
    rw [← hnameu]
  -- the later blocks made the table before, and now make it of what was written
  obtain ⟨first, hfirst, hmade⟩ :=
    History.exists_foldl_laterBlocks ((table?_eq_foldl_story hs.analysis table).symm.trans ht)
  obtain ⟨t', ht'⟩ := History.exists_foldl_next (History.laterBlocks table s.files) (extracted u₀)
  have htable := table?_editTable? hedit hn hapart
  rw [hwritten, ht'] at htable
  refine ⟨t', htable, fun c hc hw hundisturbed => ?_⟩
  obtain ⟨hcu, hkeys⟩ := ColumnEdit.mem_written?_add hu hc
  have hback := hw.mem_extracted hn (ColumnEdit.nodup_names_written? hd hu) hcu
  have hnonempty : c.name ≠ "" := by
    intro hempty
    have hisName := hn.columns c hcu
    rw [hempty] at hisName
    cases hisName
  obtain ⟨hstays, hstaysKeys⟩ :=
    hundisturbed.mem_foldl_next hnonempty (hfirst.trans hnameu.symm) hmade hd hc hkeys hback ht'
  exact ⟨hstays,
    fun fk hfk hcolumn => hstaysKeys fk (List.mem_filter.mpr ⟨hfk, by simpa using hcolumn⟩)⟩

/-- A migration that creates a table with a foreign key, and adds a column to it. -/
def postMigration : SourceFile :=
  ⟨"1_posts.php", "1_posts.php",
    "Schema::create('posts',function(Blueprint $t)\x7b$t->foreignId('user_id')->constrained();\x7d);"
      ++ "Schema::table('posts',function(Blueprint $t)\x7b$t->text('label');\x7d);",
    .migration⟩

/-- The closure that creates the table. -/
def postClosure : Closure := ⟨⟨.create, "posts", "t"⟩, 46, 86⟩

/-- In the example the posts get a title, and the reference to their user is still there,
with its foreign key. -/
theorem untouched_addColumn?_posts :
    ∃ s', (start [postMigration] none).addColumn? "posts" "title" .text false = some s'
      ∧ ∃ t', s'.table? "posts" = some t'
        ∧ { name := "user_id", type := .foreignId, isForeign := true } ∈ t'.columns
        ∧ ⟨"user_id", "users"⟩ ∈ t'.foreignKeys := by
  let author : Column := { name := "user_id", type := .foreignId, isForeign := true }
  let label : Column := { name := "label", type := .text }
  let t : Table := ⟨"posts", [author, label], [⟨"user_id", "users"⟩]⟩
  let u : Table := { t with columns := [author, label, { name := "title", type := .text }] }
  have hu : (ColumnEdit.add "title" .text false).written? t = some u := by decide +kernel
  have hn : Named u.columns u.foreignKeys := ⟨by decide +kernel, by decide +kernel⟩
  have hwrites : u.Writes author := by decide +kernel
  have hdecided := of_ofList_append (t := postMigration.content)
    (p := fun cs => Makes cs t postClosure ∧ postClosure.Apart cs
      ∧ rewritten cs postClosure u.columns u.foreignKeys ≠ cs
      ∧ ∀ b ∈ ((blocksOf "posts" cs).dropWhile fun b => b.kind != .create).tail,
        b.LeavesName u.name author.name)
    rfl rfl rfl (by decide +kernel)
  obtain ⟨hmakes, hstands, hne, hleaves⟩ := hdecided
  have hapart : (start [postMigration] none).WritesApart "posts" :=
    of_closure_start (p := fun f c => c.Apart f.content.toList) rfl hmakes hstands
  have hstory : History.story "posts" [postMigration]
      = blocksOf "posts" postMigration.content.toList :=
    story_singleton rfl "posts"
  rw [← hstory, ← History.laterBlocks] at hleaves
  obtain ⟨s', hrun, -, -⟩ := exists_run?_start rfl hmakes hu hne
  obtain ⟨t', ht', huntouched⟩ := untouched_addColumn? (.start _ _) hrun hapart
    (table?_start_singleton rfl hmakes) hu hn
  obtain ⟨hstays, hkeys⟩ := huntouched author List.mem_cons_self hwrites (.inr (.inl hleaves))
  exact ⟨s', hrun, t', ht', hstays, hkeys ⟨"user_id", "users"⟩ List.mem_cons_self rfl⟩

/-- The names of a table's columns. -/
def columnNames (s : Session) (table : String) : List String :=
  ((s.table? table).map fun t => t.columns.map Column.name).getD []

/-- A migration that creates a table with an audit column of its own. -/
def stampMigration : SourceFile :=
  ⟨"1_tags.php", "1_tags.php",
    "Schema::create('tags',function(Blueprint $t)\x7b$t->timestamp('created_at');\x7d);",
    .migration⟩

/-- The closure that creates the table. -/
def stampClosure : Closure := ⟨⟨.create, "tags", "t"⟩, 45, 73⟩

/-- The audit column that was declared by itself is lost when another column is added, and
an identifier appears. -/
theorem lost_addColumn? :
    Reachable (start [stampMigration] none)
      ∧ (start [stampMigration] none).columnNames "tags" = ["created_at"]
      ∧ ∃ s', (start [stampMigration] none).addColumn? "tags" "label" .text false = some s'
        ∧ s'.columnNames "tags" = ["id", "label"] := by
  let stamp : Column := { name := "created_at", type := .timestamp }
  let label : Column := { name := "label", type := .text }
  let t : Table := ⟨"tags", [stamp], []⟩
  have hu : (ColumnEdit.add "label" .text false).written? t
      = some { t with columns := [stamp, label] } := by
    decide +kernel
  have hdecided := of_ofList (s := stampMigration.content)
    (p := fun cs => Makes cs t stampClosure ∧ rewritten cs stampClosure [stamp, label] [] ≠ cs
      ∧ (blocksOf "tags" (rewritten cs stampClosure [stamp, label] [])).foldl History.next none
        = some { t with columns := [{ name := "id", type := .id, isPrimary := true }, label] })
    rfl (by decide +kernel)
  obtain ⟨hmakes, hne, hafter⟩ := hdecided
  obtain ⟨s', hrun, hanalysis, hstory⟩ := exists_run?_start rfl hmakes hu hne
  have hbefore : (start [stampMigration] none).table? "tags" = some t :=
    table?_start_singleton rfl hmakes
  refine ⟨.start _ _, ?_, s', hrun, ?_⟩
  · rw [columnNames, hbefore]
    rfl
  · rw [columnNames, table?_eq_foldl_story hanalysis, hstory, hafter]
    rfl

end Session

end SchemaAtlas
