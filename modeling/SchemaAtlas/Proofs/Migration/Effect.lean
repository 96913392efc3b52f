import SchemaAtlas.Proofs.List
import SchemaAtlas.Proofs.Migration.Replay
import SchemaAtlas.Schema.History

/-!
# `SchemaAtlas.Proofs.Migration.Effect`: what an alteration means

An alteration works in five steps on the columns and the foreign keys of a table, and
what a later step finds is what the earlier ones left. `Table.Renamed` tells the renames
one by one, and `Table.Altered` tells at once what the other steps make of the renamed
table: which names its columns have and in which order, what each column is, and which
keys are on it. An alteration does just this (`altered_alter`), and what is told leaves
no more than one outcome for the columns and for the keys on each (`Altered.unique`).
-/

set_option autoImplicit false

namespace SchemaAtlas

open SchemaAtlas.Migration

namespace Table

/-! ### Renames -/

/-- Renames of a table's columns, one after another. Each takes place, on the column where
it stands and on its foreign keys, if the old name is there and the new one is not, and
otherwise it is passed over. -/
inductive Renamed : Table → List (String × String) → Table → Prop
  | done (t : Table) : Renamed t [] t
  | taken {t u : Table} {old new : String} {later : List (String × String)}
      (hold : old ∈ t.columns.map Column.name) (hnew : new ∉ t.columns.map Column.name)
      (hlater : Renamed
        ⟨t.name, t.columns.map fun c => if c.name = old then { c with name := new } else c,
          t.foreignKeys.map fun fk => if fk.column = old then { fk with column := new } else fk⟩
            later u) :
      Renamed t ((old, new) :: later) u
  | passed {t u : Table} {old new : String} {later : List (String × String)}
      (h : old ∉ t.columns.map Column.name ∨ new ∈ t.columns.map Column.name)
      (hlater : Renamed t later u) :
      Renamed t ((old, new) :: later) u

/-- With distinct names, what the renames come to is what `renameColumns` gives: the
relation that speaks of single columns has this one outcome. -/
theorem renamed_iff {t : Table} (hd : (t.columns.map Column.name).Nodup)
    (renames : List (String × String)) (r : Table) :
    t.Renamed renames r ↔ r = t.renameColumns renames := by
  induction renames generalizing t with
  | nil =>
      constructor
      · rintro ⟨⟩
        rfl
      · rintro rfl
        exact .done _
  | cons rename later ih =>
      obtain ⟨old, new⟩ := rename
      -- the first rename is taken or passed over, and the others go on from its table
      show _ ↔ r = (t.renameColumn old new).renameColumns later
      rw [← ih (nodup_names_renameColumn hd old new), renameColumn]
      by_cases hrename : t.canRename old new = true
      · rw [if_pos hrename, updateColumn_eq_map hd, moveForeignKeys]
        obtain ⟨hold, hnew⟩ := (t.canRename_iff old new).mp hrename
        constructor
        · rintro (_ | ⟨-, -, hlater⟩ | ⟨hpassed, -⟩)
          · exact hlater
          · exact absurd hpassed (not_or.mpr ⟨not_not_intro hold, hnew⟩)
        · exact .taken hold hnew
      · rw [if_neg hrename]
        have hpassed : old ∉ t.columns.map Column.name ∨ new ∈ t.columns.map Column.name := by
          by_contra hboth
          rw [not_or, not_not] at hboth
          exact hrename ((t.canRename_iff old new).mpr hboth)
        constructor
        · rintro (_ | ⟨hold, hnew, -⟩ | ⟨-, hlater⟩)
          · exact absurd hpassed (not_or.mpr ⟨not_not_intro hold, hnew⟩)
          · exact hlater
        · exact .passed hpassed

/-! ### What a block does to the table -/

/-- The names of a table's columns that a block does not drop, in order. -/
def keptNames (t : Table) (b : Block) : List String :=
  (t.columns.map Column.name).filter fun name => !b.dropped.contains name

/-- Holds of a column whose foreign key a block takes away by an entry that means it,
once the block has dropped its columns. -/
def KeyDropped (t : Table) (b : Block) (column : String) : Prop :=
  ∃ entry ∈ b.droppedForeign, MeansKey t.name (t.keptNames b) entry column

instance (t : Table) (b : Block) (column : String) : Decidable (t.KeyDropped b column) :=
  inferInstanceAs (Decidable (∃ entry ∈ b.droppedForeign, _))

/-- What a block makes of a table whose columns it has renamed. -/
structure Altered (t : Table) (b : Block) (u : Table) : Prop where
  name : u.name = t.name
  distinct : (u.columns.map Column.name).Nodup
  /-- The columns that are not dropped keep their order, and the block's others follow as
  they first occur. -/
  names : u.columns.map Column.name = t.keptNames b
    ++ ((b.columns.map Column.name).filter fun name => !(t.keptNames b).contains name).eraseDups
  /-- Of the block's columns of a name the last is there as it is. -/
  declared : ∀ before c after, b.columns = before ++ c :: after → c.name ∉ after.map Column.name →
    c ∈ u.columns
  /-- Any other column loses its flag if its key is dropped, and is as it was if not. -/
  cleared : ∀ c ∈ t.columns, c.name ∉ b.dropped → c.name ∉ b.columns.map Column.name →
    t.KeyDropped b c.name → { c with isForeign := false } ∈ u.columns
  kept : ∀ c ∈ t.columns, c.name ∉ b.dropped → c.name ∉ b.columns.map Column.name →
    ¬t.KeyDropped b c.name → c ∈ u.columns
  /-- Of the block's foreign keys on a column the last is the only one there. -/
  stated : ∀ before fk after, b.foreignKeys = before ++ fk :: after →
    fk.column ∉ after.map ForeignKey.column → u.keysOn fk.column = [fk]
  keyless : ∀ column ∉ b.foreignKeys.map ForeignKey.column,
    column ∈ b.dropped ∨ t.KeyDropped b column → u.keysOn column = []
  keyed : ∀ column ∉ b.foreignKeys.map ForeignKey.column, column ∉ b.dropped →
    ¬t.KeyDropped b column →
    u.keysOn column = t.keysOn column

section Altered

variable {t : Table} {b : Block}

/-- The names that are left when columns are taken away are those that the block does not
name for it, in order. -/
theorem map_name_dropColumns (t : Table) (b : Block) :
    (t.dropColumns b.dropped).columns.map Column.name = t.keptNames b := by
  rw [keptNames, List.filter_map]
  rfl

/-- The columns that lose their foreign keys are found by the entries, each of which is a
column or the name of a constraint. -/
theorem keyDropped_iff (t : Table) (b : Block) (column : String) :
    t.KeyDropped b column
      ↔ column ∈ b.droppedForeign.filterMap (t.dropColumns b.dropped).droppedForeignColumn? := by
  rw [List.mem_filterMap, KeyDropped]
  simp only [droppedForeignColumn?_eq_some_iff, map_name_dropColumns]
  exact Iff.rfl

/-- A column that is kept loses its flag if its foreign key is taken away, and is as before
if not. -/
theorem mem_columns_dropForeignKeys (hd : (t.columns.map Column.name).Nodup) {c : Column}
    (hc : c ∈ t.columns)
    (hkept : c.name ∉ b.dropped) :
    (t.KeyDropped b c.name →
        { c with isForeign := false }
          ∈ ((t.dropColumns b.dropped).dropForeignKeys b.droppedForeign).columns)
      ∧ (¬t.KeyDropped b c.name →
        c ∈ ((t.dropColumns b.dropped).dropForeignKeys b.droppedForeign).columns) := by
  have hthere := mem_columns_dropColumns hc hkept
  rw [dropForeignKeys, foldl_dropForeignKey (nodup_names_dropColumns hd b.dropped),
    keyDropped_iff]
  exact ⟨fun hdropped => List.mem_map.mpr ⟨c, hthere, if_pos hdropped⟩,
    fun hkeeps => List.mem_map.mpr ⟨c, hthere, if_neg hkeeps⟩⟩

/-- A column has no keys if it is taken away or its key is, and has those that it had
otherwise. -/
theorem keysOn_dropForeignKeys (hd : (t.columns.map Column.name).Nodup) (column : String) :
    ((t.dropColumns b.dropped).dropForeignKeys b.droppedForeign).keysOn column
      = if column ∈ b.dropped ∨ t.KeyDropped b column then [] else t.keysOn column := by
  rw [dropForeignKeys, foldl_dropForeignKey (nodup_names_dropColumns hd b.dropped)]
  -- what is taken away by an entry goes like what is dropped: all keys on a column or none
  refine (keysOn_dropColumns (t := t.dropColumns b.dropped) _).trans ?_
  rw [keysOn_dropColumns]
  simp only [keyDropped_iff]
  by_cases hdropped : column ∈ b.dropped
  · simp [hdropped]
  · simp [hdropped]

/-- The key on a column, with some entered, is the last one entered for it. If none is, its
keys are those from before. -/
theorem keysOn_enter (t : Table) (columns : List Column) (fks : List ForeignKey)
    (column : String) :
    (t.enter columns fks).keysOn column
      = match fks.reverse.find? fun fk => fk.column == column with
        | some fk => [fk]
        | none => t.keysOn column :=
  filter_foldl_putForeignKey fks t.foreignKeys column

/-- A column for which no key is entered has its keys as before. -/
theorem keysOn_enter_of_notMem (columns : List Column) {fks : List ForeignKey} {column : String}
    (h : column ∉ fks.map ForeignKey.column) :
    (t.enter columns fks).keysOn column = t.keysOn column := by
  have hnone : fks.reverse.find? (fun fk => fk.column == column) = none := by
    refine List.find?_eq_none.mpr fun fk hfk hcolumn => h ?_
    exact List.mem_map.mpr ⟨fk, List.mem_reverse.mp hfk, beq_iff_eq.mp hcolumn⟩
  rw [keysOn_enter, hnone]

/-- A block makes of a table with distinct names, once it has renamed its columns, what
it says. -/
theorem altered_enter (hd : (t.columns.map Column.name).Nodup) :
    t.Altered b (((t.dropColumns b.dropped).dropForeignKeys b.droppedForeign).enter b.columns
      b.foreignKeys) where
  name := by
    rw [dropForeignKeys, foldl_dropForeignKey (nodup_names_dropColumns hd b.dropped)]
    rfl
  distinct := by
    refine nodup_names_foldl_putColumn _ ?_
    rw [map_columns_dropForeignKeys fun _ => rfl]
    exact nodup_names_dropColumns hd b.dropped
  names := by
    rw [enter, map_name_foldl_putColumn, map_columns_dropForeignKeys fun _ => rfl,
      map_name_dropColumns]
  declared := by
    intro before c after hcolumns hafter
    -- of several declarations under one name, the last is the one that is entered
    have hfound := find?_foldl_putColumn b.columns
      ((t.dropColumns b.dropped).dropForeignKeys b.droppedForeign).columns c.name
    rw [hcolumns, find?_reverse_of_notMem hafter, Option.some_or, ← hcolumns] at hfound
    exact List.mem_of_find?_eq_some hfound
  cleared := by
    -- what is entered takes the place of columns of its own name only, and `c` has another
    intro c hc hkept hdeclared hdropped
    refine mem_foldl_putColumn_of_eq ((mem_columns_dropForeignKeys hd hc hkept).1 hdropped)
      fun d hdb hname => ?_
    exact absurd (List.mem_map.mpr ⟨d, hdb, hname⟩) hdeclared
  kept := by
    intro c hc hkept hdeclared hkeeps
    refine mem_foldl_putColumn_of_eq ((mem_columns_dropForeignKeys hd hc hkept).2 hkeeps)
      fun d hdb hname => ?_
    exact absurd (List.mem_map.mpr ⟨d, hdb, hname⟩) hdeclared
  stated := by
    intro before fk after hfks hafter
    rw [keysOn_enter, hfks, find?_reverse_of_notMem hafter]
  keyless := by
    intro column hcolumn hgone
    rw [keysOn_enter_of_notMem _ hcolumn, keysOn_dropForeignKeys hd, if_pos hgone]
  keyed := by
    intro column hcolumn hkept hkeeps
    rw [keysOn_enter_of_notMem _ hcolumn, keysOn_dropForeignKeys hd,
      if_neg (not_or.mpr ⟨hkept, hkeeps⟩)]

/-- A name among the columns of an altered table is that of one of the block's columns, or
of a column that was there and is not dropped. -/
theorem Altered.mem_names {u : Table} (h : t.Altered b u) {name : String}
    (hname : name ∈ u.columns.map Column.name) (hdeclared : name ∉ b.columns.map Column.name) :
    ∃ c ∈ t.columns, c.name = name ∧ name ∉ b.dropped := by
  rw [h.names, List.mem_append, List.mem_eraseDups] at hname
  have hkept := hname.resolve_right fun hnew => hdeclared (List.mem_filter.mp hnew).1
  obtain ⟨hthere, hundropped⟩ := List.mem_filter.mp hkept
  obtain ⟨c, hc, hcname⟩ := List.mem_map.mp hthere
  exact ⟨c, hc, hcname, by simpa using hundropped⟩

/-- Every column of an altered table is told by the table and the block, so two tables that
both are what the block makes have the same columns. -/
theorem Altered.subset {u u' : Table} (h : t.Altered b u) (h' : t.Altered b u') :
    u.columns ⊆ u'.columns := by
  intro c hc
  have heq : ∀ d, d ∈ u.columns → d ∈ u'.columns → d.name = c.name → c ∈ u'.columns := by
    intro d hd hd' hname
    rwa [← List.inj_on_of_nodup_map h.distinct hd hc hname]
  by_cases hdeclared : c.name ∈ b.columns.map Column.name
  · -- the last that the block declares of the name is in both
    obtain ⟨before, last, after, hcolumns, hname, hafter⟩ := exists_last_of_mem hdeclared
    rw [← hname] at hafter
    exact heq last (h.declared before last after hcolumns hafter)
      (h'.declared before last after hcolumns hafter) hname
  · -- the column was there, and it lost its flag in both or in neither
    obtain ⟨d, hd, hname, hkept⟩ := h.mem_names (List.mem_map_of_mem hc) hdeclared
    rw [← hname] at hkept hdeclared
    by_cases hkey : t.KeyDropped b d.name
    · exact heq _ (h.cleared d hd hkept hdeclared hkey)
        (h'.cleared d hd hkept hdeclared hkey) hname
    · exact heq d (h.kept d hd hkept hdeclared hkey) (h'.kept d hd hkept hdeclared hkey) hname

/-- The table and the block leave one outcome for the columns and for the keys on each. -/
theorem Altered.unique {u u' : Table} (h : t.Altered b u) (h' : t.Altered b u') :
    u.columns = u'.columns ∧ ∀ column, u.keysOn column = u'.keysOn column := by
  refine ⟨columns_eq_of_subset h'.distinct (h.names.trans h'.names.symm) (h.subset h'),
    fun column => ?_⟩
  by_cases hstated : column ∈ b.foreignKeys.map ForeignKey.column
  · obtain ⟨before, last, after, hfks, rfl, hafter⟩ := exists_last_of_mem hstated
    rw [h.stated before last after hfks hafter, h'.stated before last after hfks hafter]
  · by_cases hgone : column ∈ b.dropped ∨ t.KeyDropped b column
    · rw [h.keyless column hstated hgone, h'.keyless column hstated hgone]
    · rw [not_or] at hgone
      rw [h.keyed column hstated hgone.1 hgone.2, h'.keyed column hstated hgone.1 hgone.2]

end Altered

end Table

namespace History

/-- An alteration of a table renames its columns, to one outcome, and does with them what
it says. -/
theorem altered_alter (h : History) (b : Block) (path : String) {t : Table}
    (ht : h.snapshot.tables.get? b.table = some t) (hd : (t.columns.map Column.name).Nodup) :
    ∃ r, (∀ r', t.Renamed b.renamed r' ↔ r' = r) ∧ ∃ u, r.Altered b u
      ∧ (h.alter b path).snapshot.tables.get? b.table = some u := by
  refine ⟨_, Table.renamed_iff hd b.renamed, t.alter b, ?_, ?_⟩
  · exact Table.altered_enter (Table.nodup_names_renameColumns hd b.renamed)
  · rw [alter, ht]
    exact (Catalog.get?_insert _ _ _ _).trans (if_pos rfl)

/-- Posts with a title and a body, by a user and an editor. -/
def posts : Table where
  name := "posts"
  columns := [Draft.identifierColumn "id", ⟨"user_id", .foreignId, false, true, false⟩,
    { name := "title", type := .string },
    { name := "body", type := .text }, ⟨"editor_id", .foreignId, false, true, true⟩]
  foreignKeys := [⟨"user_id", "users"⟩, ⟨"editor_id", "users"⟩]

/-- A block that renames the title twice, in vain a user to a body, and drops the body to
declare it anew; the keys go by the column of the editor and by the index of the user, and
the user gets another. -/
def revision : Block where
  table := "posts"
  kind := .alter
  renamed := [("title", "headline"), ("headline", "caption"), ("user_id", "body")]
  dropped := ["body"]
  droppedForeign := ["editor_id", "posts_user_id_foreign", "posts_foreign"]
  columns := [{ name := "body", type := .string }, { name := "summary", type := .text },
    { name := "body", type := .json }]
  foreignKeys := [⟨"user_id", "teams"⟩, ⟨"user_id", "people"⟩]

/-- The posts after the block. -/
def revisedPosts : Table where
  name := "posts"
  columns := [Draft.identifierColumn "id", ⟨"user_id", .foreignId, false, false, false⟩,
    { name := "caption", type := .string }, ⟨"editor_id", .foreignId, false, false, true⟩,
    { name := "body", type := .json }, { name := "summary", type := .text }]
  foreignKeys := [⟨"user_id", "people"⟩]

/-- The revised posts are what the block says: the columns are renamed, dropped and entered
as it lists them, and so are the keys. -/
theorem altered_alter_posts :
    (posts.columns.map Column.name).Nodup
      ∧ ∃ r, posts.Renamed revision.renamed r ∧ r.Altered revision revisedPosts := by
  have hd : (posts.columns.map Column.name).Nodup := by decide +kernel
  obtain ⟨r, hr, u, hu, hget⟩ := altered_alter { snapshot := .ofTables [posts] } revision
    "2024_05_01_000000_revise_posts.php" (t := posts) (by decide +kernel) hd
  have hrevised : (alter { snapshot := .ofTables [posts] } revision
      "2024_05_01_000000_revise_posts.php").snapshot.tables.get? revision.table
        = some revisedPosts := by
    decide +kernel
  obtain rfl := Option.some.inj (hget.symm.trans hrevised)
  exact ⟨hd, r, (hr r).mpr rfl, hu⟩

end History

end SchemaAtlas
