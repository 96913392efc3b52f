import SchemaAtlas.Proofs.Export.Ddl
import SchemaAtlas.Proofs.Migration.Alteration

/-!
# `SchemaAtlas.Proofs.Schema.Keys`: one foreign key on a column

Foreign keys are entered in the place of others on their column (`putForeignKey`), so
a creation has one key on a column at most (`soleKeys_of_mem_blocks`), and so has an
alteration as far as it drops and enters. Renames are the exception: the key of a
renamed column goes to the new name, and a key that was stated for that name without
a column stays there. Renames keep the keys on columns of their own exactly if none of
them does this (`soleKeys_renameColumns_iff`).

Where no alteration does it, each column has one foreign key at most in the schema of
the files, and the constraints of a table's statement have distinct names
(`soleKeys_ofSources`).
-/

set_option autoImplicit false

namespace SchemaAtlas

open SchemaAtlas.Migration SchemaAtlas.Scan

namespace Table

/-- The columns that foreign keys are on, declared or not. -/
def keyColumns (t : Table) : List String :=
  t.foreignKeys.map ForeignKey.column

/-- Holds of a table with at most one foreign key on each column. -/
def SoleKeys (t : Table) : Prop :=
  t.keyColumns.Nodup

instance (t : Table) : Decidable t.SoleKeys :=
  inferInstanceAs (Decidable t.keyColumns.Nodup)

/-- Holds of renames that give no column with a key a name that another key is on. -/
def RenamesApart : Table → List (String × String) → Prop
  | _, [] => True
  | t, r :: rest =>
    (t.canRename r.1 r.2 = true → r.1 ∈ t.keyColumns → r.2 ∉ t.keyColumns)
      ∧ (t.renameColumn r.1 r.2).RenamesApart rest

instance decidableRenamesApart :
    (t : Table) → (renames : List (String × String)) → Decidable (t.RenamesApart renames)
  | _, [] => inferInstanceAs (Decidable True)
  | t, r :: rest =>
    haveI := decidableRenamesApart (t.renameColumn r.1 r.2) rest
    inferInstanceAs
      (Decidable ((t.canRename r.1 r.2 = true → r.1 ∈ t.keyColumns → r.2 ∉ t.keyColumns)
      ∧ (t.renameColumn r.1 r.2).RenamesApart rest))

end Table

/-! ### Entering and dropping keys -/

/-- Entering a key leaves one key on a column at most, since it takes the place of the
others on its column. -/
theorem nodup_columns_putForeignKey {fks : List ForeignKey}
    (h : (fks.map ForeignKey.column).Nodup)
    (fk : ForeignKey) : ((putForeignKey fk fks).map ForeignKey.column).Nodup := by
  rw [putForeignKey, List.map_append, List.nodup_append]
  refine ⟨((List.filter_sublist).map ForeignKey.column).nodup h, List.nodup_singleton _, ?_⟩
  intro column hcolumn other hother
  obtain ⟨left, hleft, rfl⟩ := List.mem_map.mp hcolumn
  rw [List.mem_singleton.mp hother]
  exact bne_iff_ne.mp (List.mem_filter.mp hleft).2

/-- Entering keys one after another leaves one key on a column at most. -/
theorem nodup_columns_foldl_putForeignKey (new : List ForeignKey) {fks : List ForeignKey}
    (h : (fks.map ForeignKey.column).Nodup) :
    ((new.foldl (fun fks fk => putForeignKey fk fks) fks).map ForeignKey.column).Nodup :=
  List.foldlRecOn (motive := fun fks : List ForeignKey => (fks.map ForeignKey.column).Nodup) new
    _ h fun _ hd fk _ =>
    nodup_columns_putForeignKey hd fk

namespace Migration

/-- A block has one key on a column at most, even if its statements state several. -/
theorem soleKeys_of_mem_blocks {text : String} {b : Block} (hb : b ∈ blocks text) :
    (History.made b).SoleKeys := by
  obtain ⟨c, -, rfl⟩ := List.mem_map.mp hb
  show ((Draft.ofStatements _).finalForeignKeys.map ForeignKey.column).Nodup
  refine nodup_columns_foldl_putForeignKey _ ?_
  rw [Draft.ofStatements, Draft.foldl_add_eq]
  exact nodup_columns_foldl_putForeignKey _ List.nodup_nil

end Migration

namespace Table

variable {t : Table}

/-- Dropping columns leaves one key on a column at most, since keys are only taken away. -/
theorem SoleKeys.dropColumns (h : t.SoleKeys) (names : List String) :
    (t.dropColumns names).SoleKeys :=
  ((List.filter_sublist).map ForeignKey.column).nodup h

/-- Dropping foreign keys leaves one key on a column at most, for the same reason. -/
theorem SoleKeys.dropForeignKeys (h : t.SoleKeys) (entries : List String) :
    (t.dropForeignKeys entries).SoleKeys :=
  List.foldlRecOn (motive := SoleKeys) (entries.filterMap t.droppedForeignColumn?)
    Table.dropForeignKey h
    fun _ hu _ _ => (List.filter_sublist.map ForeignKey.column).nodup hu

/-- Entering columns and keys leaves one key on a column at most: columns have no part in
it, and keys replace one another. -/
theorem SoleKeys.enter (h : t.SoleKeys) (columns : List Column) (fks : List ForeignKey) :
    (t.enter columns fks).SoleKeys :=
  nodup_columns_foldl_putForeignKey fks h

/-! ### Renames -/

section Rename

variable {old new : String}

/-- A name that is given for another leaves distinct names distinct exactly if not both were
there. -/
theorem nodup_map_replace_iff {names : List String} (h : names.Nodup) (hne : old ≠ new) :
    (names.map fun name => if name = old then new else name).Nodup
      ↔ (old ∈ names → new ∉ names) := by
  constructor
  · intro hnodup hold hnew
    refine hne (List.inj_on_of_nodup_map hnodup hold hnew ?_)
    rw [if_pos rfl, if_neg hne.symm]
  · intro hapart
    refine h.map_on ?_
    intro a ha b hb heq
    split at heq
    · rename_i hao
      split at heq
      · rename_i hbo
        exact hao.trans hbo.symm
      · -- the old name became another one that is there
        exact absurd (heq ▸ hb) (hapart (hao ▸ ha))
    · split at heq
      · rename_i hbo
        exact absurd (heq ▸ ha) (hapart (hbo ▸ hb))
      · exact heq

/-- A rename that can be done replaces the name among the columns that keys are on, wherever
it stands there. -/
theorem keyColumns_renameColumn (hcan : t.canRename old new = true) :
    (t.renameColumn old new).keyColumns = t.keyColumns.map fun name => if name = old then new
      else name := by
  rw [renameColumn, if_pos hcan]
  show (moveForeignKeys old new t.foreignKeys).map ForeignKey.column = _
  rw [moveForeignKeys, keyColumns, List.map_map, List.map_map]
  refine List.map_congr_left ?_
  intro fk _
  show (if fk.column = old then _ else fk).column = if fk.column = old then new else fk.column
  split
  · rfl
  · rfl

/-- A rename leaves one key on a column at most if and only if it does not give a column
with a key a name that a stray key is on. -/
theorem soleKeys_renameColumn_iff :
    (t.renameColumn old new).SoleKeys
      ↔ t.SoleKeys ∧ (t.canRename old new = true → old ∈ t.keyColumns → new ∉ t.keyColumns) := by
  by_cases hcan : t.canRename old new = true
  · obtain ⟨hold, hnew⟩ := (t.canRename_iff old new).mp hcan
    have hne : old ≠ new := fun heq => hnew (heq ▸ hold)
    rw [SoleKeys, keyColumns_renameColumn hcan]
    constructor
    · intro h
      exact ⟨.of_map _ h, fun _ => (nodup_map_replace_iff (.of_map _ h) hne).mp h⟩
    · intro ⟨hsole, hapart⟩
      exact (nodup_map_replace_iff hsole hne).mpr (hapart hcan)
  · have hstays : t.renameColumn old new = t := if_neg hcan
    rw [hstays]
    exact ⟨fun h => ⟨h, fun hyes => absurd hyes hcan⟩, And.left⟩

end Rename

/-- Renames leave one key on a column at most if that was so before and no column with a
key gets a name that another key is on, and only then. -/
theorem soleKeys_renameColumns_iff (renames : List (String × String)) :
    (t.renameColumns renames).SoleKeys ↔ t.SoleKeys ∧ t.RenamesApart renames := by
  induction renames generalizing t with
  | nil => exact ⟨fun h => ⟨h, trivial⟩, And.left⟩
  | cons r rest ih =>
      show ((t.renameColumn r.1 r.2).renameColumns rest).SoleKeys ↔ t.SoleKeys ∧ _ ∧ _
      rw [ih, soleKeys_renameColumn_iff, and_assoc]

/-- An alteration leaves one key on a column at most if its renames do. What it drops and
enters always does. -/
theorem SoleKeys.alter (h : t.SoleKeys) {b : Block} (hb : t.RenamesApart b.renamed) :
    (t.alter b).SoleKeys := by
  have hrenamed : (t.renameColumns b.renamed).SoleKeys :=
    (soleKeys_renameColumns_iff _).mpr ⟨h, hb⟩
  exact ((hrenamed.dropColumns b.dropped).dropForeignKeys b.droppedForeign).enter b.columns
    b.foreignKeys

end Table

/-! ### Constraints -/

namespace Export

/-- Holds of a clause that states a constraint of the name. -/
def Constrains (clause name : String) : Prop :=
  ∃ rest, clause = "  CONSTRAINT " ++ ddlName name ++ " " ++ rest

/-- The name of the constraint that a key on a column becomes. -/
def constraintName (table column : String) : String :=
  "fk_" ++ table ++ "_" ++ column

/-- The clause that is exported for a key adds the constraint of that name, so two keys on
one column give two clauses of one name. -/
theorem constrains_constraintClause (table : String) (fk : ForeignKey) :
    Constrains (constraintClause table fk) (constraintName table fk.column) := by
  refine ⟨"FOREIGN KEY (" ++ ddlName fk.column ++ ") REFERENCES " ++ ddlName fk.target ++ " ("
    ++ ddlName Naming.identifier ++ ") ON DELETE CASCADE", ?_⟩
  have hword : " FOREIGN KEY (" = " " ++ "FOREIGN KEY (" := rfl
  unfold constraintClause constraintName
  simp only [hword, String.append_assoc]

/-- A clause with something else than the letter `C` behind the indent states no constraint. -/
theorem not_constrains {front : String} {c : Char}
    (hfront : ∃ later, front.toList = ' ' :: ' ' :: c :: later)
    (hc : c ≠ 'C') (rest name : String) : ¬Constrains (front ++ rest) name := by
  rintro ⟨rest', heq⟩
  obtain ⟨later, hlater⟩ := hfront
  have hchars := congrArg String.toList heq
  rw [String.append_assoc, String.append_assoc, String.toList_append, String.toList_append,
    hlater] at hchars
  exact hc (List.cons.inj (List.cons.inj (List.cons.inj hchars).2).2).1

/-- The clauses of a statement end in the constraints, one for each key in order, and those
before them state none. -/
theorem exists_constraints (t : Table) :
    ∃ others constraints, clauses t = others ++ constraints
      ∧ List.Forall₂ Constrains constraints (t.keyColumns.map (constraintName t.name))
      ∧ ∀ clause ∈ others, ∀ name, ¬Constrains clause name := by
  refine ⟨t.columns.map (columnClause (hasInlinePrimary t)) ++ Naming.auditColumns.map auditClause
    ++ primaryClauses t, t.foreignKeys.map (constraintClause t.name), rfl, ?_, ?_⟩
  · rw [Table.keyColumns, List.map_map, List.forall₂_map_left_iff, List.forall₂_map_right_iff,
      List.forall₂_same]
    exact fun fk _ => constrains_constraintClause t.name fk
  · intro clause hclause name
    -- the clauses of columns go on with a quote, and that of the primary key with its word
    rcases List.mem_append.mp hclause with hclause | hclause
    · have hquoted : ∃ front rest, clause = front ++ rest
          ∧ ∃ later, front.toList = ' ' :: ' ' :: '\x60' :: later := by
        rcases List.mem_append.mp hclause with hclause | hclause
        · obtain ⟨c, -, rfl⟩ := List.mem_map.mp hclause
          refine ⟨"  \x60",
            c.name ++ "\x60 " ++ ddlType c.type ++ (if c.nullable then "" else " NOT NULL")
            ++ (if hasInlinePrimary t && c.isPrimary then " PRIMARY KEY" else ""), ?_, _, rfl⟩
          have hquote : "  \x60" = "  " ++ "\x60" := rfl
          have hblank : "\x60 " = "\x60" ++ " " := rfl
          unfold columnClause ddlName
          simp only [hquote, hblank, String.append_assoc]
        · obtain ⟨audit, -, rfl⟩ := List.mem_map.mp hclause
          refine ⟨"  \x60", audit ++ "\x60 TIMESTAMP NULL DEFAULT NULL", ?_, _, rfl⟩
          have hquote : "  \x60" = "  " ++ "\x60" := rfl
          have hword : "\x60 TIMESTAMP NULL DEFAULT NULL"
              = "\x60" ++ " TIMESTAMP NULL DEFAULT NULL" := rfl
          unfold auditClause ddlName
          simp only [hquote, hword, String.append_assoc]
      obtain ⟨front, rest, rfl, hfront⟩ := hquoted
      exact not_constrains hfront (by decide) rest name
    · rw [primaryClauses] at hclause
      split at hclause
      · cases hclause
      · rw [List.mem_singleton.mp hclause, String.append_assoc]
        exact not_constrains ⟨_, rfl⟩ (by decide) _ name

/-- Constraints have distinct names if and only if each column has one key at most. -/
theorem nodup_constraintNames_iff (t : Table) :
    (t.keyColumns.map (constraintName t.name)).Nodup ↔ t.SoleKeys := by
  refine List.nodup_map_iff ?_
  intro column other h
  have hchars := congrArg String.toList h
  simp only [constraintName, String.toList_append, List.append_assoc] at hchars
  have hsame := List.append_cancel_left (List.append_cancel_left (List.append_cancel_left hchars))
  exact String.toList_inj.mp hsame

end Export

/-! ### The whole story -/

namespace History

/-- Holds of the renames of an alteration that leave the keys of a table apart. -/
def KeysApart (t : Table) (b : Block) : Prop :=
  t.RenamesApart b.renamed

instance (t : Table) (b : Block) : Decidable (KeysApart t b) :=
  Table.decidableRenamesApart t b.renamed

/-- In the schema of some files each column of a table has one foreign key at most, if no
alteration gives a column with a key a name that another key is on. Then the statement
of the table states one constraint for each key, and no two of one name. -/
theorem soleKeys_ofSources {files : List SourceFile} {table : String} {t : Table}
    (ht : (Analysis.ofSources files).snapshot.tables.get? table = some t)
    (hapart : Along KeysApart none (story table files)) :
    t.SoleKeys
      ∧ (∃ others constraints, Export.clauses t = others ++ constraints
        ∧ List.Forall₂ Export.Constrains constraints
          (t.keyColumns.map (Export.constraintName t.name))
        ∧ ∀ clause ∈ others, ∀ name, ¬Export.Constrains clause name)
      ∧ (t.keyColumns.map (Export.constraintName t.name)).Nodup := by
  have hmade : ∀ b ∈ story table files, (made b).SoleKeys := by
    intro b hb
    obtain ⟨f, -, hf⟩ := List.mem_flatMap.mp (List.mem_filter.mp hb).1
    exact soleKeys_of_mem_blocks hf
  have hget : (ofMigrations files).snapshot.tables.get? table = some t := by
    rwa [Analysis.ofSources, snapshot_ofSources] at ht
  rw [get?_ofMigrations] at hget
  have hsole := of_foldl_next_of_along (p := Table.SoleKeys) (fun _ hu => by cases hu)
    (fun b hb _ => hmade b hb)
    (fun b _ u hu hb => hu.alter hb) hapart t hget
  exact ⟨hsole, Export.exists_constraints t, (Export.nodup_constraintNames_iff t).mpr hsole⟩

/-- A migration that states a key for a column it does not declare, and gives the column of
another key a name that is free. -/
def keyedMigration : SourceFile :=
  ⟨"1_posts.php", "1_posts.php",
    "Schema::create('posts',function(Blueprint $t)\x7b$t->foreignId('user_id');$t->foreign('author')->on('users');\x7d);"
      ++ "Schema::table('posts',function(Blueprint $t)\x7b$t->renameColumn('user_id','owner');\x7d);",
    .migration⟩

/-- The closure that creates the table. -/
def keyedClosure : Closure := ⟨⟨.create, "posts", "t"⟩, 46, 106⟩

/-- In the example one of two columns with a key gets another name. Each of the two names
has one key in the end. -/
theorem soleKeys_ofSources_owner :
    ∃ t : Table, (Analysis.ofSources [keyedMigration]).snapshot.tables.get? "posts" = some t
      ∧ t.keyColumns = ["owner", "author"] ∧ t.SoleKeys := by
  let owner : Column := { name := "owner", type := .foreignId, isForeign := true }
  let t : Table := ⟨"posts", [owner], [⟨"owner", "users"⟩, ⟨"author", "users"⟩]⟩
  have hdecided := of_ofList_append (t := keyedMigration.content)
    (p := fun cs => Session.Makes cs t keyedClosure
      ∧ decide (Along KeysApart none (Session.blocksOf "posts" cs)) = true)
    rfl rfl rfl (by decide +kernel)
  obtain ⟨hmakes, hapart⟩ := hdecided
  have ht := Session.get?_ofSources_singleton rfl hmakes
  rw [← Session.story_singleton rfl] at hapart
  exact ⟨t, ht, rfl, (soleKeys_ofSources ht (of_decide_eq_true hapart)).1⟩

/-- The same migration, but the column gets the name that the key is stated for. -/
def takenMigration : SourceFile :=
  ⟨"1_posts.php", "1_posts.php",
    "Schema::create('posts',function(Blueprint $t)\x7b$t->foreignId('user_id');$t->foreign('author')->on('users');\x7d);"
      ++ "Schema::table('posts',function(Blueprint $t)\x7b$t->renameColumn('user_id','author');\x7d);",
    .migration⟩

/-- A column that gets the name of a key without a column has two keys, and the statement
has two constraints of one name. -/
theorem not_soleKeys_taken :
    ∃ t : Table, (Analysis.ofSources [takenMigration]).snapshot.tables.get? "posts" = some t
      ∧ ¬t.SoleKeys ∧ t.keyColumns.map (Export.constraintName t.name)
        = ["fk_posts_author", "fk_posts_author"] := by
  let author : Column := { name := "author", type := .foreignId, isForeign := true }
  let t : Table := ⟨"posts", [author], [⟨"author", "users"⟩, ⟨"author", "users"⟩]⟩
  have hmakes :=
    of_ofList_append (t := takenMigration.content)
    (p := fun cs => Session.Makes cs t keyedClosure)
    rfl rfl rfl (by decide +kernel)
  exact ⟨t, Session.get?_ofSources_singleton rfl hmakes, by decide +kernel, by decide +kernel⟩

end History

end SchemaAtlas
