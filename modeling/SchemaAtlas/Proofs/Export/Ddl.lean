import SchemaAtlas.Analysis
import SchemaAtlas.Export.Ddl
import SchemaAtlas.Proofs.Schema.History
import SchemaAtlas.Proofs.Session.Rewrite

/-!
# `SchemaAtlas.Proofs.Export.Ddl`: the columns that a statement declares

The statement that makes a table has a clause for each column, then one for each audit
column, and then those of the keys (`exists_clauses`). No column of a table stands
twice, so a name is declared twice only where the table has an audit column of its own
(`nodup_declaredNames_iff`).
-/

set_option autoImplicit false

namespace SchemaAtlas.Export

open SchemaAtlas.Scan

/-- Holds of a clause that declares a column of the name. -/
def Declares (clause name : String) : Prop :=
  ∃ rest, clause = "  " ++ ddlName name ++ " " ++ rest

/-- The clause of a column declares this column, by its name in quotes behind the indent. -/
theorem declares_columnClause (inlinePrimary : Bool) (c : Column) :
    Declares (columnClause inlinePrimary c) c.name := by
  refine ⟨ddlType c.type ++ (if c.nullable then "" else " NOT NULL")
    ++ (if inlinePrimary && c.isPrimary then " PRIMARY KEY" else ""), ?_⟩
  simp only [columnClause, String.append_assoc]

/-- The clause of an audit column declares it, as the clause of any other column does. -/
theorem declares_auditClause (name : String) : Declares (auditClause name) name :=
  ⟨"TIMESTAMP NULL DEFAULT NULL", by simp only [auditClause, String.append_assoc]; rfl⟩

/-- A clause with something else than a quote behind the indent declares no column, since a
declaration has the name of its column there. -/
theorem not_declares {front : String} {c : Char}
    (hfront : ∃ later, front.toList = ' ' :: ' ' :: c :: later)
    (hc : c ≠ '\x60') (rest name : String) : ¬Declares (front ++ rest) name := by
  rintro ⟨rest', heq⟩
  obtain ⟨later, hlater⟩ := hfront
  have hchars := congrArg String.toList heq
  rw [String.toList_append, hlater] at hchars
  simp only [ddlName, String.toList_append] at hchars
  have hquote : c = '\x60' := (List.cons.inj (List.cons.inj (List.cons.inj hchars).2).2).1
  exact hc hquote

/-- The clause of the primary key begins with the word for it and declares no column. -/
theorem not_declares_primaryClauses (t : Table) {clause : String}
    (hclause : clause ∈ primaryClauses t)
    (name : String) : ¬Declares clause name := by
  rw [primaryClauses] at hclause
  split at hclause
  · cases hclause
  · rw [List.mem_singleton.mp hclause, String.append_assoc]
    exact not_declares ⟨_, rfl⟩ (by decide) _ name

/-- The clause of a foreign key begins with the word for a constraint and declares no
column. -/
theorem not_declares_constraintClause (table : String) (fk : ForeignKey) (name : String) :
    ¬Declares (constraintClause table fk) name := by
  unfold constraintClause
  simp only [String.append_assoc]
  exact not_declares ⟨_, rfl⟩ (by decide) _ name

/-- The clauses of a statement declare the columns in order, and those behind them declare
none. -/
theorem exists_clauses (t : Table) :
    ∃ columns others, clauses t = columns ++ others
      ∧ List.Forall₂ Declares columns (declaredNames t)
      ∧ ∀ clause ∈ others, ∀ name, ¬Declares clause name := by
  refine ⟨t.columns.map (columnClause (hasInlinePrimary t))
    ++ Naming.auditColumns.map auditClause,
    primaryClauses t ++ t.foreignKeys.map (constraintClause t.name), ?_, ?_, ?_⟩
  · rw [clauses, List.append_assoc]
  · refine List.rel_append ?_ ?_
    · rw [List.forall₂_map_left_iff, List.forall₂_map_right_iff, List.forall₂_same]
      exact fun c _ => declares_columnClause _ c
    · rw [List.forall₂_map_left_iff, List.forall₂_same]
      exact fun name _ => declares_auditClause name
  · intro clause hclause name
    rcases List.mem_append.mp hclause with hclause | hclause
    · exact not_declares_primaryClauses t hclause name
    · obtain ⟨fk, -, rfl⟩ := List.mem_map.mp hclause
      exact not_declares_constraintClause t.name fk name

/-- In the schema of some files, the clauses of a table's statement declare the table's
columns and the audit columns, each clause one of them, and no name twice unless the
table has an audit column of its own. -/
theorem nodup_declaredNames_iff {files : List SourceFile} {table : String} {t : Table}
    (ht : (Analysis.ofSources files).snapshot.tables.get? table = some t) :
    (∃ columns others, clauses t = columns ++ others
        ∧ List.Forall₂ Declares columns (declaredNames t)
        ∧ ∀ clause ∈ others, ∀ name, ¬Declares clause name)
      ∧ ((declaredNames t).Nodup ↔ ∀ audit ∈ Naming.auditColumns,
        audit ∉ t.columns.map Column.name) := by
  have hget : (History.ofMigrations files).snapshot.tables.get? table = some t := by
    rwa [Analysis.ofSources, History.snapshot_ofSources] at ht
  have hnames := History.nodup_names_of_get? hget
  have haudit : Naming.auditColumns.Nodup := by decide
  refine ⟨exists_clauses t, ?_⟩
  rw [declaredNames, List.nodup_append_comm, List.nodup_append]
  constructor
  · rintro ⟨-, -, hdisjoint⟩ audit haudit hname
    exact hdisjoint audit haudit audit hname rfl
  · intro hfree
    refine ⟨haudit, hnames, ?_⟩
    rintro audit haudit _ hname rfl
    exact hfree audit haudit hname

/-- A migration that creates posts with a title. -/
def titleMigration : SourceFile :=
  ⟨"1_posts.php", "1_posts.php",
    "Schema::create('posts',function(Blueprint $t)\x7b$t->id();$t->string('title');\x7d);",
    .migration⟩

/-- Posts with a title have each column once: no column of theirs is one of the audit
columns that the statement adds. -/
theorem nodup_declaredNames_title :
    ∃ t : Table, (Analysis.ofSources [titleMigration]).snapshot.tables.get? "posts" = some t
      ∧ (declaredNames t).Nodup := by
  let id : Column := { name := "id", type := .id, isPrimary := true }
  let t : Table := ⟨"posts", [id, { name := "title", type := .string }], []⟩
  have hmakes := of_ofList (s := titleMigration.content)
    (p := fun cs => Session.Makes cs t ⟨⟨.create, "posts", "t"⟩, 46, 75⟩) rfl (by decide +kernel)
  have ht := Session.get?_ofSources_singleton rfl hmakes
  exact ⟨t, ht, (nodup_declaredNames_iff ht).2.mpr (by decide +kernel)⟩

/-- A migration that creates posts with an audit column of their own. -/
def auditMigration : SourceFile :=
  ⟨"1_posts.php", "1_posts.php",
    "Schema::create('posts',function(Blueprint $t)\x7b$t->id();$t->timestamp('created_at');\x7d);",
    .migration⟩

/-- Posts with an audit column of their own have it twice, once as it was declared and once
as it is added to every table. -/
theorem not_nodup_declaredNames_audit :
    ∃ t : Table, (Analysis.ofSources [auditMigration]).snapshot.tables.get? "posts" = some t
      ∧ ¬(declaredNames t).Nodup ∧ clauses t =
        ["  \x60id\x60 BIGINT AUTO_INCREMENT NOT NULL", "  \x60created_at\x60 TIMESTAMP NOT NULL",
          "  \x60created_at\x60 TIMESTAMP NULL DEFAULT NULL",
          "  \x60updated_at\x60 TIMESTAMP NULL DEFAULT NULL",
          "  PRIMARY KEY (\x60id\x60)"] := by
  let id : Column := { name := "id", type := .id, isPrimary := true }
  let t : Table := ⟨"posts", [id, { name := "created_at", type := .timestamp }], []⟩
  have hmakes := of_ofList (s := auditMigration.content)
    (p := fun cs => Session.Makes cs t ⟨⟨.create, "posts", "t"⟩, 46, 83⟩) rfl (by decide +kernel)
  exact ⟨t, Session.get?_ofSources_singleton rfl hmakes, by decide +kernel, by decide +kernel⟩

end SchemaAtlas.Export
