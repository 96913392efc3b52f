import SchemaAtlas.Analysis
import SchemaAtlas.Proofs.Schema.History

/-!
# `SchemaAtlas.Proofs.Schema.Record`: what a schema tells about its files

A schema keeps a record of the files that made each table. The record is told here
by the trail of all blocks in their order: a table is there once a block of the way
forward has created it, and its files are those of its blocks from that block on
(`Records`). One block keeps the record (`Records.applyBlock`), so a trail of any
length does, and with it the schema of any set of files (`wellFormed_ofSources`).
-/

set_option autoImplicit false

namespace SchemaAtlas.History

open SchemaAtlas.Migration

/-! ### Trails -/

/-- A block, and the path of the migration that it stands in. -/
structure Step where
  path : String
  block : Block

namespace Step

/-- Holds of a block that has a part in a table. -/
def concerns (table : String) (step : Step) : Bool :=
  !step.block.reverse && step.block.table == table

/-- Holds of a block that creates its table. -/
def creates (step : Step) : Bool :=
  step.block.kind == .create

end Step

/-- The blocks of all migrations among some files, in order of creation and, in one
migration, of their places. -/
def trail (files : List SourceFile) : List Step :=
  (SourceFile.chronological (SourceFile.ofKind .migration files)).flatMap fun f =>
    (blocks f.content).map fun b => ⟨f.path, b⟩

/-- The blocks of a table from the first one on that creates it. -/
def sinceCreation (table : String) (steps : List Step) : List Step :=
  (steps.filter (Step.concerns table)).dropWhile fun step => !step.creates

/-- The history of the migrations is that of their trail, which has all blocks in their
order, each with its file. -/
theorem ofMigrations_eq_foldl_trail (files : List SourceFile) :
    ofMigrations files = (trail files).foldl (fun h step => h.applyBlock step.path step.block)
      {} := by
  rw [ofMigrations, trail, List.foldl_flatMap]
  simp only [List.foldl_map]
  rfl

/-- A block without a part in a table adds nothing to what follows its creation. -/
theorem sinceCreation_concat_of_not_concerns {table : String} {step : Step}
    (h : step.concerns table = false) (steps : List Step) :
    sinceCreation table (steps ++ [step]) = sinceCreation table steps := by
  rw [sinceCreation, List.filter_append, List.filter_cons_of_neg (by simp [h]), List.filter_nil,
    List.append_nil, sinceCreation]

/-- A block of a table follows the table's creation if there is one before it or it
is one itself. -/
theorem sinceCreation_concat {table : String} {step : Step} (h : step.concerns table = true)
    (steps : List Step) :
    sinceCreation table (steps ++ [step])
      = if sinceCreation table steps = [] ∧ step.creates = false then []
        else sinceCreation table steps ++ [step] := by
  rw [sinceCreation, List.filter_append, List.filter_cons_of_pos h, List.filter_nil,
    List.dropWhile_append, ← sinceCreation]
  cases hsteps : sinceCreation table steps with
  | nil => cases hcreates : step.creates with
    | true => simp [hcreates]
    | false => simp [hcreates]
  | cons first rest => simp

/-- A block of the way forward that follows its table's creation, or is one, is among those
from there on. -/
theorem sinceCreation_concat_of_follows {path : String} {b : Block} (hreverse : b.reverse = false)
    {steps : List Step} (hfollows : sinceCreation b.table steps ≠ [] ∨ b.kind = .create) :
    sinceCreation b.table (steps ++ [⟨path, b⟩]) = sinceCreation b.table steps
      ++ [⟨path, b⟩] := by
  have hconcerns : Step.concerns b.table ⟨path, b⟩ = true := by simp [Step.concerns, hreverse]
  rw [sinceCreation_concat hconcerns, if_neg]
  rintro ⟨hnil, hcreates⟩
  rcases hfollows with hne | hkind
  · exact hne hnil
  · simp [Step.creates, hkind] at hcreates

/-- A block of another table does not belong to what a table has gone through since its
creation. -/
theorem sinceCreation_concat_of_ne {name path : String} {b : Block} (hname : name ≠ b.table)
    (steps : List Step) : sinceCreation name (steps ++ [⟨path, b⟩]) = sinceCreation name steps :=
  sinceCreation_concat_of_not_concerns (by simp [Step.concerns, Ne.symm hname]) steps

/-! ### The record of a trail -/

/-- What a schema tells about the trail that led to it. -/
structure Records (steps : List Step) (s : Snapshot) : Prop where
  /-- A table goes by its own name. -/
  keys : ∀ name t, s.tables.get? name = some t → t.name = name
  /-- The tables have files, and nothing else does. -/
  names : s.sources.names = s.tables.names
  /-- The tables are those that have been created. -/
  known : ∀ name, name ∈ s.tables.names ↔ sinceCreation name steps ≠ []
  /-- The files of a table are those of its blocks from its creation on. -/
  sources : ∀ name ∈ s.tables.names,
    s.sources.get? name = some ((sinceCreation name steps).map Step.path)

/-- Before the first step there is nothing to record: no tables, no sources and no steps. -/
theorem records_nil : Records [] {} where
  keys := by
    intro name t h
    cases h
  names := rfl
  known := by
    intro name
    show name ∈ [] ↔ [] ≠ []
    simp
  sources := by
    intro name h
    cases h

namespace Records

variable {steps : List Step} {h : History}

/-- The files of a table are those of the steps since its creation, and there are none for a
table that is not there. -/
theorem getD_sources (hr : Records steps h.snapshot) (name : String) :
    (h.snapshot.sources.get? name).getD [] = (sinceCreation name steps).map Step.path := by
  by_cases hname : name ∈ h.snapshot.tables.names
  · rw [hr.sources name hname, Option.getD_some]
  · have hnone : h.snapshot.sources.get? name = none := by
      rw [Catalog.get?_eq_none_iff, hr.names]
      exact hname
    have hnil : sinceCreation name steps = [] := by
      by_contra hne
      exact hname ((hr.known name).mpr hne)
    rw [hnone, hnil]
    rfl

/-- The schema with a table of a block, old or new, entered under its name together
with the block's file. -/
theorem enter (hr : Records steps h.snapshot) {path : String} {b : Block} {t : Table}
    (hreverse : b.reverse = false) (ht : t.name = b.table)
    (hfollows : sinceCreation b.table steps ≠ [] ∨ b.kind = .create) :
    Records (steps ++ [⟨path, b⟩]) { h.snapshot with
      tables := h.snapshot.tables.insert b.table t
      sources := recordSource b.table path h.snapshot.sources } := by
  -- the steps of the block's own table get longer by one, those of other tables do not
  have hsame : sinceCreation b.table (steps ++ [⟨path, b⟩]) = sinceCreation b.table steps
      ++ [⟨path, b⟩] :=
    sinceCreation_concat_of_follows hreverse hfollows
  refine ⟨?_, ?_, ?_, ?_⟩
  · intro name u hu
    rw [Catalog.get?_insert] at hu
    split at hu
    · rename_i hname
      rw [← Option.some.inj hu, ht, hname]
    · exact hr.keys name u hu
  · show (recordSource b.table path h.snapshot.sources).names = _
    rw [recordSource, Catalog.names_insert, Catalog.names_insert, hr.names]
  · intro name
    rw [Catalog.mem_names_insert]
    by_cases hname : name = b.table
    · rw [hname, hsame]
      simp
    · rw [sinceCreation_concat_of_ne hname, ← hr.known name]
      simp [hname]
  · intro name hmemName
    show (recordSource b.table path h.snapshot.sources).get? name = _
    rw [recordSource, Catalog.get?_insert]
    by_cases hname : name = b.table
    · rw [if_pos hname, hname, hsame, hr.getD_sources, List.map_append]
      rfl
    · rw [if_neg hname, sinceCreation_concat_of_ne hname]
      exact hr.sources name (((Catalog.mem_names_insert _ _ _ _).mp hmemName).resolve_left hname)

/-- A block that changes nothing is one of the way back or has no table to alter. -/
theorem skip (hr : Records steps h.snapshot) {path : String} {b : Block}
    (hskipped : b.reverse = true ∨ b.kind = .alter ∧ sinceCreation b.table steps = []) :
    Records (steps ++ [⟨path, b⟩]) h.snapshot := by
  -- no table's steps since its creation get longer, not even those of the block's table
  have hsame : ∀ name, sinceCreation name (steps ++ [⟨path, b⟩]) = sinceCreation name steps := by
    intro name
    cases hconcerns : Step.concerns name ⟨path, b⟩ with
    | false => exact sinceCreation_concat_of_not_concerns hconcerns steps
    | true =>
        have hpart : b.reverse = false ∧ b.table = name := by
          simpa [Step.concerns] using hconcerns
        rcases hskipped with hreverse | ⟨hkind, hnil⟩
        · rw [hpart.1] at hreverse
          cases hreverse
        · rw [hpart.2] at hnil
          rw [sinceCreation_concat hconcerns, if_pos ⟨hnil, by simp [Step.creates, hkind]⟩, hnil]
  exact ⟨hr.keys, hr.names, fun name => by rw [hsame]; exact hr.known name,
    fun name hname => by rw [hsame]; exact hr.sources name hname⟩

/-- One more block keeps the record, be it a block that creates, one that alters, or one
that has no table to alter. -/
theorem applyBlock (hr : Records steps h.snapshot) (path : String) (b : Block) :
    Records (steps ++ [⟨path, b⟩]) (h.applyBlock path b).snapshot := by
  rw [History.applyBlock]
  cases hreverse : b.reverse with
  | true => exact hr.skip (.inl hreverse)
  | false =>
      rw [if_neg Bool.false_ne_true]
      cases hkind : b.kind with
      | create => exact hr.enter (t :=
          ⟨b.table, b.columns, b.foreignKeys⟩) hreverse rfl (.inr hkind)
      | alter =>
          have hknown := hr.known b.table
          show Records _ (h.alter b path).snapshot
          rw [History.alter]
          cases htable : h.snapshot.tables.get? b.table with
          | none =>
              refine hr.skip (.inr ⟨hkind, ?_⟩)
              by_contra hne
              exact (Catalog.get?_eq_none_iff _ _).mp htable (hknown.mpr hne)
          | some t =>
              have hne : sinceCreation b.table steps ≠ [] :=
                hknown.mp (Catalog.mem_names_of_get? htable)
              exact hr.enter hreverse ((Table.name_alter t b).trans (hr.keys _ _ htable))
                (.inl hne)

/-- A trail of any length keeps the record, by induction over its steps. -/
theorem foldl (hr : Records steps h.snapshot) (later : List Step) :
    Records (steps ++ later)
      (later.foldl (fun h step => h.applyBlock step.path step.block) h).snapshot := by
  induction later generalizing steps h with
  | nil =>
      rw [List.append_nil]
      exact hr
  | cons step later ih =>
      rw [List.foldl_cons, List.append_cons]
      exact ih (hr.applyBlock step.path step.block)

end Records

/-! ### The schema of some files -/

/-- What holds of the schema of any files: it records their trail, and no column
name stands twice in one of its tables. -/
structure WellFormed (files : List SourceFile) (s : Snapshot) :
    Prop extends Records (trail files) s where
  distinct : ∀ name t, s.tables.get? name = some t → (t.columns.map Column.name).Nodup

/-- The schema of any files is well formed. Nothing is asked of the files, neither of their
names nor of what is in them. -/
theorem wellFormed_ofSources (files : List SourceFile) :
    WellFormed files (Analysis.ofSources files).snapshot := by
  have hrecords : Records (trail files) (ofMigrations files).snapshot := by
    rw [ofMigrations_eq_foldl_trail]
    exact records_nil.foldl (h := {}) (trail files)
  show WellFormed files (ofSources files).snapshot
  rw [snapshot_ofSources]
  exact ⟨⟨hrecords.keys, hrecords.names, hrecords.known, hrecords.sources⟩,
    fun name t ht => nodup_names_of_get? ht⟩

end SchemaAtlas.History
