import Mathlib.Data.List.Nodup
import SchemaAtlas.Proofs.Migration.Rewritten
import SchemaAtlas.Proofs.Schema.History
import SchemaAtlas.Session.Basic
import SchemaAtlas.Suggestion.Basic

/-!
# `SchemaAtlas.Proofs.Session.Generated`: sessions on migrations that are made here

`Generated s batch models` says that the files of a session are the migrations of
some tables, each under its file name, and models. What such a session says about
a table is what the table's own migration says (`Generated.tables`), and writing
other columns into a table replaces that one migration (`Generated.editTable`):
the session is again a generated one.
-/

set_option autoImplicit false

namespace SchemaAtlas

open Migration Text

/-! ### Lists with distinct keys -/

/-- In a list with distinct keys, a change at one place is a change at one key. -/
theorem set_eq_map {α β : Type} [DecidableEq β] {key : α → β} {l : List α} (h : (l.map key).Nodup)
    {i : Nat} {a : α} (hi : l[i]? = some a) (f : α → α) :
    l.set i (f a) = l.map fun x => if key x = key a then f x else x := by
  induction l generalizing i with
  | nil => cases hi
  | cons b l ih =>
      rw [List.map_cons, List.nodup_cons] at h
      cases i with
      | zero =>
          obtain rfl : b = a := by simpa using hi
          have hrest : l.map (fun x => if key x = key b then f x else x) = l := by
            conv_rhs => rw [← List.map_id l]
            refine List.map_congr_left fun x hx => if_neg fun heq => h.1 ?_
            exact List.mem_map.mpr ⟨x, hx, heq⟩
          rw [List.set_cons_zero, List.map_cons, if_pos rfl, hrest]
      | succ i =>
          rw [List.getElem?_cons_succ] at hi
          have hne : key b ≠ key a := fun heq =>
            h.1 (List.mem_map.mpr ⟨a, List.mem_of_getElem? hi, heq.symm⟩)
          rw [List.set_cons_succ, List.map_cons, if_neg hne, ih h.2 hi]

/-! ### The history of migrations that are made here -/

/-- Holds of tables that can be edited: their parts have names, and one column at
most is an identifier. -/
structure Editable (t : Table) : Prop where
  writable : Writable t
  identifiers : (t.columns.filter fun c => c.type == .id).length ≤ 1

/-- What a migration creates for a table that can be edited can be edited again. -/
theorem editable_extracted {t : Table} (h : Editable t) : Editable (extracted t) :=
  ⟨writable_extracted h.writable h.identifiers, oneIdentifier_extracted h.writable h.identifiers⟩

namespace History

/-- A migration that is made here creates its table, and does nothing else: no closure
stands in the way back. -/
theorem applyMigration_source {t : Table} (h : Writable t) (path : String) (history : History) :
    history.applyMigration (blocks (source t)) path = history.withTable path (extracted t) := by
  obtain ⟨b, hb, hunplaced⟩ := exists_blocks_source_eq h
  have htable : b.table = t.name := congrArg Block.table hunplaced
  have hkind : b.kind = .create := congrArg Block.kind hunplaced
  have hreverse : b.reverse = false := congrArg Block.reverse hunplaced
  have hcolumns : b.columns = (extracted t).columns := congrArg Block.columns hunplaced
  have hkeys : b.foreignKeys = (extracted t).foreignKeys := congrArg Block.foreignKeys hunplaced
  rw [hb, applyMigration, List.foldl_cons, List.foldl_nil, applyBlock, hreverse, hkind]
  simp only [Bool.false_eq_true, if_false]
  rw [create, htable, hcolumns, hkeys]
  rfl

end History

/-! ### Generated sessions -/

namespace Session

/-- The migrations of tables, each under its file name. -/
def migrations (batch : List (String × Table)) : List SourceFile :=
  batch.map fun m => Suggestion.migrationFile m.1 m.2

section MigrationFile

variable (name : String) (t u : Table)

/-- The migration of a table has the file name that it is made under, whatever the table
is. -/
theorem name_migrationFile : (Suggestion.migrationFile name t).name = name :=
  rfl

/-- It lies in the folder of migrations under that name. -/
theorem path_migrationFile : (Suggestion.migrationFile name t).path = folder ++ "/" ++ name :=
  rfl

/-- Its content is the source of the table, so the lemmas about sources apply to it. -/
theorem content_migrationFile : (Suggestion.migrationFile name t).content = source t :=
  rfl

/-- With the source of another table as its content, it is the migration of that table under
the same name. -/
theorem withContent_migrationFile :
    (Suggestion.migrationFile name t).withContent (source u) = Suggestion.migrationFile name u :=
  rfl

end MigrationFile

/-- The tables in the order of their migrations. -/
def inOrder (batch : List (String × Table)) : List (String × Table) :=
  batch.mergeSort fun a b => a.1 ≤ b.1

/-- The order of migrations is that of their names; what is in them has no part
in it. -/
theorem notAfter_migrationFile (a b : String) (t u : Table) :
    (Suggestion.migrationFile a t).notAfter (Suggestion.migrationFile b u) = decide (a ≤ b) := by
  rw [SourceFile.notAfter, name_migrationFile, name_migrationFile, path_migrationFile,
    path_migrationFile]
  by_cases heq : a = b
  · rw [if_pos heq, heq, decide_eq_true (String.le_refl _), decide_eq_true (String.le_refl _)]
  · rw [if_neg heq]

/-- Holds of a session on the migrations of distinct tables and on models. -/
structure Generated (s : Session) (batch : List (String × Table)) (models : List SourceFile) :
    Prop where
  files : s.files = migrations batch ++ models
  models : ∀ f ∈ models, f.kind = .model
  analysis : s.analysis = .ofSources s.files
  distinct : (batch.map fun m => m.2.name).Nodup
  editable : ∀ m ∈ batch, Editable m.2

/-- Ordering the migrations neither adds nor removes any of them. -/
theorem mem_inOrder {batch : List (String × Table)} {m : String × Table} :
    m ∈ inOrder batch ↔ m ∈ batch :=
  List.mem_mergeSort

/-- Among migrations and models, the files of the kind of migrations are the migrations, in
the same order. -/
theorem ofKind_migration {models : List SourceFile} (h : ∀ f ∈ models, f.kind = .model)
    (batch : List (String × Table)) :
    SourceFile.ofKind .migration (migrations batch ++ models) = migrations batch := by
  have hmigrations : (migrations batch).filter (fun f => f.kind == .migration)
      = migrations batch := by
    refine List.filter_eq_self.mpr fun f hf => ?_
    obtain ⟨m, -, rfl⟩ := List.mem_map.mp hf
    rfl
  have hmodels : models.filter (fun f => f.kind == .migration) = [] := by
    refine List.filter_eq_nil_iff.mpr fun f hf => ?_
    rw [h f hf]
    decide
  rw [SourceFile.ofKind, List.filter_append, hmigrations, hmodels, List.append_nil]

/-- Among migrations and models, the files of the kind of models are the models, in the same
order. -/
theorem ofKind_model {models : List SourceFile} (h : ∀ f ∈ models, f.kind = .model)
    (batch : List (String × Table)) :
    SourceFile.ofKind .model (migrations batch ++ models) = models := by
  have hmigrations : (migrations batch).filter (fun f => f.kind == .model) = [] := by
    refine List.filter_eq_nil_iff.mpr fun f hf => ?_
    obtain ⟨m, -, rfl⟩ := List.mem_map.mp hf
    exact Bool.false_ne_true
  have hmodels : models.filter (fun f => f.kind == .model) = models := by
    refine List.filter_eq_self.mpr fun f hf => ?_
    rw [h f hf]
    decide
  rw [SourceFile.ofKind, List.filter_append, hmigrations, hmodels, List.nil_append]

namespace Generated

variable {s : Session} {batch : List (String × Table)} {models : List SourceFile}
  (h : Generated s batch models)

include h

/-- The history of the migrations enters the extracted tables one after another, in the
order of the file names. -/
theorem ofMigrations_eq : History.ofMigrations s.files
    = ((inOrder batch).map fun m => (folder ++ "/" ++ m.1, extracted m.2)).foldl
        (fun h m => h.withTable m.1 m.2) {} := by
  have hsort : SourceFile.chronological (migrations batch) = migrations (inOrder batch) := by
    rw [SourceFile.chronological, migrations, migrations, inOrder,
      List.map_mergeSort fun a _ b _ => (notAfter_migrationFile a.1 b.1 a.2 b.2).symm]
  rw [History.ofMigrations, h.files, ofKind_migration h.models, hsort, migrations, List.foldl_map,
    List.foldl_map]
  refine List.foldl_ext _ _ _ fun history m hm => ?_
  exact History.applyMigration_source (h.editable m (mem_inOrder.mp hm)).writable _ history

/-- The tables of the session are the extracted ones, and each of them has its own migration
as its only source. -/
theorem entries : s.analysis.snapshot.tables.entries
      = (inOrder batch).map (fun m => (m.2.name, extracted m.2))
    ∧ s.analysis.snapshot.sources.entries
      = (inOrder batch).map fun m => (m.2.name, [folder ++ "/" ++ m.1]) := by
  have hdistinct : ((inOrder batch).map fun m => m.2.name).Nodup := by
    have hperm : (inOrder batch).Perm batch := List.mergeSort_perm _ _
    exact (hperm.map _).nodup_iff.mpr h.distinct
  have hbatch := History.entries_foldl_withTable
    ((inOrder batch).map fun m => (folder ++ "/" ++ m.1, extracted m.2))
    (by rw [List.map_map]; exact hdistinct) {} (fun _ _ => List.not_mem_nil) fun _ _ =>
      List.not_mem_nil
  rw [← h.ofMigrations_eq, List.map_map, List.map_map] at hbatch
  rw [h.analysis, Analysis.ofSources]
  show (History.ofSources s.files).snapshot.tables.entries = _
    ∧ (History.ofSources s.files).snapshot.sources.entries = _
  rw [History.snapshot_ofSources]
  exact hbatch

/-- The models of the session are those of its other files. The migrations have no part in
them. -/
theorem models_eq : s.analysis.snapshot.models
    = History.enterModels .empty (models.filterMap fun f => Model.ofText? f.content f.path) := by
  rw [h.analysis, Analysis.ofSources]
  show (History.ofSources s.files).snapshot.models = _
  rw [History.snapshot_ofSources, History.modelsIn, h.files, ofKind_model h.models]

/-- A table of the session is extracted from the one migration that was made for its
name. -/
theorem table?_eq_some_iff (name : String) (t : Table) :
    s.table? name = some t ↔ ∃ m ∈ batch, m.2.name = name ∧ extracted m.2 = t := by
  rw [table?, Catalog.get?_eq_some_iff, h.entries.1, List.mem_map]
  constructor
  · rintro ⟨m, hm, heq⟩
    exact ⟨m, mem_inOrder.mp hm, (Prod.mk.inj heq).1, (Prod.mk.inj heq).2⟩
  · rintro ⟨m, hm, rfl, rfl⟩
    exact ⟨m, mem_inOrder.mpr hm, rfl⟩

/-- A migration that is made here creates its own table only, so no other one is mistaken
for it. -/
theorem creates_migrationFile {m : String × Table} (hm : m ∈ batch) (table : String) :
    creates table (Suggestion.migrationFile m.1 m.2) = true ↔ m.2.name = table := by
  obtain ⟨b, hb, hunplaced⟩ := exists_blocks_source_eq (h.editable m hm).writable
  have htable : b.table = m.2.name := congrArg Block.table hunplaced
  have hkind : b.kind = .create := congrArg Block.kind hunplaced
  have hreverse : b.reverse = false := congrArg Block.reverse hunplaced
  show ((blocks (source m.2)).any fun b => b.kind == .create && !b.reverse && b.table == table)
    = true ↔ _
  rw [hb, List.any_cons, List.any_nil, hkind, hreverse, htable]
  simp

/-- The migration that creates a table is found in its place among the files. -/
theorem creator?_eq {m : String × Table} (hm : m ∈ batch) :
    ∃ i, batch[i]? = some m
      ∧ s.creator? m.2.name = some (Suggestion.migrationFile m.1 m.2, i) := by
  have hfile : ∀ (i : Nat) (n : String × Table), batch[i]? = some n →
      s.files[i]? = some (Suggestion.migrationFile n.1 n.2) := by
    intro i n hn
    have hlt : i < (migrations batch).length := by
      rw [migrations, List.length_map]
      exact (List.getElem?_eq_some_iff.mp hn).1
    rw [h.files, List.getElem?_append_left hlt, migrations, List.getElem?_map, hn,
      Option.map_some]
  have hsome : (s.creator? m.2.name).isSome = true := by
    obtain ⟨i, hi⟩ := List.getElem?_of_mem hm
    refine List.find?_isSome.mpr ⟨(Suggestion.migrationFile m.1 m.2, i), ?_, ?_⟩
    · exact List.mem_mergeSort.mpr
        (List.mem_filter.mpr ⟨List.mk_mem_zipIdx_iff_getElem?.mpr (hfile i m hi), rfl⟩)
    · exact (h.creates_migrationFile hm m.2.name).mpr rfl
  obtain ⟨⟨f, j⟩, hf⟩ := Option.isSome_iff_exists.mp hsome
  have hcreates := List.find?_some hf
  obtain ⟨hplace, hkind⟩ :=
    List.mem_filter.mp (List.mem_mergeSort.mp (List.mem_of_find?_eq_some hf))
  have hj : s.files[j]? = some f := List.mk_mem_zipIdx_iff_getElem?.mp hplace
  have hkind : f.kind = .migration := eq_of_beq hkind
  -- models stand behind the migrations, so the file is one of these
  have hlt : j < batch.length := by
    by_contra hge
    have hle : (migrations batch).length ≤ j := by
      rw [migrations, List.length_map]
      omega
    rw [h.files, List.getElem?_append_right hle] at hj
    rw [h.models f (List.mem_of_getElem? hj)] at hkind
    cases hkind
  have hn := List.getElem?_eq_getElem hlt
  have hsame : f = Suggestion.migrationFile (batch[j]).1 (batch[j]).2 :=
    Option.some.inj (hj.symm.trans (hfile j _ hn))
  simp only [hsame] at hcreates
  have hname := (h.creates_migrationFile (List.getElem_mem hlt) m.2.name).mp hcreates
  have hm' : batch[j] = m := List.inj_on_of_nodup_map h.distinct (List.getElem_mem hlt) hm hname
  rw [hm'] at hn hsame
  exact ⟨j, hn, by rw [hf, hsame]⟩

end Generated

/-! ### Writing a table back -/

/-- A table in the place of another, if they are of one name. -/
def retable (t : Table) (m : String × Table) : String × Table :=
  if m.2.name = t.name then (m.1, t) else m

/-- Putting a table in the place of another leaves the file name of the migration. -/
theorem retable_fst (t : Table) (m : String × Table) : (retable t m).1 = m.1 := by
  rw [retable]
  split
  · rfl
  · rfl

/-- It also leaves the name of every table, since only a table of the same name is
replaced. -/
theorem retable_name (t : Table) (m : String × Table) : (retable t m).2.name = m.2.name := by
  rw [retable]
  split
  · rename_i hname
    exact hname.symm
  · rfl

/-- The order of migrations does not depend on what is in them, so replacing a table and
ordering can be exchanged. -/
theorem inOrder_retable (t : Table) (batch : List (String × Table)) :
    inOrder (batch.map (retable t)) = (inOrder batch).map (retable t) := by
  refine (List.map_mergeSort fun a _ b _ => ?_).symm
  rw [retable_fst, retable_fst]

namespace Generated

variable {s : Session} {batch : List (String × Table)} {models : List SourceFile}
  (h : Generated s batch models)

include h

/-- The session with a table in another shape is generated, if its files are the ones for
that shape and it says what they say. -/
theorem retabled {t : Table} (ht : Editable t) {s' : Session}
    (hfiles : s'.files = migrations (batch.map (retable t)) ++ models)
    (hanalysis : s'.analysis = .ofSources s'.files) :
    Generated s' (batch.map (retable t)) models := by
  refine ⟨hfiles, h.models, hanalysis, ?_, ?_⟩
  · rw [List.map_map]
    show (batch.map fun m => (retable t m).2.name).Nodup
    simp only [retable_name]
    exact h.distinct
  · intro n hn
    obtain ⟨m, hm, rfl⟩ := List.mem_map.mp hn
    rw [retable]
    split
    · exact ht
    · exact h.editable m hm

/-- A table that is written as the one of its name is leaves all migrations as they are. -/
theorem migrations_retable_of_source_eq {m : String × Table} (hm : m ∈ batch) {t : Table}
    (hname : m.2.name = t.name) (hsame : source t = source m.2) :
    migrations (batch.map (retable t)) = migrations batch := by
  rw [migrations, migrations, List.map_map]
  refine List.map_congr_left fun n hn => ?_
  rw [Function.comp_apply, retable]
  by_cases hn' : n.2.name = t.name
  · obtain rfl := List.inj_on_of_nodup_map h.distinct hn hm (hn'.trans hname.symm)
    rw [if_pos hn', Suggestion.migrationFile, Suggestion.migrationFile, hsame]
  · rw [if_neg hn']

/-- Putting a table in the place of another replaces one migration, in the place where it
stood. -/
theorem migrations_retable {m : String × Table} {t : Table} (hname : m.2.name = t.name) {i : Nat}
    (hi : batch[i]? = some m) :
    migrations (batch.map (retable t))
      = (migrations batch).set i (Suggestion.migrationFile m.1 t) := by
  have hset : batch.set i (m.1, t) = batch.map (retable t) := by
    rw [set_eq_map h.distinct hi fun n => (n.1, t), hname]
    rfl
  rw [← hset, migrations, migrations, List.map_set]

/-- A table that is written back takes the place of the one of its name, and
nothing else changes. If it is written as before, that holds as well. -/
theorem editTable {m : String × Table} (hm : m ∈ batch) {t : Table} (hname : m.2.name = t.name)
    (ht : Editable t) :
    Generated ((s.editTable? t.name t.columns t.foreignKeys).getD s) (batch.map (retable t))
      models := by
  obtain ⟨i, hi, hcreator⟩ := h.creator?_eq hm
  have htext : writeBack (source m.2) t.name t.columns t.foreignKeys = source t := by
    rw [← hname,
      String.toList_inj.mp (toList_writeBack_source (h.editable m hm).writable.spelled _ _),
      hname]
  have hedit : s.editTable? t.name t.columns t.foreignKeys
      = if source t = source m.2 then none
        else some (Session.refresh { s with
          files := s.files.set i (Suggestion.migrationFile m.1 t)
          dirty := addPath (folder ++ "/" ++ m.1) s.dirty }) := by
    rw [editTable?, ← hname, hcreator, hname]
    simp only [Option.bind_eq_bind, Option.bind_some, content_migrationFile, htext,
      withContent_migrationFile]
    rfl
  rw [hedit]
  -- what is the same as before is not written, and then the files are right already
  by_cases hsame : source t = source m.2
  · have hfiles : s.files = migrations (batch.map (retable t)) ++ models := by
      rw [h.files, h.migrations_retable_of_source_eq hm hname hsame]
    rw [if_pos hsame]
    exact h.retabled ht hfiles h.analysis
  · have hlt : i < (migrations batch).length := by
      rw [migrations, List.length_map]
      exact (List.getElem?_eq_some_iff.mp hi).1
    have hfiles : s.files.set i (Suggestion.migrationFile m.1 t)
        = migrations (batch.map (retable t)) ++ models := by
      rw [h.files, List.set_append_left _ _ hlt, h.migrations_retable hname hi]
    rw [if_neg hsame]
    exact h.retabled ht hfiles rfl

/-! ### What changes with a table -/

variable {s' : Session} {t : Table} (h' : Generated s' (batch.map (retable t)) models)

include h'

/-- The session has the same table names as before, in the same order. -/
theorem names_retable : s'.analysis.snapshot.tables.names = s.analysis.snapshot.tables.names := by
  rw [Catalog.names, Catalog.names, h'.entries.1, h.entries.1, inOrder_retable, List.map_map,
    List.map_map, List.map_map]
  exact List.map_congr_left fun m _ => retable_name t m

/-- Each table has the same sources as before, since no file has got another name. -/
theorem sources_retable : s'.analysis.snapshot.sources = s.analysis.snapshot.sources := by
  refine Catalog.eq_of_entries ?_
  rw [h'.entries.2, h.entries.2, inOrder_retable, List.map_map]
  refine List.map_congr_left fun m _ => ?_
  rw [Function.comp_apply, retable_name, retable_fst]

/-- The models are the same as before, since no file of a model has changed. -/
theorem models_retable : s'.analysis.snapshot.models = s.analysis.snapshot.models := by
  rw [h'.models_eq, h.models_eq]

omit h in
/-- The table itself is the one that its new migration creates, as it is extracted from
there. -/
theorem table?_retable {m : String × Table} (hm : m ∈ batch) (hname : m.2.name = t.name) :
    s'.table? t.name = some (extracted t) := by
  refine (h'.table?_eq_some_iff _ _).mpr ⟨retable t m, List.mem_map_of_mem hm, ?_, ?_⟩
  · rw [retable_name, hname]
  · rw [retable, if_pos hname]

/-- The other tables are as they were, since their migrations are the same. -/
theorem table?_retable_of_ne {other : String} (hother : other ≠ t.name) :
    s'.table? other = s.table? other := by
  refine Option.ext fun u => ?_
  rw [h'.table?_eq_some_iff, h.table?_eq_some_iff]
  constructor
  · rintro ⟨n, hn, hname, hu⟩
    obtain ⟨m, hm, rfl⟩ := List.mem_map.mp hn
    rw [retable_name] at hname
    rw [retable, if_neg fun heq => hother (hname.symm.trans heq)] at hu
    exact ⟨m, hm, hname, hu⟩
  · rintro ⟨m, hm, hname, hu⟩
    refine ⟨retable t m, List.mem_map_of_mem hm, ?_, ?_⟩
    · rw [retable_name, hname]
    · rw [retable, if_neg fun heq => hother (hname.symm.trans heq), hu]

end Generated

end Session

end SchemaAtlas
