import SchemaAtlas.Proofs.Calendar.Count
import SchemaAtlas.Proofs.Migration.Names
import SchemaAtlas.Suggestion.Basic

/-!
# `SchemaAtlas.Proofs.Migration.Batch`: batches that fit into the calendar

A batch of migrations is stamped second by second: the migration of a table that so
many others stand before is stamped so many seconds after the first
(`getElem?_fileNames?`, `count_later?`). The batch has names as long as the calendar
does not end before its last second (`isSome_later?_iff`). From the year 1000 on the
names ascend, so the files of a batch are in order of creation as they are made,
whatever their tables are called (`chronological_fileNames?`).
-/

set_option autoImplicit false

namespace SchemaAtlas

namespace Moment

/-- A moment some seconds later is a second of the calendar, and counted so much higher. -/
theorem count_later? {m m' : Moment} (hm : m.Proper) {seconds : Nat}
    (h : m.later? seconds = some m') :
    m'.Proper ∧ m'.count = m.count + seconds := by
  induction seconds generalizing m with
  | zero =>
      obtain rfl : m = m' := Option.some.inj h
      exact ⟨hm, rfl⟩
  | succ seconds ih =>
      rw [later?] at h
      obtain ⟨next, hnext, hlater⟩ := Option.bind_eq_some_iff.mp h
      obtain ⟨hproper, hcount⟩ := ih (hm.next hnext).1 hlater
      rw [hm.count_next hnext] at hcount
      exact ⟨hproper, by omega⟩

/-- There is a moment so many seconds later if the count does not pass the last second
of the calendar, and only then. -/
theorem isSome_later?_iff {m : Moment} (hm : m.Proper) (seconds : Nat) :
    (m.later? seconds).isSome ↔ m.count + seconds ≤ last.count := by
  induction seconds generalizing m with
  | zero => exact ⟨fun _ => hm.count_le, fun _ => rfl⟩
  | succ seconds ih =>
      rw [later?]
      cases hnext : m.next? with
      | none =>
          rw [hm.eq_last hnext]
          refine ⟨fun h => (by cases h), fun h => ?_⟩
          exact absurd h (Nat.not_le.mpr (Nat.lt_add_of_pos_right (Nat.succ_pos seconds)))
      | some next =>
          have hcount := hm.count_next hnext
          rw [Option.bind_some, ih (hm.next hnext).1, hcount]
          omega

end Moment

namespace Migration

open SourceFile

/-- The migration of a table is stamped as many seconds after the first as tables stand
before it. -/
theorem getElem?_fileNames? {m : Moment} {tables names : List String}
    (h : fileNames? m tables = some names)
    {i : Nat} {table : String} (htable : tables[i]? = some table) :
    ∃ moment, m.later? i = some moment ∧ names[i]? = some (fileName table moment) := by
  fun_induction fileNames? m tables generalizing names i with
  | case1 m => cases htable
  -- the last migration of a batch needs no moment after it
  | case2 m only =>
      rw [← Option.some.inj h]
      cases i with
      | zero =>
          obtain rfl : only = table := Option.some.inj htable
          exact ⟨m, rfl, rfl⟩
      | succ i => cases htable
  | case3 m first rest hrest ih =>
      simp only [Option.bind_eq_bind, Option.bind_eq_some_iff, Option.pure_def] at h
      obtain ⟨next, hnext, later, hlater, h⟩ := h
      rw [← Option.some.inj h]
      cases i with
      | zero =>
          obtain rfl : first = table := Option.some.inj htable
          exact ⟨m, rfl, rfl⟩
      | succ i =>
          obtain ⟨moment, hmoment, hname⟩ := ih next hlater htable
          refine ⟨moment, ?_, hname⟩
          rw [Moment.later?, hnext]
          exact hmoment

/-- Files whose names ascend stand in order of creation already, so sorting leaves them
where they are. -/
theorem chronological_of_pairwise {files : List SourceFile}
    (h : (files.map SourceFile.name).Pairwise (· < ·)) : chronological files = files := by
  refine List.mergeSort_of_pairwise ((List.pairwise_map.mp h).imp ?_)
  intro f g hlt
  have hne : f.name ≠ g.name := fun heq => String.lt_irrefl _ (heq ▸ hlt)
  rw [notAfter, if_neg hne]
  exact decide_eq_true (String.not_lt.mp (String.lt_asymm hlt))

/-- The migrations among the files of a suggestion have the names of the batch, in order.
The classes behind them are no migrations. -/
theorem map_name_ofKind_files {start : Moment} {s : Suggestion} {names : List String}
    (h : fileNames? start (s.tables.map Table.name) = some names) :
    ∃ files, s.files start = .ok files ∧ (ofKind .migration files).map SourceFile.name
      = names := by
  refine ⟨_, by rw [Suggestion.files, h], ?_⟩
  have hlength : names.length = s.tables.length := by
    rw [length_fileNames? h, List.length_map]
  have hmigrations : ofKind .migration
      ((names.zip s.tables).map fun m => Suggestion.migrationFile m.1 m.2)
      = (names.zip s.tables).map fun m => Suggestion.migrationFile m.1 m.2 := by
    refine List.filter_eq_self.mpr ?_
    intro f hf
    obtain ⟨m, -, rfl⟩ := List.mem_map.mp hf
    rfl
  -- the files are the migrations and then the classes, each with its kind
  have hmodels : ofKind .migration (s.tables.map (Suggestion.modelFile s.relations)) = [] := by
    refine List.filter_eq_nil_iff.mpr ?_
    intro f hf
    obtain ⟨t, -, rfl⟩ := List.mem_map.mp hf
    exact Bool.false_ne_true
  rw [ofKind, List.filter_append]
  show (ofKind .migration _ ++ ofKind .migration _).map SourceFile.name = names
  rw [hmigrations, hmodels, List.append_nil, List.map_map]
  show (names.zip s.tables).map Prod.fst = names
  exact List.map_fst_zip (Nat.le_of_eq hlength)

/-- The names of a batch that ends with the calendar at the latest: one for each table,
stamped a second after that of the table before, in ascending order. So files with
these names stand in order of creation as they were made, and so do the migrations of
a suggestion. -/
theorem chronological_fileNames? {start : Moment} (hstart : start.Proper)
    (hyear : 1000 ≤ start.year)
    {tables : List String} (hend : start.count + (tables.length - 1) ≤ Moment.last.count) :
    ∃ names, fileNames? start tables = some names
      ∧ names.length = tables.length
      ∧ (∀ i table, tables[i]? = some table →
          ∃ moment : Moment, moment.Proper ∧ moment.count = start.count + i
            ∧ names[i]? = some (fileName table moment))
      ∧ names.Pairwise (· < ·)
      ∧ (∀ files : List SourceFile,
        files.map SourceFile.name = names → chronological files = files)
      ∧ ∀ s : Suggestion, s.tables.map Table.name = tables →
          ∃ files, s.files start = .ok files
            ∧ (ofKind .migration files).map SourceFile.name = names
            ∧ chronological (ofKind .migration files) = ofKind .migration files := by
  have hsome :=
    (isSome_fileNames?_iff start tables).mpr ((Moment.isSome_later?_iff hstart _).mpr hend)
  obtain ⟨names, hnames⟩ := Option.isSome_iff_exists.mp hsome
  have hascend := pairwise_fileNames? hstart hyear hnames
  have hcreated : ∀ files : List SourceFile, files.map SourceFile.name = names →
      chronological files = files := by
    intro files hfiles
    exact chronological_of_pairwise (by rw [hfiles]; exact hascend)
  refine ⟨names, hnames, length_fileNames? hnames, ?_, hascend, hcreated, ?_⟩
  · intro i table htable
    obtain ⟨moment, hlater, hname⟩ := getElem?_fileNames? hnames htable
    obtain ⟨hproper, hcount⟩ := Moment.count_later? hstart hlater
    exact ⟨moment, hproper, hcount, hname⟩
  · intro s hs
    obtain ⟨files, hfiles, hbatch⟩ := map_name_ofKind_files (s := s) (by rw [hs]; exact hnames)
    exact ⟨files, hfiles, hbatch, hcreated _ hbatch⟩

/-- A batch over the beginning of a leap day, of tables in no order of their names, one of
them without a name. -/
theorem chronological_fileNames?_leap :
    (⟨2024, 2, 28, 23, 59, 58⟩ : Moment).Proper
      ∧ (⟨2024, 2, 28, 23, 59, 58⟩ : Moment).count + 3 ≤ Moment.last.count
      ∧ ∃ names, fileNames? ⟨2024, 2, 28, 23, 59, 58⟩ ["users", "a/b", "", "zebra"] = some names
        ∧ names.Pairwise (· < ·)
        ∧ names[3]? = some "2024_02_29_000001_create_zebra_table.php" := by
  have hproper : (⟨2024, 2, 28, 23, 59, 58⟩ : Moment).Proper := by decide
  have hend : (⟨2024, 2, 28, 23, 59, 58⟩ : Moment).count + 3 ≤ Moment.last.count := by
    decide +kernel
  have hlast : (⟨2024, 2, 28, 23, 59, 58⟩ : Moment).count
      + (["users", "a/b", "", "zebra"].length - 1)
      ≤ Moment.last.count := hend
  obtain ⟨names, hnames, -, -, hascend, -⟩ := chronological_fileNames? hproper (by decide) hlast
  refine ⟨hproper, hend, names, hnames, hascend, ?_⟩
  have hfourth : (fileNames? ⟨2024, 2, 28, 23, 59, 58⟩ ["users", "a/b", "", "zebra"]).bind (·[3]?)
      = some "2024_02_29_000001_create_zebra_table.php" := by decide +kernel
  rw [hnames] at hfourth
  exact hfourth

end Migration

end SchemaAtlas
