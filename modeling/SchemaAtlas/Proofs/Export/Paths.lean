import SchemaAtlas.Proofs.Export.Migrations
import SchemaAtlas.Proofs.Export.Script
import SchemaAtlas.Proofs.List
import SchemaAtlas.Proofs.Naming

/-!
# `SchemaAtlas.Proofs.Export.Paths`: the files that a setup script leaves

The setup script writes two files for each table, its migration and its class. Of several
files under one path the last is left. Migrations never get in each other's way: the name
of the table can be read off the name of the migration (`eq_of_fileName_eq`), and neither do
a migration and a class. Two classes do if the tables have one class name, as `posts` and
`post` do. So all files are left exactly if the class names are distinct
(`distinct_paths_iff`), and conventional names of tables make them so.
-/

set_option autoImplicit false

namespace SchemaAtlas.Export

open SchemaAtlas.Text SchemaAtlas.Scan

/-! ### The names of migrations -/

/-- A text up to its first letter `c` is found by going on until that letter, if there is no
`c` before. -/
theorem takeWhile_ne_append {front : List Char} {c : Char} (h : c ∉ front) (r : List Char) :
    (front ++ c :: r).takeWhile (fun d => d != c) = front := by
  have hfront : ∀ d ∈ front, (d != c) = true := by
    intro d hd
    rw [bne_iff_ne]
    rintro rfl
    exact h hd
  rw [List.takeWhile_append_of_pos hfront]
  simp

/-- The name of a migration tells its table. The stamp in front has no letters, so the first
letter begins the part behind it. -/
theorem eq_of_fileName_eq {table other : String} {m m' : Moment}
    (h : Migration.fileName table m = Migration.fileName other m') : table = other := by
  have hmark : "_create_".toList = '_' :: 'c' :: "reate_".toList := rfl
  have hstamp : ∀ moment : Moment, 'c' ∉ moment.stamp.toList ++ ['_'] := by
    intro moment hmem
    rcases List.mem_append.mp hmem with hmem | hmem
    · rcases Moment.isDigit_of_mem_stamp hmem with hdigit | hline
      · exact absurd hdigit (by decide)
      · exact absurd hline (by decide)
    · exact absurd hmem (by decide)
  have hname : ∀ (name : String) (moment : Moment), (Migration.fileName name moment).toList
      = (moment.stamp.toList ++ ['_']) ++ 'c'
        :: ("reate_".toList ++ name.toList ++ "_table.php".toList) := by
    intro name moment
    unfold Migration.fileName
    simp only [String.toList_append, hmark]
    simp only [List.append_assoc, List.cons_append, List.nil_append]
  have hlists := congrArg String.toList h
  rw [hname, hname] at hlists
  -- a stamp has no letters, so it goes up to the first one
  have hstamps := congrArg (List.takeWhile fun d => d != 'c') hlists
  rw [takeWhile_ne_append (hstamp m), takeWhile_ne_append (hstamp m')] at hstamps
  rw [hstamps] at hlists
  have hrest := (List.cons.inj (List.append_cancel_left hlists)).2
  rw [List.append_assoc, List.append_assoc] at hrest
  exact String.toList_injective (List.append_cancel_right (List.append_cancel_left hrest))

/-! ### The paths of an export -/

/-- The class names of all tables. -/
def classNames (s : Snapshot) : List String :=
  s.tables.values.map fun t => Naming.tableToModel t.name

/-- The names of all tables. -/
def tableNames (s : Snapshot) : List String :=
  s.tables.values.map Table.name

/-- The paths of the classes are those that the class names of the tables give, in the order
of the tables. -/
theorem map_fst_modelFiles (s : Snapshot) (edges : List Edge) :
    (Model.files s edges).map Prod.fst
      = (classNames s).map fun name => Model.folder ++ "/" ++ Model.fileName name := by
  rw [Model.files, classNames, List.map_map, List.map_map]
  rfl

/-- Each migration is named after one of the tables, in the order of the export, and lies in
the folder of migrations under this name. -/
theorem exists_names_of_migrationFiles {now : Moment} {s : Snapshot}
    {made : List (String × String)}
    (h : migrationFiles now s = .ok made) :
    ∃ tables names, tables.Perm (tableNames s)
      ∧ List.Forall₂ (fun table name => ∃ moment, name = Migration.fileName table moment)
        tables names
      ∧ made.map Prod.fst = names.map fun name => Migration.folder ++ "/" ++ name := by
  obtain ⟨sorted, hordered, h⟩ := exists_of_bind_eq_ok h
  cases hnames : Migration.fileNames? now (sorted.map Table.name) with
  | none =>
      rw [hnames] at h
      cases h
  | some names =>
      rw [hnames] at h
      obtain rfl := Except.ok.inj h
      refine ⟨_, names, (perm_of_ordered hordered).map Table.name,
        Migration.forall₂_fileNames? hnames, ?_⟩
      have hlength := Migration.length_fileNames? hnames
      rw [List.length_map] at hlength
      rw [List.map_map]
      exact map_fst_zip_of_le (fun name => Migration.folder ++ "/" ++ name) (Nat.le_of_eq hlength)

/-- The files of a setup script: the migrations, and then the classes. -/
def setupFiles (made : List (String × String)) (a : Analysis) : List (String × String) :=
  made ++ Model.files a.snapshot a.edges

section Setup

variable {now : Moment} {a : Analysis} {made : List (String × String)}
    (h : migrationFiles now a.snapshot = .ok made)

include h

/-- Migrations of distinct tables lie under distinct paths, since the name of the table can
be read off the path. -/
theorem nodup_migrationPaths (hdistinct : (tableNames a.snapshot).Nodup) :
    (made.map Prod.fst).Nodup := by
  obtain ⟨tables, names, hperm, hstep, hpaths⟩ := exists_names_of_migrationFiles h
  have hnames : names.Nodup := by
    refine nodup_of_forall₂ hstep ?_ (hperm.nodup_iff.mpr hdistinct)
    rintro table other name ⟨m, hm⟩ ⟨m', hm'⟩
    exact eq_of_fileName_eq (hm.symm.trans hm')
  rw [hpaths]
  refine hnames.map fun name other heq => ?_
  have hlists := congrArg String.toList heq
  simp only [String.toList_append] at hlists
  exact String.toList_injective (List.append_cancel_left hlists)

/-- All paths are distinct exactly if those of the classes are. Migrations get in the way
neither of one another nor of a class. -/
theorem nodup_setupPaths_iff (hdistinct : (tableNames a.snapshot).Nodup) :
    ((setupFiles made a).map Prod.fst).Nodup ↔ (classNames a.snapshot).Nodup := by
  have hclasses : ((Model.files a.snapshot a.edges).map Prod.fst).Nodup
      ↔ (classNames a.snapshot).Nodup := by
    rw [map_fst_modelFiles]
    refine List.nodup_map_iff fun name other heq => ?_
    have hlists := congrArg String.toList heq
    simp only [Model.fileName, String.toList_append] at hlists
    exact String.toList_injective (List.append_cancel_right (List.append_cancel_left hlists))
  rw [setupFiles, List.map_append, List.nodup_append, hclasses]
  constructor
  · exact fun hall => hall.2.1
  · intro hnodup
    refine ⟨nodup_migrationPaths h hdistinct, hnodup, ?_⟩
    intro path hpath other hother
    obtain ⟨-, names, -, -, hpaths⟩ := exists_names_of_migrationFiles h
    rw [hpaths] at hpath
    rw [map_fst_modelFiles] at hother
    obtain ⟨name, -, rfl⟩ := List.mem_map.mp hpath
    obtain ⟨className, -, rfl⟩ := List.mem_map.mp hother
    exact Migration.path_ne_modelPath _ _

/-- Each path is that of a table's migration or class, and so has no characters but those of
the table's name and some fixed ones. -/
theorem exists_table_of_setupPath {path : String}
    (hpath : path ∈ (setupFiles made a).map Prod.fst) :
    ∃ table ∈ tableNames a.snapshot,
      (∃ m, path = Migration.folder ++ "/" ++ Migration.fileName table m)
      ∨ path = Model.folder ++ "/" ++ Model.fileName (Naming.tableToModel table) := by
  rw [setupFiles, List.map_append, List.mem_append] at hpath
  rcases hpath with hpath | hpath
  · obtain ⟨tables, names, hperm, hstep, hpaths⟩ := exists_names_of_migrationFiles h
    rw [hpaths] at hpath
    obtain ⟨name, hname, rfl⟩ := List.mem_map.mp hpath
    obtain ⟨table, htable, m, rfl⟩ := exists_of_mem_right_of_forall₂ hstep hname
    exact ⟨table, hperm.mem_iff.mp htable, .inl ⟨m, rfl⟩⟩
  · rw [map_fst_modelFiles] at hpath
    obtain ⟨className, hclass, rfl⟩ := List.mem_map.mp hpath
    obtain ⟨t, ht, rfl⟩ := List.mem_map.mp hclass
    exact ⟨t.name, List.mem_map_of_mem ht, .inr rfl⟩

/-- No line break and no null character is in a path when the tables have names in the narrow
sense. -/
theorem notMem_setupPath {c : Char} (hc : c = '\n' ∨ c = '\x00')
    (hnames : ∀ name ∈ tableNames a.snapshot, isName name = true) {path : String}
    (hpath : path ∈ (setupFiles made a).map Prod.fst) : c ∉ path.toList := by
  -- the character is in no fixed part of a path, and no stamp or name has it
  have hparts : ∀ part ∈ [Migration.folder, Model.folder, "/", "_create_", "_table.php",
      ".php", "_"],
      c ∉ part.toList := by
    rcases hc with rfl | rfl
    · decide
    · decide
  have hkinds : isWord c = false ∧ isSign c.toNat = true ∧ c.isDigit = false := by
    rcases hc with rfl | rfl
    · decide
    · decide
  obtain ⟨hword, hsign, hdigit⟩ := hkinds
  obtain ⟨table, htable, hcases⟩ := exists_table_of_setupPath h hpath
  have htable : c ∉ table.toList := notMem_of_isName (hnames table htable) hword
  simp only [List.mem_cons, List.not_mem_nil, or_false, forall_eq_or_imp, forall_eq] at hparts
  obtain ⟨hmigrations, hmodels, hslash, hcreate, hending, hphp, hline⟩ := hparts
  rcases hcases with ⟨m, rfl⟩ | rfl
  · have hstamp : c ∉ m.stamp.toList := by
      intro hmem
      rcases Moment.isDigit_of_mem_stamp hmem with hd | rfl
      · rw [hdigit] at hd
        cases hd
      · exact hline (by decide)
    unfold Migration.fileName
    simp only [String.toList_append, List.mem_append, not_or]
    exact ⟨⟨hmigrations, hslash⟩, ⟨⟨hstamp, hcreate⟩, htable⟩, hending⟩
  · have hclass : c ∉ (Naming.tableToModel table).toList := fun hmem =>
      htable (Naming.mem_of_mem_tableToModel hsign hmem)
    unfold Model.fileName
    simp only [String.toList_append, List.mem_append, not_or]
    exact ⟨⟨hmodels, hslash⟩, hclass, hphp⟩

/-- Paths begin with a letter, so they are relative as they are, and nothing is cut off in
front. -/
theorem relativePath_setupPath {path : String} (hpath : path ∈ (setupFiles made a).map Prod.fst) :
    relativePath path = path ∧ path ≠ "" := by
  have hletter : ∃ c cs, path.toList = c :: cs ∧ c ≠ '/' := by
    have hmigration : Migration.folder.toList = 'd' :: "atabase/migrations".toList := rfl
    have hmodel : Model.folder.toList = 'a' :: "pp/Models".toList := rfl
    obtain ⟨table, -, ⟨m, rfl⟩ | rfl⟩ := exists_table_of_setupPath h hpath
    · simp only [String.toList_append, hmigration]
      exact ⟨_, _, rfl, by decide⟩
    · simp only [String.toList_append, hmodel]
      exact ⟨_, _, rfl, by decide⟩
  obtain ⟨c, cs, hcs, hc⟩ := hletter
  constructor
  · apply String.toList_injective
    rw [relativePath, String.toList_ofList, hcs, List.dropWhile_cons_of_neg (by simpa using hc)]
  · rintro rfl
    cases hcs

/-- The script writes two files for each table, whatever their paths are. -/
theorem length_setupFiles : (setupFiles made a).length = 2 * a.snapshot.tables.size := by
  have hclasses : (Model.files a.snapshot a.edges).length = a.snapshot.tables.size := by
    rw [Model.files, List.length_map, Catalog.values, List.length_map]
    rfl
  have hmigrations : made.length = a.snapshot.tables.size := by
    obtain ⟨tables, names, hperm, hstep, hpaths⟩ := exists_names_of_migrationFiles h
    have hlength := congrArg List.length hpaths
    rw [List.length_map, List.length_map, ← hstep.length_eq, hperm.length_eq, tableNames,
      Catalog.values, List.length_map, List.length_map] at hlength
    exact hlength
  rw [setupFiles, List.length_append, hclasses, hmigrations]
  omega

end Setup

/-- The setup script of a schema whose tables have distinct names writes, in this order, a
migration and a class for each table, if there is no null character in what it writes. What it
leaves is a file for each of them exactly if no two class names are the same, and the paths are
distinct exactly then. The class names are not the same if the names of the tables are
conventional. -/
theorem distinct_paths_iff {now : Moment} {a : Analysis} {made : List (String × String)}
    (h : migrationFiles now a.snapshot = .ok made)
    (hnames : ∀ name ∈ tableNames a.snapshot, isName name = true)
    (hdistinct : (tableNames a.snapshot).Nodup) :
    (((setupFiles made a).map Prod.fst).Nodup ↔ (classNames a.snapshot).Nodup)
    ∧ ((Catalog.ofList (setupFiles made a)).size = 2 * a.snapshot.tables.size
      ↔ (classNames a.snapshot).Nodup)
    ∧ ((∀ name ∈ tableNames a.snapshot, Naming.IsConventional name) →
      (classNames a.snapshot).Nodup)
    ∧ ((∀ f ∈ setupFiles made a, '\x00' ∉ f.2.toList) →
      ∃ text, render now a .shell = .ok text
        ∧ Shell.writes? text = some (setupFiles made a)) := by
  have hpaths := nodup_setupPaths_iff h hdistinct
  refine ⟨hpaths, ?_, ?_, ?_⟩
  · rw [← length_setupFiles h, Catalog.size_ofList_eq_iff, hpaths]
  · -- conventional names are read back from their classes, so no two classes are the same
    intro hconventional
    have hclasses : classNames a.snapshot = (tableNames a.snapshot).map Naming.tableToModel := by
      rw [classNames, tableNames, List.map_map]
      rfl
    rw [hclasses]
    refine List.Nodup.map_on ?_ hdistinct
    intro table htable other hother heq
    exact Naming.eq_of_tableToModel_eq (hconventional table htable)
      (hconventional other hother) heq
  · intro hcontents
    refine ⟨script usualTitle (setupFiles made a), ?_, ?_⟩
    · rw [render, h]
      rfl
    · have htitle : '\n' ∉ usualTitle.toList ∧ '\x00' ∉ usualTitle.toList := by decide
      -- paths are made of names and fixed text, which is what the shell asks of them
      have hplain : ∀ f ∈ setupFiles made a, '\n' ∉ f.1.toList ∧ '\x00' ∉ f.1.toList
          ∧ relativePath f.1 ≠ "" := by
        intro f hf
        have hpath : f.1 ∈ (setupFiles made a).map Prod.fst := List.mem_map_of_mem hf
        obtain ⟨hrelative, hne⟩ := relativePath_setupPath h hpath
        rw [hrelative]
        exact ⟨notMem_setupPath h (.inl rfl) hnames hpath,
          notMem_setupPath h (.inr rfl) hnames hpath, hne⟩
      rw [(writes_script htitle hplain hcontents).1]
      congr 1
      refine (List.map_congr_left fun f hf => ?_).trans (List.map_id _)
      rw [(relativePath_setupPath h (List.mem_map_of_mem hf)).1]
      rfl

/-! ### Two tables -/

/-- A schema of two tables without columns. -/
def pair (table other : String) : Analysis where
  snapshot := .ofTables [⟨table, [], []⟩, ⟨other, [], []⟩]

/-- Their migrations, made a second apart. -/
def pairMigrations (table other : String) : List (String × String) :=
  [(Migration.folder ++ "/" ++ Migration.fileName table ⟨2024, 1, 31, 23, 59, 58⟩,
    Migration.source ⟨table, [], []⟩),
    (Migration.folder ++ "/" ++ Migration.fileName other ⟨2024, 1, 31, 23, 59, 59⟩,
      Migration.source ⟨other, [], []⟩)]

/-- Two tables that come in the order in which they stand have their migrations a second
apart. -/
theorem migrationFiles_pair {table other : String}
    (h : ordered (pair table other).snapshot = .ok [⟨table, [], []⟩, ⟨other, [], []⟩]) :
    migrationFiles ⟨2024, 1, 31, 23, 59, 58⟩ (pair table other).snapshot
      = .ok (pairMigrations table other) := by
  unfold migrationFiles
  rw [h]
  rfl

/-- There is no null character in the files of a table without columns if its name has none. -/
theorem notMem_bareSources {table className : String} (htable : '\x00' ∉ table.toList)
    (hclass : '\x00' ∉ className.toList) :
    '\x00' ∉ (Migration.source ⟨table, [], []⟩).toList
      ∧ '\x00' ∉ (Model.source className table []).toList := by
  constructor
  · have hlines : '\x00' ∉ (Migration.statementLines "            "
        (Migration.tableStatements Migration.usualBuilder [] [])).toList := by
      decide +kernel
    unfold Migration.source Migration.opening Migration.closing
    simp only [String.toList_append, String.reduceToList, List.mem_append, not_or, htable, hlines,
      not_false_eq_true, and_true]
    decide +kernel
  · unfold Model.source
    simp only [Model.distinctMethods, List.map_nil, List.isEmpty_nil, if_true,
      String.toList_append, String.reduceToList, List.mem_append, not_or, htable, hclass,
      not_false_eq_true, and_true]
    decide +kernel

/-- The setup of two tables with conventional names: the script writes four files under four
paths, and a shell leaves all of them. -/
theorem distinct_paths_iff_tags :
    ∃ text, render ⟨2024, 1, 31, 23, 59, 58⟩ (pair "posts" "tags") .shell = .ok text
      ∧ Shell.writes? text
        = some (setupFiles (pairMigrations "posts" "tags") (pair "posts" "tags"))
      ∧ ((setupFiles (pairMigrations "posts" "tags") (pair "posts" "tags")).map Prod.fst).Nodup
      ∧ (Catalog.ofList (setupFiles (pairMigrations "posts" "tags") (pair "posts" "tags"))).size
        = 4 := by
  have hmade :=
    migrationFiles_pair (show ordered (pair "posts" "tags").snapshot = _ by decide +kernel)
  obtain ⟨hpaths, hsize, hclasses, hscript⟩ :=
    distinct_paths_iff hmade (by decide +kernel) (by decide +kernel)
  -- of each file only the names in it are looked at, since the rest is fixed text
  have hcontents : ∀ f ∈ setupFiles (pairMigrations "posts" "tags") (pair "posts" "tags"),
      '\x00' ∉ f.2.toList := by
    have hclass : ∀ name ∈ ["posts", "tags"], '\x00' ∉ name.toList
        ∧ '\x00' ∉ (Naming.tableToModel name).toList := by
      decide +kernel
    have hbare := fun name (hname : name ∈ ["posts", "tags"]) =>
      notMem_bareSources (hclass name hname).1 (hclass name hname).2
    have hvalues : (pair "posts" "tags").snapshot.tables.values
        = [⟨"posts", [], []⟩, ⟨"tags", [], []⟩] := by
      decide +kernel
    intro f hf
    simp only [setupFiles, Model.files, hvalues, pairMigrations, List.map_cons, List.map_nil,
      List.cons_append, List.nil_append, List.mem_cons, List.not_mem_nil, or_false] at hf
    rcases hf with rfl | rfl | rfl | rfl
    · exact (hbare "posts" (by decide)).1
    · exact (hbare "tags" (by decide)).1
    · exact (hbare "posts" (by decide)).2
    · exact (hbare "tags" (by decide)).2
  obtain ⟨text, htext, hwrites⟩ := hscript hcontents
  have hnodup := hclasses (by decide +kernel)
  exact ⟨text, htext, hwrites, hpaths.mpr hnodup, hsize.mpr hnodup⟩

/-- Two tables whose names differ in the last letter only: of the four files that the script
writes it leaves three. -/
theorem merges_post :
    (∀ name ∈ tableNames (pair "posts" "post").snapshot, isName name = true)
      ∧ (tableNames (pair "posts" "post").snapshot).Nodup
      ∧ migrationFiles ⟨2024, 1, 31, 23, 59, 58⟩ (pair "posts" "post").snapshot
        = .ok (pairMigrations "posts" "post")
      ∧ ¬((setupFiles (pairMigrations "posts" "post") (pair "posts" "post")).map Prod.fst).Nodup
      ∧ (Catalog.ofList (setupFiles (pairMigrations "posts" "post") (pair "posts" "post"))).size
        = 3 := by
  refine ⟨by decide +kernel, by decide +kernel,
    migrationFiles_pair (by decide +kernel), by decide +kernel,
    by decide +kernel⟩

end SchemaAtlas.Export
