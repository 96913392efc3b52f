import SchemaAtlas.Proofs.Disk.Landing
import SchemaAtlas.Proofs.List
import SchemaAtlas.Proofs.Migration.Names
import SchemaAtlas.Proofs.Naming
import SchemaAtlas.Suggestion.Basic

/-!
# `SchemaAtlas.Proofs.Suggestion.Shelter`: where the files of a suggestion lie

The names of suggested tables come from outside and go into paths as they are. A file of a
suggestion lies right in one of the two folders of the project (`Sheltered`) if the name that
the folder's path is followed by is one name only. All files do exactly if no table has a
slash in its name: the stamp in front of a migration's name and the ending behind a class's
keep the name from being two dots. When all files do, saving them below a folder changes
nothing on the disk but in these two folders (`sheltered_files_iff`).

A table by the name of `../../../x` is not kept out. Its class is written above the folder of
the project (`leaves_dots`).
-/

set_option autoImplicit false

namespace SchemaAtlas.Suggestion

open SchemaAtlas.Text

/-- Holds of the characters that part the names in a path. -/
def isSlash (c : Char) : Bool := c == '/' || c == '\\'

/-- There are two signs that separate the names of a path, and no others. -/
theorem isSlash_iff (c : Char) : isSlash c = true ↔ c = '/' ∨ c = '\\' := by
  simp only [isSlash, Bool.or_eq_true, beq_iff_eq]

/-- For fixed text, having no such sign is a check over its characters, which can be carried
out. -/
theorem isSlash_of_all {s : String} (h : (s.toList.all fun c => !isSlash c) = true) :
    ∀ c ∈ s.toList, isSlash c = false := by
  simpa using h

/-- Holds of one name in a path that leads neither nowhere nor back. -/
structure IsComponent (name : String) : Prop where
  leads : name ≠ "" ∧ name ≠ "." ∧ name ≠ ".."
  whole : ∀ c ∈ name.toList, isSlash c = false

/-- Holds of the paths of files that lie right in one of the folders of a project. -/
def Sheltered (path : String) : Prop :=
  ∃ name, IsComponent name
    ∧ (path = Migration.folder ++ "/" ++ name ∨ path = Model.folder ++ "/" ++ name)

/-! ### The names of generated files -/

/-- A name with the ending of a file leads somewhere: with more than two characters, it is
neither empty nor one of the names made of dots. -/
theorem isComponent_append {stem ending : String} (hlength : 2 < ending.toList.length)
    (hending : ∀ c ∈ ending.toList, isSlash c = false) :
    IsComponent (stem ++ ending) ↔ ∀ c ∈ stem.toList, isSlash c = false := by
  constructor
  · intro h c hc
    apply h.whole
    rw [String.toList_append]
    exact List.mem_append_left _ hc
  · intro h
    have hlong : ∀ other : String, other.toList.length ≤ 2 → stem ++ ending ≠ other := by
      rintro other hother rfl
      rw [String.toList_append, List.length_append] at hother
      omega
    refine ⟨⟨hlong "" (by decide), hlong "." (by decide), hlong ".." (by decide)⟩, ?_⟩
    intro c hc
    rw [String.toList_append] at hc
    rcases List.mem_append.mp hc with hc | hc
    · exact h c hc
    · exact hending c hc

/-- No such sign is in a stamp, which has digits and underscores only. -/
theorem isSlash_of_mem_stamp {m : Moment} {c : Char} (h : c ∈ m.stamp.toList) :
    isSlash c = false := by
  rcases Moment.isDigit_of_mem_stamp h with hdigit | rfl
  · cases hslash : isSlash c with
    | false => rfl
    | true =>
        rcases (isSlash_iff c).mp hslash with rfl | rfl
        · exact absurd hdigit (by decide)
        · exact absurd hdigit (by decide)
  · decide

/-- The file name of a migration is one name if and only if no sign that separates names is
in the name of its table. -/
theorem isComponent_fileName_iff (table : String) (m : Moment) :
    IsComponent (Migration.fileName table m) ↔ ∀ c ∈ table.toList, isSlash c = false := by
  have hmark : ∀ c ∈ "_create_".toList, isSlash c = false := isSlash_of_all (by decide)
  have hending : ∀ c ∈ "_table.php".toList, isSlash c = false := isSlash_of_all (by decide)
  unfold Migration.fileName
  rw [isComponent_append (by decide) hending]
  simp only [String.toList_append, List.mem_append]
  constructor
  · intro h c hc
    exact h c (.inr hc)
  · rintro h c ((hc | hc) | hc)
    · exact isSlash_of_mem_stamp hc
    · exact hmark c hc
    · exact h c hc

/-- So is the file name of its class, which is made of the table's name and adds no such
sign. -/
theorem isComponent_modelFileName {table : String} (h : ∀ c ∈ table.toList, isSlash c = false) :
    IsComponent (Model.fileName (Naming.tableToModel table)) := by
  have hending : ∀ c ∈ ".php".toList, isSlash c = false := isSlash_of_all (by decide)
  unfold Model.fileName
  rw [isComponent_append (by decide) hending]
  intro c hc
  cases hslash : isSlash c with
  | false => rfl
  | true =>
      have hsign : isSign c.toNat = true := by
        rcases (isSlash_iff c).mp hslash with rfl | rfl <;> decide
      rw [← h c (Naming.mem_of_mem_tableToModel hsign hc), hslash]

/-! ### The paths of generated files -/

/-- A path into the folder of migrations leads right into it exactly if one name follows. -/
theorem sheltered_migration_iff (name : String) :
    Sheltered (Migration.folder ++ "/" ++ name) ↔ IsComponent name := by
  constructor
  · rintro ⟨other, hother, hpath | hpath⟩
    · have hsame : name = other := by
        apply String.toList_injective
        have hlists := congrArg String.toList hpath
        simp only [String.toList_append] at hlists
        exact List.append_cancel_left hlists
      rw [hsame]
      exact hother
    · exact absurd hpath (Migration.path_ne_modelPath name other)
  · intro h
    exact ⟨name, h, .inl rfl⟩

/-- The path of what lies right in a folder is the folder's path, a slash and the name. -/
theorem path_append_singleton {folder : List String} (h : folder ≠ []) (name : String) :
    Disk.path (folder ++ [name]) = Disk.path folder ++ "/" ++ name := by
  induction folder with
  | nil => exact absurd rfl h
  | cons first rest ih =>
      cases rest with
      | nil => simp [Disk.path]
      | cons second rest =>
          have hrest := ih (List.cons_ne_nil second rest)
          simp only [Disk.path, List.cons_append] at hrest ⊢
          rw [String.intercalate_cons_cons, hrest, String.intercalate_cons_cons]
          simp only [String.append_assoc]

/-- A name that leads somewhere is a piece of a path, so the walk along a path does not skip
it. -/
theorem IsComponent.isPiece {name : String} (h : IsComponent name) : Disk.IsPiece name := by
  refine ⟨h.leads.1, h.leads.2.1, ?_⟩
  intro hmem
  exact absurd (h.whole '/' hmem) (by decide)

/-- The names that lead to the files of a project. -/
def shelteredNames (name : String) : List (List String) :=
  [["database", "migrations", name], ["app", "Models", name]]

/-- Below a folder, a sheltered file lands right in one of the two folders there. -/
theorem Sheltered.exists_landing {path : String} (h : Sheltered path) (here : List String) :
    ∃ name, IsComponent name ∧ ∃ names ∈ shelteredNames name,
      Disk.landing here (Place.namesIn path) = here ++ names := by
  obtain ⟨name, hname, hpath⟩ := h
  -- no name on the way leads back up, so the file lands where its path says
  have hdown : ∀ names ∈ shelteredNames name, ∀ n ∈ names, Disk.IsPiece n ∧ n ≠ ".." := by
    have hfolders : ∀ n ∈ ["database", "migrations", "app", "Models"], Disk.IsPiece n
        ∧ n ≠ ".." := by
      unfold Disk.IsPiece
      decide
    have hlast : Disk.IsPiece name ∧ name ≠ ".." := ⟨hname.isPiece, hname.leads.2.2⟩
    simp only [List.mem_cons, List.not_mem_nil, or_false, forall_eq_or_imp, forall_eq] at hfolders
    simp only [shelteredNames, List.mem_cons, List.not_mem_nil, or_false, forall_eq_or_imp,
      forall_eq]
    exact ⟨⟨hfolders.1, hfolders.2.1, hlast⟩, hfolders.2.2.1, hfolders.2.2.2, hlast⟩
  have hlands : ∀ names ∈ shelteredNames name,
      Disk.landing here (Place.namesIn (Disk.path names)) = here ++ names := by
    intro names hnames
    have hne : names ≠ [] := by
      rintro rfl
      simp [shelteredNames] at hnames
    rw [Disk.namesIn_path_of_isPiece hne fun n hn => (hdown names hnames n hn).1]
    exact Disk.landing_of_down (fun n hn => (hdown names hnames n hn).2) here
  refine ⟨name, hname, ?_⟩
  have hmigrations : Migration.folder = Disk.path ["database", "migrations"] := by decide
  have hmodels : Model.folder = Disk.path ["app", "Models"] := by decide
  rcases hpath with rfl | rfl
  · rw [hmigrations, ← path_append_singleton (List.cons_ne_nil _ _)]
    exact ⟨_, List.mem_cons_self, hlands _ List.mem_cons_self⟩
  · rw [hmodels, ← path_append_singleton (List.cons_ne_nil _ _)]
    exact ⟨_, List.mem_cons_of_mem _ List.mem_cons_self,
      hlands _ (List.mem_cons_of_mem _ List.mem_cons_self)⟩

/-! ### Files and their tables -/

/-- The paths of a suggestion's files: a migration for each table, and then a class for each. -/
theorem exists_paths_of_files {now : Moment} {s : Suggestion} {made : List SourceFile}
    (h : s.files now = .ok made) :
    ∃ names, List.Forall₂ (fun t name => ∃ moment, name = Migration.fileName t.name moment)
      s.tables names
      ∧ made.map SourceFile.path = names.map (fun name => Migration.folder ++ "/" ++ name)
        ++ s.tables.map fun t =>
          Model.folder ++ "/" ++ Model.fileName (Naming.tableToModel t.name) := by
  unfold files at h
  cases hnames : Migration.fileNames? now (s.tables.map Table.name) with
  | none =>
      rw [hnames] at h
      cases h
  | some names =>
      rw [hnames] at h
      obtain rfl := Except.ok.inj h
      have hlength := Migration.length_fileNames? hnames
      rw [List.length_map] at hlength
      refine ⟨names, List.forall₂_map_left_iff.mp (Migration.forall₂_fileNames? hnames), ?_⟩
      rw [List.map_append, List.map_map, List.map_map]
      have hfirst : (names.zip s.tables).map (SourceFile.path ∘ fun m => migrationFile m.1 m.2)
          = names.map fun name => Migration.folder ++ "/" ++ name :=
        map_fst_zip_of_le (fun name => Migration.folder ++ "/" ++ name) (Nat.le_of_eq hlength)
      rw [hfirst]
      rfl

/-- The paths, seen from the top, of what lies right in one of the two folders of a project. -/
def ShelteredAt (d : Disk) (root : Place) (key : String) : Prop :=
  ∃ name, IsComponent name ∧ ∃ names ∈ shelteredNames name, key = Disk.path (d.lead root ++ names)

/-- The files of a suggestion lie right in the two folders of a project exactly if no table has
a slash in its name. Then saving them in any session that has a folder, on any disk, changes
nothing but right in these two folders; the folders on the way there are made if they are not
there. -/
theorem sheltered_files_iff {s : Suggestion} {now : Moment} {made : List SourceFile}
    (h : s.files now = .ok made) :
    ((∀ f ∈ made, Sheltered f.path) ↔ ∀ t ∈ s.tables, ∀ c ∈ t.name.toList, isSlash c = false)
    ∧ ((∀ f ∈ made, Sheltered f.path) → ∀ (w : Session) (root : Place),
      w.root = some root → ∀ d : Disk,
      Disk.ChangedAt (ShelteredAt d root) d ((w.replaceFiles made).save d).2.2) := by
  constructor
  · -- the stamp and the ending of a migration add no slash, so its name has one if its table
    -- has
    obtain ⟨names, hstep, hpaths⟩ := exists_paths_of_files h
    have hall : (∀ f ∈ made, Sheltered f.path) ↔ ∀ path ∈ made.map SourceFile.path,
        Sheltered path :=
      List.forall_mem_map.symm
    rw [hall, hpaths]
    constructor
    · intro hfiles t ht
      obtain ⟨name, hname, moment, rfl⟩ := exists_of_mem_left_of_forall₂ hstep ht
      have hfile := hfiles _ (List.mem_append_left _ (List.mem_map_of_mem hname))
      exact (isComponent_fileName_iff t.name moment).mp ((sheltered_migration_iff _).mp hfile)
    · intro htables path hpath
      rcases List.mem_append.mp hpath with hpath | hpath
      · obtain ⟨name, hname, rfl⟩ := List.mem_map.mp hpath
        obtain ⟨t, ht, moment, rfl⟩ := exists_of_mem_right_of_forall₂ hstep hname
        exact (sheltered_migration_iff _).mpr
          ((isComponent_fileName_iff t.name moment).mpr (htables t ht))
      · obtain ⟨t, ht, rfl⟩ := List.mem_map.mp hpath
        exact ⟨_, isComponent_modelFileName (htables t ht), .inr rfl⟩
  · intro hfiles w root hroot d
    refine Disk.changedAt_save (s := w.replaceFiles made) hroot fun f hf => ?_
    obtain ⟨name, hname, names, hnames, hlands⟩ := (hfiles f hf).exists_landing (d.lead root)
    refine ⟨name, hname, names, hnames, ?_⟩
    rw [Session.target, Disk.lead_below, hlands]

/-! ### One table -/

/-- A moment of the calendar. -/
def someday : Moment := ⟨2024, 1, 31, 23, 59, 58⟩

/-- The suggestion of one table without columns. -/
def single (table : String) : Suggestion := ⟨[⟨table, [], []⟩], []⟩

/-- The files of such a suggestion. -/
def singleFiles (table : String) : List SourceFile :=
  [migrationFile (Migration.fileName table someday) ⟨table, [], []⟩, modelFile [] ⟨table, [], []⟩]

/-- The files of a suggestion with a single table are computed: its migration, and its
class. -/
theorem files_single (table : String) :
    (single table).files someday = .ok (singleFiles table) := rfl

/-- The files of a suggestion of one table by a plain name are sheltered, and saving them
changes nothing outside of the project's two folders. -/
theorem sheltered_files_iff_posts :
    (∀ f ∈ singleFiles "posts", Sheltered f.path)
      ∧ Disk.ChangedAt (ShelteredAt {} ⟨"", ["p"]⟩) {}
        (((Session.start [] (some ⟨"", ["p"]⟩)).replaceFiles (singleFiles "posts")).save
          {}).2.2 := by
  have hboth := sheltered_files_iff (files_single "posts")
  have hfiles : ∀ f ∈ singleFiles "posts", Sheltered f.path := by
    refine hboth.1.mpr fun t ht => ?_
    rw [List.mem_singleton.mp ht]
    exact isSlash_of_all (by decide)
  exact ⟨hfiles, hboth.2 hfiles _ _ rfl {}⟩

/-- An object that lists one table, by a name that leads back. -/
def dots : Payload :=
  [("tables", .array [.object [("name", .string "../../../x"), ("columns", .array [])]])]

/-- What this object holds is taken as a suggestion and made into files. One of them is not in
the two folders, and saving them below the folder `p` writes a file beside this folder. -/
theorem leaves_dots :
    ofPayload dots = .ok (single "../../../x")
      ∧ (single "../../../x").files someday = .ok (singleFiles "../../../x")
      ∧ ¬(∀ f ∈ singleFiles "../../../x", Sheltered f.path)
      ∧ ¬Disk.ChangedAt (ShelteredAt {} ⟨"", ["p"]⟩) {}
        (((Session.start [] (some ⟨"", ["p"]⟩)).replaceFiles (singleFiles "../../../x")).save
          {}).2.2 := by
  refine ⟨rfl, rfl, ?_, ?_⟩
  · intro h
    have hfirst := (sheltered_migration_iff _).mp (h _ List.mem_cons_self)
    have hslash := (isComponent_fileName_iff "../../../x" someday).mp hfirst '/' (by decide)
    exact absurd hslash (by decide)
  · intro h
    have hoff : ¬ShelteredAt {} ⟨"", ["p"]⟩ "x.php" := by
      rintro ⟨name, -, names, hnames, hpath⟩
      -- below `p` every path has a slash in it
      have hslash : '/' ∈ (Disk.path ("p" :: names)).toList := by
        rcases List.mem_cons.mp hnames with rfl | hnames
        · simp [Disk.path, String.intercalate_cons_cons]
        · rw [List.mem_singleton.mp hnames]
          simp [Disk.path, String.intercalate_cons_cons]
      have hlead : Disk.lead {} ⟨"", ["p"]⟩ ++ names = "p" :: names := rfl
      rw [hlead] at hpath
      rw [← hpath] at hslash
      exact absurd hslash (by decide)
    have hfile :
        (((Session.start [] (some ⟨"", ["p"]⟩)).replaceFiles (singleFiles "../../../x")).save
        {}).2.2.entries.get? "x.php" ∉ [none, some .folder] := by
      decide +kernel
    rcases h.kept "x.php" hoff with hsame | ⟨-, hfolder⟩
    · rw [hsame] at hfile
      exact hfile List.mem_cons_self
    · rw [hfolder] at hfile
      exact hfile (List.mem_cons_of_mem _ List.mem_cons_self)

end SchemaAtlas.Suggestion
