import SchemaAtlas.Proofs.Session.Rewrite
import SchemaAtlas.Proofs.Session.Save
import SchemaAtlas.Proofs.Text.Utf8

/-!
# `SchemaAtlas.Proofs.Session.InSync`: no edit is lost between session and disk

A session that is in sync with a disk holds each of its files as it lies there, but
for those that are to be saved (`Session.InSync`). A session on the files of a project
is in sync unless reading the files lost something (`Tracks.load`). An edit keeps it so,
since it marks the file that it changes (`InSync.edits`), and so does a save, which
writes the marked files and no other (`saved_of_save`). So nothing is lost in any run of
edits and saves (`inSync_run?`).
-/

set_option autoImplicit false

namespace SchemaAtlas.Session

open SchemaAtlas.Disk SchemaAtlas.Text

/-! ### Runs -/

/-- What can be done to a session that was loaded: to change a column of a table, to
give a table all its columns, with or without its foreign keys, and to save. -/
inductive Action
  | edit (table : String) (e : ColumnEdit)
  | rewrite (table : String) (columns : List Column) (fks? : Option (List ForeignKey))
  | save

/-- Holds of a session and what it is after an edit of a table that was done. -/
inductive Edits (table : String) (s s' : Session) : Prop
  | edit (e : ColumnEdit) (h : e.run? s table = some s')
  | rewrite (columns : List Column) (h : s.editColumns? table columns = some s')
  | rewriteAll (columns : List Column) (fks : List ForeignKey)
    (h : s.editTable? table columns fks = some s')

/-- Every action that does not fail keeps the session in sync. This is the step of the
induction over runs. -/
def act? (w : Session × Disk) : Action → Option (Session × Disk)
  | .edit table e => some (w.1.edited table e, w.2)
  | .rewrite table columns none => some ((w.1.editColumns? table columns).getD w.1, w.2)
  | .rewrite table columns (some fks) => some ((w.1.editTable? table columns fks).getD w.1, w.2)
  | .save =>
    match w.1.save w.2 with
    | (.ok _, s, d) => some (s, d)
    | (.error _, _, _) => none

/-- Every run of actions that do not fail keeps the session in sync, by induction over the
actions. -/
def run? (w : Session × Disk) (actions : List Action) : Option (Session × Disk) :=
  actions.foldlM act? w

/-- Holds of a session that has its files as they lie below a root, but for those that are
to be saved. -/
structure InSync (s : Session) (root : Place) (d : Disk) : Prop where
  known : ∀ path ∈ s.dirty, path ∈ s.files.map SourceFile.path
  stored : ∀ f ∈ s.files, f.path ∉ s.dirty →
    d.bytesAt? (target root f) = some (Utf8.encode f.content)

/-- The files that a session is to save. -/
def unsaved (s : Session) : List SourceFile :=
  s.files.filter fun f => s.dirty.contains f.path

/-- What a save below a root did: all files lie there as the session has them, and of the
entries of the disk only those have changed that the answer names, which are the places
of the files that were to be saved. -/
structure Saved (s : Session) (root : Place) (d : Disk) (places : List Place) (s' : Session)
    (d' : Disk) :
    Prop where
  clean : s'.dirty = []
  files : s'.files = s.files
  places_eq : places = s.unsaved.map (target root)
  stored : ∀ f ∈ s'.files, d'.bytesAt? (target root f) = some (Utf8.encode f.content)
  others : ∀ key, (∀ p ∈ places, ∀ names, d.locate p = .ok names → path names ≠ key) →
    d'.entries.get? key = d.entries.get? key

variable {s s' : Session} {d d' : Disk} {root : Place} {root? : Option Place}
    {folder : List String}

/-! ### Editing -/

/-- Files go by the same paths as before when one of them has other content. -/
theorem map_path_set {files : List SourceFile} {f : SourceFile} {i : Nat}
    (hi : files[i]? = some f)
    (text : String) :
    (files.set i (f.withContent text)).map SourceFile.path = files.map SourceFile.path := by
  refine List.ext_getElem? fun j => ?_
  rw [List.getElem?_map, List.getElem?_map, List.getElem?_set]
  by_cases hij : i = j
  · obtain ⟨hlength, -⟩ := List.getElem?_eq_some_iff.mp hi
    rw [if_pos hij, if_pos hlength, ← hij, hi]
    rfl
  · rw [if_neg hij]

/-- A path is among the marked ones once it is marked, and those that were marked before
still are. -/
theorem mem_addPath {path other : String} {paths : List String} :
    other ∈ addPath path paths ↔ other = path ∨ other ∈ paths := by
  rw [addPath]
  split
  · rename_i hpath
    constructor
    · exact .inr
    · rintro (rfl | hother)
      · exact List.contains_iff_mem.mp hpath
      · exact hother
  · rw [List.mem_append, List.mem_singleton, or_comm]

/-- Every edit that is done writes a table into the migration that creates it, so one lemma
about that serves for all edits. -/
theorem Edits.exists_editTable? {table : String} (h : Edits table s s') :
    ∃ columns fks, s.editTable? table columns fks = some s' := by
  cases h with
  | edit e h =>
      obtain ⟨_, u, -, -, hedit⟩ := exists_written?_of_run? h
      exact ⟨u.columns, u.foreignKeys, hedit⟩
  | rewrite columns h => exact ⟨columns, _, h⟩
  | rewriteAll columns fks h => exact ⟨columns, fks, h⟩

/-- An edit marks the file that it changes, and the session has that file. So only files of
the session are ever marked. -/
theorem Edits.known {table : String} (hedits : Edits table s s')
    (h : ∀ path ∈ s.dirty, path ∈ s.files.map SourceFile.path) :
    ∀ path ∈ s'.dirty, path ∈ s'.files.map SourceFile.path := by
  obtain ⟨columns, fks, hedit⟩ := hedits.exists_editTable?
  obtain ⟨f, i, hcreator, rfl⟩ := exists_creator?_of_editTable? hedit
  have hi := getElem?_of_creator? hcreator
  intro path hpath
  show path ∈ (s.files.set i _).map SourceFile.path
  rw [map_path_set hi]
  rcases mem_addPath.mp hpath with rfl | hpath
  · exact List.mem_map_of_mem (List.mem_of_getElem? hi)
  · exact h path hpath

/-- An edit changes the content of one file and marks it to be saved. The session stays in
sync, with the same paths and the same root. -/
theorem InSync.edits (h : s.InSync root d) {table : String} (hedits : Edits table s s') :
    s'.InSync root d ∧ s'.files.map SourceFile.path = s.files.map SourceFile.path
      ∧ s'.root = s.root := by
  obtain ⟨columns, fks, hedit⟩ := hedits.exists_editTable?
  obtain ⟨f, i, hcreator, rfl⟩ := exists_creator?_of_editTable? hedit
  have hi := getElem?_of_creator? hcreator
  have hpaths := map_path_set hi (Migration.writeBack f.content table columns fks)
  refine ⟨⟨hedits.known h.known, fun g hg hclean => ?_⟩, hpaths, rfl⟩
  -- a file that is not marked is not the one that changed
  have hne : g.path ≠ f.path := fun hpath => hclean (mem_addPath.mpr (.inl hpath))
  rcases List.mem_or_eq_of_mem_set hg with hg | rfl
  · exact h.stored g hg fun hdirty => hclean (mem_addPath.mpr (.inr hdirty))
  · exact absurd rfl hne

/-! ### Saving -/

/-- The files to be saved are the files of the session whose paths are marked. -/
theorem mem_unsaved {f : SourceFile} : f ∈ s.unsaved ↔ f ∈ s.files ∧ f.path ∈ s.dirty := by
  rw [unsaved, List.mem_filter, List.contains_iff_mem]

/-- In particular they are files of the session, so each of them lies below the folder. -/
theorem mem_files_of_mem_unsaved : ∀ f ∈ s.unsaved, f ∈ s.files :=
  fun _ hf => (mem_unsaved.mp hf).1

section Save

variable (h : d.Keeps root folder s.files) (hroot : s.root = some root)

include h

/-- A file that is not to be saved lies elsewhere than those that are, so no save writes
over it. -/
theorem ne_of_notMem_dirty {f : SourceFile} (hf : f ∈ s.files) (hclean : f.path ∉ s.dirty) :
    ∀ g ∈ s.unsaved, path (seat folder f) ≠ path (seat folder g) := by
  intro g hg hsame
  obtain ⟨hgfiles, hdirty⟩ := mem_unsaved.mp hg
  obtain ⟨_, hstores⟩ := h.stores f hf
  obtain ⟨_, hstores'⟩ := h.stores g hgfiles
  exact hclean (path_eq_of_seat hstores hstores' hsame ▸ hdirty)

/-- A file that is to be saved is written: its place holds the bytes of its content in the
end. -/
theorem bytesAt?_foldl_store {f : SourceFile} (hf : f ∈ s.unsaved) :
    (s.unsaved.foldl (Disk.store folder) d).bytesAt? (target root f)
      = some (Utf8.encode f.content) := by
  have hkeeps := h.foldl_store mem_files_of_mem_unsaved
  have hdistinct : (s.unsaved.map SourceFile.path).Nodup :=
    h.distinct.sublist (List.filter_sublist.map _)
  rw [bytesAt?_eq_some_iff (hkeeps.locate_target (mem_files_of_mem_unsaved f hf))]
  exact h.at?_foldl_store mem_files_of_mem_unsaved hdistinct hf

/-- No entry of the disk changes other than those at the places of the files that are
saved. -/
theorem get?_foldl_store {key : String}
    (hkey : ∀ p ∈ s.unsaved.map (target root), ∀ names,
      d.locate p = .ok names → path names ≠ key) :
    (s.unsaved.foldl (Disk.store folder) d).entries.get? key = d.entries.get? key := by
  rw [← at?_cut, ← at?_cut]
  refine at?_foldl_store_of_ne fun f hf hsame => ?_
  rw [path_cut] at hsame
  exact hkey (target root f) (List.mem_map_of_mem hf)
    _ (h.locate_target (mem_files_of_mem_unsaved f hf)) hsame.symm

/-- After a save, every file lies on the disk as the session has it, whether it was just
written or was in sync before. -/
theorem stored_foldl_store (hsync : s.InSync root d) {f : SourceFile} (hf : f ∈ s.files) :
    (s.unsaved.foldl (Disk.store folder) d).bytesAt? (target root f)
      = some (Utf8.encode f.content) := by
  by_cases hdirty : f.path ∈ s.dirty
  · exact bytesAt?_foldl_store h (mem_unsaved.mpr ⟨hf, hdirty⟩)
  · have hkeeps := h.foldl_store mem_files_of_mem_unsaved
    rw [bytesAt?_eq_some_iff (hkeeps.locate_target hf),
      at?_foldl_store_of_ne (ne_of_notMem_dirty h hf hdirty),
      ← bytesAt?_eq_some_iff (h.locate_target hf)]
    exact hsync.stored f hf hdirty

include hroot

/-- A save below the session's root does not fail. It answers with the places it has
written, and nothing is left to be saved. -/
theorem save_eq : s.save d = (.ok (s.unsaved.map (target root)), { s with dirty := [] },
    s.unsaved.foldl (Disk.store folder) d) := by
  have hwritten := h.writeFiles mem_files_of_mem_unsaved
  rw [unsaved] at hwritten
  rw [save, hroot]
  simp only [hwritten]
  rfl

/-- A save of a session in sync has done what `Saved` says, and its files can be saved
again. -/
theorem saved_of_save (hsync : s.InSync root d) {places : List Place}
    (hsave : s.save d = (.ok places, s', d')) :
    Saved s root d places s' d' ∧ d'.Keeps root folder s'.files ∧ s'.root = s.root := by
  rw [save_eq h hroot] at hsave
  obtain ⟨hplaces, rfl, rfl⟩ : _ ∧ _ ∧ _ := by simpa using hsave
  refine ⟨⟨rfl, rfl, hplaces.symm, fun f hf => stored_foldl_store h hsync hf, fun key hkey => ?_⟩,
    h.foldl_store mem_files_of_mem_unsaved, rfl⟩
  rw [← hplaces] at hkey
  exact get?_foldl_store h hkey

end Save

/-! ### Every run -/

/-- Holds of a session and a disk after a project was loaded: the files lie below the folder
of the project, and the session is in sync with them. -/
structure Tracks (root? : Option Place) (root : Place) (folder : List String)
    (w : Session × Disk) : Prop where
  root_eq : w.1.root = root?
  keeps : w.2.Keeps root folder w.1.files
  sync : w.1.InSync root w.2

namespace Tracks

/-- A session that was just loaded is in sync if its files are text without carriage returns. -/
theorem load (hd : d.Sound) {files : List SourceFile} (hproject : d.project root = .ok files)
    (htext : ∀ f ∈ files, ∃ text : String, '\r' ∉ text.toList
      ∧ d.bytesAt? (target root f) = some (Utf8.encode text)) (before : Session) :
    ∃ folder, Tracks root? root folder (before.load files root?, d) := by
  obtain ⟨folder, hkeeps, hfiles⟩ := exists_keeps_of_project hd hproject
  refine ⟨folder, rfl, hkeeps, fun path hpath => absurd hpath List.not_mem_nil, fun f hf _ => ?_⟩
  obtain ⟨bytes, hbytes, hcontent⟩ := hfiles f hf
  obtain ⟨text, hreturns, htext⟩ := htext f hf
  -- the bytes that were read are those of the text
  have hsame := Option.some.inj (hbytes.symm.trans htext)
  have hread : f.content = text := by
    rw [hcontent, hsame, Utf8.decode_encode, withLineFeeds_of_notMem hreturns]
  rw [htext, hread]

variable {w w' : Session × Disk} (h : Tracks root? root folder w)

include h

/-- An edit keeps the session in sync, whether it is done or not: what is refused changes
nothing. -/
theorem edit {s? : Option Session} {table : String} (hedits : ∀ s' ∈ s?, Edits table w.1 s') :
    Tracks root? root folder (s?.getD w.1, w.2) := by
  cases s? with
  | none => exact h
  | some s' =>
      -- files lie where their paths lead, and an edit changes no path
      obtain ⟨hsync, hpaths, hroot⟩ := h.sync.edits (hedits s' rfl)
      exact ⟨hroot.trans h.root_eq, h.keeps.of_map_path hpaths, hsync⟩

/-- A save of a session that was loaded together with its folder does not fail. -/
theorem exists_save (hroot : root? = some root) :
    ∃ places s' d', w.1.save w.2 = (.ok places, s', d') :=
  ⟨_, _, _, save_eq h.keeps (h.root_eq.trans hroot)⟩

/-- A session saves to the folder of the project or not at all, since it has no other
root. -/
theorem root_eq_of_save (hroot : ∀ p ∈ root?, p = root) {places : List Place}
    (hsave : w.1.save w.2 = (.ok places, s', d')) : w.1.root = some root := by
  cases hroot? : w.1.root with
  | none =>
      rw [save, hroot?] at hsave
      cases hsave
  | some p => rw [hroot p (h.root_eq.symm.trans hroot?)]

/-- So a save that succeeds has done what it should, wherever in a run it stands. -/
theorem saved (hroot : ∀ p ∈ root?, p = root) {places : List Place}
    (hsave : w.1.save w.2 = (.ok places, s', d')) : Saved w.1 root w.2 places s' d' :=
  (saved_of_save h.keeps (h.root_eq_of_save hroot hsave) h.sync hsave).1

/-- A save keeps the session in sync: the files lie where they lay, and each of them as the
session has it. -/
theorem save (hroot : ∀ p ∈ root?, p = root) {places : List Place}
    (hsave : w.1.save w.2 = (.ok places, s', d')) : Tracks root? root folder (s', d') := by
  obtain ⟨hsaved, hkeeps, hroot'⟩ :=
    saved_of_save h.keeps (h.root_eq_of_save hroot hsave) h.sync hsave
  refine ⟨hroot'.trans h.root_eq, hkeeps, fun path hpath => ?_, fun f hf _ => hsaved.stored f hf⟩
  rw [hsaved.clean] at hpath
  exact absurd hpath List.not_mem_nil

/-- Every action that does not fail keeps the session in sync. -/
theorem act? (hroot : ∀ p ∈ root?, p = root) {action : Action} (hact : act? w action = some w') :
    Tracks root? root folder w' := by
  cases action with
  | edit table e =>
      obtain rfl := Option.some.inj hact
      exact h.edit fun s' hs' => .edit e hs'
  | rewrite table columns fks? =>
      cases fks? with
      | none =>
          obtain rfl := Option.some.inj hact
          exact h.edit fun s' hs' => .rewrite columns hs'
      | some fks =>
          obtain rfl := Option.some.inj hact
          exact h.edit fun s' hs' => .rewriteAll columns fks hs'
  | save =>
      rw [Session.act?] at hact
      split at hact
      · rename_i hsave
        obtain rfl := Option.some.inj hact
        exact h.save hroot hsave
      · cases hact

/-- And so does every run. -/
theorem run? (hroot : ∀ p ∈ root?, p = root) {actions : List Action}
    (hrun : run? w actions = some w') :
    Tracks root? root folder w' := by
  induction actions generalizing w with
  | nil =>
      obtain rfl := Option.some.inj hrun
      exact h
  | cons action actions ih =>
      rw [Session.run?, List.foldlM_cons] at hrun
      obtain ⟨w₁, hact, hrun⟩ := Option.bind_eq_some_iff.mp hrun
      exact ih (h.act? hroot hact) hrun

end Tracks

/-- Once a project of texts without carriage returns has been loaded, the session is in sync
after any edits and saves, so that none of the edits is lost. A save does not fail if the
folder of the project was told, and whenever there is one it writes all that was changed
and nothing else. -/
theorem inSync_run? (hd : d.Sound) {files : List SourceFile}
    (hproject : d.project root = .ok files)
    (htext : ∀ f ∈ files, ∃ text : String, '\r' ∉ text.toList
      ∧ d.bytesAt? (target root f) = some (Utf8.encode text))
    (hroot : ∀ p ∈ root?, p = root) (before : Session) {actions : List Action}
    (hrun : run? (before.load files root?, d) actions = some (s, d')) :
    s.InSync root d'
      ∧ (root? = some root → ∃ places s' d'', s.save d' = (.ok places, s', d''))
      ∧ ∀ places s' d'', s.save d' = (.ok places, s', d'') → Saved s root d' places s' d'' := by
  obtain ⟨folder, hload⟩ := Tracks.load hd hproject htext before
  have h := hload.run? hroot hrun
  exact ⟨h.sync, h.exists_save, fun _ _ _ hsave => h.saved hroot hsave⟩

/-! A project with one migration, of any bytes. -/

/-- A folder below the current one. -/
def tagProject : Place := { names := ["p"] }

/-- The migration of the project. -/
def tagFile (content : String) : SourceFile :=
  ⟨"database/migrations/1_tags.php", "1_tags.php", content, .migration⟩

/-- The disk with the project. -/
def tagDisk (bytes : List UInt8) : Disk where
  entries := {
    entries := [("p", .folder), ("p/database", .folder), ("p/database/migrations", .folder),
      ("p/database/migrations/1_tags.php", .file bytes)]
    nodup := by
      show ["p", "p/database", "p/database/migrations", "p/database/migrations/1_tags.php"].Nodup
      decide }

/-- The disk of the example is sound: each of its entries lies in a folder that is there. -/
theorem sound_tagDisk (bytes : List UInt8) : (tagDisk bytes).Sound := by
  have hempty : (tagDisk []).Sound := by decide +kernel
  have hput : (tagDisk []).put ["p", "database", "migrations", "1_tags.php"] (.file bytes)
      = tagDisk bytes := by
    rfl
  have hfile : (tagDisk []).at? ["p", "database", "migrations", "1_tags.php"]
      = some (.file []) := rfl
  rw [← hput]
  exact hempty.put_file hfile

/-- Below the project's folder, there are two folders and the one migration. -/
theorem below_tagDisk (bytes : List UInt8) : (tagDisk bytes).below ["p"] =
    [(["database"], .folder), (["database", "migrations"], .folder),
      (["database", "migrations", "1_tags.php"], .file bytes)] := by
  have hcut : cut '/' "p" = ["p"] ∧ cut '/' "p/database" = ["p", "database"]
      ∧ cut '/' "p/database/migrations" = ["p", "database", "migrations"]
      ∧ cut '/' "p/database/migrations/1_tags.php"
        = ["p", "database", "migrations", "1_tags.php"] := by
    decide +kernel
  rw [below, tagDisk]
  simp only [List.filterMap_cons, List.filterMap_nil, hcut]
  rfl

/-- The project is read from that disk: one migration, its bytes decoded and its line ends
unified. -/
theorem project_tagDisk (bytes : List UInt8) :
    (tagDisk bytes).project tagProject = .ok [tagFile (withLineFeeds (Utf8.decode bytes))] := by
  have hfolder : (tagDisk bytes).isFolder tagProject = .ok true := rfl
  have hlocated : (tagDisk bytes).locate tagProject = .ok ["p"] := rfl
  have hentries : sourceEntries tagProject ((tagDisk bytes).below ["p"])
      = .ok [(["database", "migrations", "1_tags.php"], .file bytes)] := by
    have hsources : [(["database"], Entry.folder), (["database", "migrations"], .folder),
          (["database", "migrations", "1_tags.php"], .file bytes)].filter
        (fun e => e.1.getLast?.any (endsWith Source.fileEnd))
        = [(["database", "migrations", "1_tags.php"], .file bytes)] := rfl
    rw [below_tagDisk, sourceEntries]
    simp only [hsources, List.mergeSort_singleton]
    rfl
  -- the bytes stay a variable: nothing but the path is computed
  have hsource : sourceOfEntry tagProject (["database", "migrations", "1_tags.php"], .file bytes)
      = .ok (some (tagFile (withLineFeeds (Utf8.decode bytes)))) := by
    have hpath : path ["database", "migrations", "1_tags.php"]
        = "database/migrations/1_tags.php" := by
      decide +kernel
    have hkind : Source.classify "database/migrations/1_tags.php" = .migration := by
      decide +kernel
    have hreach : pathFault? (tagProject.below ["database", "migrations", "1_tags.php"])
        = none := by
      decide +kernel
    unfold sourceOfEntry
    simp only [hpath, hkind, hreach]
    rfl
  rw [project, hfolder, hlocated]
  simp only [bind, Except.bind, if_true, hentries, List.mapM_cons, hsource]
  rfl

/-- At the place of the migration, the disk holds the bytes that it was made with. -/
theorem bytesAt?_tagDisk (bytes : List UInt8) (content : String) :
    (tagDisk bytes).bytesAt? (target tagProject (tagFile content)) = some bytes := by
  have hnames : Place.namesIn "database/migrations/1_tags.php"
      = ["database", "migrations", "1_tags.php"] := by
    decide +kernel
  have htarget : target tagProject (tagFile content)
      = tagProject.below ["database", "migrations", "1_tags.php"] :=
    congrArg tagProject.below hnames
  have hlocated : (tagDisk bytes).locate
      (tagProject.below ["database", "migrations", "1_tags.php"])
      = .ok ["p", "database", "migrations", "1_tags.php"] := rfl
  rw [htarget, bytesAt?_eq_some_iff hlocated]
  rfl

/-- What the migration says at first. -/
def tagText : String :=
  "<?php\nSchema::create('tags',function(Blueprint $t)\x7b"
    ++ "$t->id();\x7d);\n"

/-- The closure that creates the table. -/
def tagBody : Migration.Closure := ⟨⟨.create, "tags", "t"⟩, 51, 60⟩

/-- The migration of the example makes a table with an identifier and nothing else. -/
theorem makes_tagText : Makes (tagFile tagText).content.toList
    ⟨"tags", [{ name := "id", type := .id, isPrimary := true }], []⟩ tagBody :=
  Scan.of_ofList_append (t := tagText) (p := fun cs => Makes cs _ tagBody) rfl rfl rfl
    (by decide +kernel)

/-- The migration has no carriage return in it, as is asked of files that are to stay in
sync. -/
theorem notMem_tagText : '\r' ∉ tagText.toList :=
  Scan.of_ofList_append (p := fun cs => '\r' ∉ cs) rfl rfl rfl (by decide +kernel)

/-- A column can be added to the table, and the migration is to be saved then. -/
theorem exists_run?_tagFile :
    ∃ s, (ColumnEdit.add "label" .text false).run? (start [tagFile tagText] (some tagProject))
      "tags" = some s
      ∧ s.dirty = ["database/migrations/1_tags.php"] := by
  let columns : List Column :=
    [{ name := "id", type := .id, isPrimary := true }, newColumn "label" .text false]
  have hu : (ColumnEdit.add "label" .text false).written?
      ⟨"tags", [{ name := "id", type := .id, isPrimary := true }], []⟩
        = some ⟨"tags", columns, []⟩ := by
    decide +kernel
  have hne := Scan.of_ofList_append (t := tagText)
    (p := fun cs => Migration.rewritten cs tagBody columns [] ≠ cs)
    rfl rfl rfl (by decide +kernel)
  obtain ⟨s, hrun, -, -⟩ :=
    @exists_run?_start (tagFile tagText) rfl (some tagProject) _ _ _ makes_tagText _ hu hne
  obtain ⟨_, _, -, -, hedit⟩ := exists_written?_of_run? hrun
  obtain ⟨f, i, hcreator, rfl⟩ := exists_creator?_of_editTable? hedit
  rw [creator?_start_singleton rfl makes_tagText] at hcreator
  obtain ⟨rfl, rfl⟩ := Prod.mk.inj (Option.some.inj hcreator)
  exact ⟨_, hrun, rfl⟩

/-- The column that is added is not lost: the file is marked, and a save writes it. -/
theorem inSync_run?_tags :
    ∃ s d', run? ((default : Session).load [tagFile tagText] (some tagProject),
      tagDisk (Utf8.encode tagText))
        [.edit "tags" (.add "label" .text false)] = some (s, d')
      ∧ s.dirty = ["database/migrations/1_tags.php"] ∧ s.InSync tagProject d'
      ∧ ∃ places s' d'', s.save d' = (.ok places, s', d'')
      ∧ Saved s tagProject d' places s' d'' := by
  obtain ⟨s, hrun, hdirty⟩ := exists_run?_tagFile
  have hact : Session.run? ((default : Session).load [tagFile tagText] (some tagProject),
      tagDisk (Utf8.encode tagText)) [.edit "tags" (.add "label" .text false)]
      = some (s, tagDisk (Utf8.encode tagText)) := by
    show some ((ColumnEdit.run? (start [tagFile tagText] (some tagProject)) "tags"
      (.add "label" .text false)).getD _,
      _) = _
    rw [hrun]
    rfl
  have hproject := project_tagDisk (Utf8.encode tagText)
  rw [Utf8.decode_encode, withLineFeeds_of_notMem notMem_tagText] at hproject
  obtain ⟨hsync, hsaves, hsaved⟩ := inSync_run? (sound_tagDisk _) hproject
    (fun f hf =>
      ⟨tagText, notMem_tagText, by rw [List.mem_singleton.mp hf]; exact bytesAt?_tagDisk _ _⟩)
    (fun p hp => (Option.some.inj hp).symm) default hact
  obtain ⟨places, s', d'', hsave⟩ := hsaves rfl
  exact ⟨s, _, hact, hdirty, hsync, places, s', d'', hsave, hsaved places s' d'' hsave⟩

end SchemaAtlas.Session
