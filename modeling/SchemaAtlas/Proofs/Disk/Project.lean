import Mathlib.Data.List.Nodup
import SchemaAtlas.Disk.Project
import SchemaAtlas.Proofs.Disk.Basic

/-!
# `SchemaAtlas.Proofs.Disk.Project`: where a project's files lie

The files of a project are found below its folder, each under the path that it goes
by in the project (`Disk.Stores`), and no two under one path. What a file holds is
what was read from its bytes (`exists_stores_of_project`).
-/

set_option autoImplicit false

namespace SchemaAtlas.Disk

open SchemaAtlas.Text

/-- Holds of a place that names a folder of the disk. -/
structure Rooted (d : Disk) (root : Place) (folder : List String) : Prop where
  located : d.locate root = .ok folder
  isFolder : d.at? folder = some .folder

/-- Where a source file lies: along its path from a folder. -/
def seat (folder : List String) (f : SourceFile) : List String :=
  folder ++ Place.namesIn f.path

/-- Holds of a source file whose path from a folder leads to these bytes. -/
structure Stores (d : Disk) (folder : List String) (f : SourceFile) (bytes : List UInt8) :
    Prop where
  /-- The path leads along the names that it is made of. -/
  pieces : cut '/' (path (seat folder f)) = seat folder f
  path_eq : path (Place.namesIn f.path) = f.path
  file : d.at? (seat folder f) = some (.file bytes)

section Seat

variable {d : Disk} {folder : List String} {f g : SourceFile} {bytes bytes' : List UInt8}

/-- Files that lie in one place go by one path: the place of a file is the folder of the
project with the names of the file's path behind it. -/
theorem path_eq_of_seat (hf : d.Stores folder f bytes) (hg : d.Stores folder g bytes')
    (h : path (seat folder f) = path (seat folder g)) : f.path = g.path := by
  have hseat : seat folder f = seat folder g := by rw [← hf.pieces, ← hg.pieces, h]
  rw [← hf.path_eq, ← hg.path_eq, List.append_cancel_left hseat]

end Seat

/-! ### Entries below a folder -/

variable {d : Disk} {folder : List String} {root : Place}

/-- What lies below a folder is an entry of the disk, and its path leads along its
names. -/
theorem of_mem_below {e : List String × Entry} (h : e ∈ d.below folder) :
    e.1 ≠ [] ∧ (path (folder ++ e.1), e.2) ∈ d.entries.entries
      ∧ cut '/' (path (folder ++ e.1)) = folder ++ e.1 := by
  obtain ⟨⟨key, entry⟩, hm, hsome⟩ := List.mem_filterMap.mp h
  simp only at hsome
  split at hsome
  · rename_i hcond
    rw [Bool.and_eq_true, List.isPrefixOf_iff_prefix, decide_eq_true_eq] at hcond
    obtain ⟨⟨rest, hrest⟩, hlength⟩ := hcond
    obtain rfl := Option.some.inj hsome
    have hdrop : (cut '/' key).drop folder.length = rest := by rw [← hrest, List.drop_left]
    rw [hdrop, hrest, path_cut]
    refine ⟨?_, hm, rfl⟩
    rintro rfl
    rw [← hrest, List.append_nil] at hlength
    exact Nat.lt_irrefl _ hlength
  · cases hsome

/-- No two entries below a folder have one path, since no two entries of a disk do and all
of these begin alike. -/
theorem nodup_paths_below (d : Disk) (folder : List String) :
    ((d.below folder).map fun e => path (folder ++ e.1)).Nodup := by
  refine d.entries.nodup.sublist (sublist_map_filterMap fun key _ e hsome => ?_)
  simp only at hsome
  split at hsome
  · rename_i hcond
    rw [Bool.and_eq_true, List.isPrefixOf_iff_prefix] at hcond
    obtain ⟨⟨rest, hrest⟩, -⟩ := hcond
    obtain rfl := Option.some.inj hsome
    show path (folder ++ (cut '/' key.1).drop folder.length) = key.1
    rw [← hrest, List.drop_left, hrest, path_cut]
  · cases hsome

/-- The names that lead down to an entry are those of its path, as a sound disk has no empty
names, dots or slashes in them. -/
theorem namesIn_path (hd : d.Sound) {e : List String × Entry} (h : e ∈ d.below folder) :
    Place.namesIn (path e.1) = e.1 := by
  obtain ⟨hne, hm, hpieces⟩ := of_mem_below h
  have hkey : path (folder ++ e.1) ∈ d.entries.names := List.mem_map_of_mem (f := Prod.fst) hm
  have hslash : ∀ name ∈ e.1, '/' ∉ name.toList := fun name hname =>
    notMem_of_mem_cut (hpieces.symm ▸ List.mem_append_right folder hname)
  rw [Place.namesIn, cut_path hne hslash, List.filter_eq_self]
  intro name hname
  obtain ⟨hempty, hdot⟩ :=
    (hd.names _ hkey name (hpieces.symm ▸ List.mem_append_right folder hname)).named
  simp [hempty, hdot]

/-! ### The files of a project -/

/-- A source file is read from the bytes of an entry that can be looked for. -/
theorem of_sourceOfEntry {e : List String × Entry} {f : SourceFile}
    (h : sourceOfEntry root e = .ok (some f)) :
    pathFault? (root.below e.1) = none ∧ f.path = path e.1
      ∧ ∃ bytes, e.2 = .file bytes ∧ f.content = withLineFeeds (Utf8.decode bytes) := by
  unfold sourceOfEntry at h
  split at h
  · cases h
  · cases h
  · cases h
  · rename_i hfault hentry _
    obtain rfl := Option.some.inj (Except.ok.inj h)
    exact ⟨hfault, rfl, _, hentry, rfl⟩

/-- The entries that are read are some of those below the folder, in another order: they are
chosen by their names and then sorted. -/
theorem exists_perm_of_sourceEntries {found entries : List (List String × Entry)}
    (h : sourceEntries root found = .ok entries) :
    ∃ some_, entries.Perm some_ ∧ some_.Sublist found := by
  rw [sourceEntries] at h
  split at h
  · cases h
  · rw [← Except.ok.inj h]
    exact ⟨_, List.mergeSort_perm _ _, List.filter_sublist⟩

/-- A place that is a folder can be walked to, which gives the folder that its project lies
in. -/
theorem exists_rooted_of_isFolder (h : d.isFolder root = .ok true) :
    ∃ folder, d.Rooted root folder := by
  rw [isFolder] at h
  split at h
  · rename_i folder hlocated
    exact ⟨folder, hlocated, beq_iff_eq.mp (Except.ok.inj h)⟩
  · cases h
  · cases h

/-- A place that leads to a folder of the disk is found to be one, and the question does not
fail. -/
theorem isFolder_of_rooted (h : d.Rooted root folder) : d.isFolder root = .ok true := by
  rw [isFolder, h.located]
  simp only [h.isFolder]
  rfl

/-- The files of a project whose folder is there: the entries below the folder by their
names, each read in turn, without those that hold no source. -/
theorem project_of_rooted (h : d.Rooted root folder) :
    d.project root = sourceEntries root (d.below folder) >>= fun entries =>
      entries.mapM (sourceOfEntry root) >>= fun found => .ok (found.filterMap id) := by
  rw [project, isFolder_of_rooted h]
  simp only [bind, Except.bind, h.located, if_true]
  rfl

/-- The folder of a project is there, and its files are read from entries below it. -/
theorem exists_of_project {files : List SourceFile} (h : d.project root = .ok files) :
    ∃ folder entries, d.Rooted root folder ∧ sourceEntries root (d.below folder) = .ok entries
      ∧ files = entries.filterMap fun e => (sourceOfEntry root e).toOption.join := by
  have hfolder : d.isFolder root = .ok true := by
    rw [project] at h
    obtain ⟨isFolder, hfolder, h⟩ := exists_of_bind_eq_ok h
    cases isFolder with
    | false => cases h
    | true => exact hfolder
  obtain ⟨folder, hrooted⟩ := exists_rooted_of_isFolder hfolder
  rw [project_of_rooted hrooted] at h
  obtain ⟨entries, hentries, h⟩ := exists_of_bind_eq_ok h
  obtain ⟨found, hfound, h⟩ := exists_of_bind_eq_ok h
  obtain rfl := Except.ok.inj h
  refine ⟨folder, entries, hrooted, hentries, ?_⟩
  rw [eq_filterMap_of_mapM hfound, List.filterMap_filterMap]
  rfl

/-- A source file lies where the entry does that it was read from. Its text is that of the
entry's bytes, with every line end as a line feed. -/
theorem stores_of_sourceOfEntry (hd : d.Sound) {e : List String × Entry} (he : e ∈ d.below folder)
    {f : SourceFile} (h : sourceOfEntry root e = .ok (some f)) :
    seat folder f = folder ++ e.1 ∧ pathFault? (root.below (Place.namesIn f.path)) = none
      ∧ ∃ bytes, d.Stores folder f bytes ∧ f.content = withLineFeeds (Utf8.decode bytes) := by
  obtain ⟨hfault, hpath, bytes, hbytes, hcontent⟩ := of_sourceOfEntry h
  obtain ⟨-, hm, hpieces⟩ := of_mem_below he
  have hnames : Place.namesIn f.path = e.1 := by rw [hpath, namesIn_path hd he]
  have hseat : seat folder f = folder ++ e.1 := by rw [seat, hnames]
  have hat := (at?_cut d _).trans ((d.entries.get?_eq_some_iff _ e.2).mpr hm)
  rw [hpieces] at hat
  refine ⟨hseat, by rw [hnames]; exact hfault, bytes, ⟨?_, ?_, ?_⟩, hcontent⟩
  · rw [hseat]
    exact hpieces
  · rw [hnames, hpath]
  · rw [hseat, hat, hbytes]

/-- The files of a project lie below its folder, no two under one path, and hold what was
read from their bytes. -/
theorem exists_stores_of_project (hd : d.Sound) {files : List SourceFile}
    (h : d.project root = .ok files) :
    ∃ folder, d.Rooted root folder ∧ (files.map SourceFile.path).Nodup
      ∧ ∀ f ∈ files, pathFault? (root.below (Place.namesIn f.path)) = none
        ∧ ∃ bytes, d.Stores folder f bytes ∧ f.content = withLineFeeds (Utf8.decode bytes) := by
  obtain ⟨folder, entries, hrooted, hentries, rfl⟩ := exists_of_project h
  obtain ⟨below, hperm, hsublist⟩ := exists_perm_of_sourceEntries hentries
  -- every file is read from an entry below the folder, whatever the order of the entries
  have hread : ∀ e ∈ entries, ∀ f, (sourceOfEntry root e).toOption.join = some f →
      seat folder f = folder ++ e.1 ∧ pathFault? (root.below (Place.namesIn f.path)) = none
        ∧ ∃ bytes, d.Stores folder f bytes ∧ f.content = withLineFeeds (Utf8.decode bytes) := by
    intro e he f hf
    refine stores_of_sourceOfEntry hd (hsublist.subset (hperm.mem_iff.mp he)) ?_
    cases hsource : sourceOfEntry root e with
    | error failure =>
        rw [hsource] at hf
        cases hf
    | ok found =>
        rw [hsource] at hf
        exact congrArg Except.ok hf
  refine ⟨folder, hrooted, ?_, fun f hf => ?_⟩
  · -- each file lies where an entry does, and no two entries lie in one place
    have hentries : (entries.map fun e => path (folder ++ e.1)).Nodup :=
      (hperm.map _).nodup_iff.mpr ((nodup_paths_below d folder).sublist (hsublist.map _))
    have hseats := hentries.sublist (sublist_map_filterMap (g := fun f => path (seat folder f))
      fun e he f hf => congrArg path (hread e he f hf).1)
    refine List.Nodup.of_map (fun p => path (folder ++ Place.namesIn p)) ?_
    rw [List.map_map]
    exact hseats
  · obtain ⟨e, he, hsome⟩ := List.mem_filterMap.mp hf
    exact (hread e he f hsome).2

end SchemaAtlas.Disk
