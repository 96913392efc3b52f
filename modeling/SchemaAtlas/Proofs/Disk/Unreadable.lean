import SchemaAtlas.Proofs.Disk.Project

/-!
# `SchemaAtlas.Proofs.Disk.Unreadable`: projects that cannot be read

The files of a project are read, or there is no project, unless a path leads nowhere
that can be gone to, or a folder goes by the name of a migration or model
(`project_answers_iff`).
-/

set_option autoImplicit false

namespace SchemaAtlas.Disk

open SchemaAtlas.Text

/-- What keeps the files of a project from being read. -/
inductive Unreadable (d : Disk) (root : Place) : Prop
  /-- The path to the project is too long, or a name in it is. -/
  | place (h : d.locate root = .error .nameTooLong)
  /-- A folder below it lies too deep, or at a path that cannot be looked for. -/
  | folder {folder names : List String} (h : d.Rooted root folder)
    (hmem : (names, .folder) ∈ d.below folder)
      (hfault : deepestFolder < names.length ∨ pathFault? (root.below names) ≠ none)
  /-- What goes by the name of a migration or model is a folder, or lies at such a path. -/
  | source {folder names : List String} {entry : Entry} (h : d.Rooted root folder)
      (hmem : (names, entry) ∈ d.below folder)
      (hname : names.getLast?.any (endsWith Source.fileEnd) = true)
      (hkind : Source.classify (path names) ≠ .other)
      (hfault : entry = .folder ∨ pathFault? (root.below names) ≠ none)

variable {d : Disk} {root : Place} {folder : List String}

/-- There is nothing wrong with a folder exactly if it does not lie too deep and its path
can be looked for. -/
theorem folderFault?_eq_none_iff {names : List String} :
    folderFault? root names = none
      ↔ ¬(deepestFolder < names.length ∨ pathFault? (root.below names) ≠ none) := by
  rw [folderFault?, not_or, not_not]
  split
  · rename_i hdeep
    exact ⟨fun h => by simp at h, fun h => absurd hdeep h.1⟩
  · rename_i hdeep
    exact (and_iff_right hdeep).symm

/-- The entries below a root are told if every folder among them can be gone through. -/
theorem exists_sourceEntries_iff {found : List (List String × Entry)} :
    (∃ entries, sourceEntries root found = .ok entries)
      ↔ ∀ e ∈ found, e.2 = .folder →
        ¬(deepestFolder < e.1.length ∨ pathFault? (root.below e.1) ≠ none) := by
  have hnone : (found.filter fun e => e.2 == .folder).findSome? (fun e => folderFault? root e.1)
      = none
      ↔ ∀ e ∈ found, e.2 = .folder →
        ¬(deepestFolder < e.1.length ∨ pathFault? (root.below e.1) ≠ none) := by
    simp only [List.findSome?_eq_none_iff, List.mem_filter, beq_iff_eq, and_imp,
      folderFault?_eq_none_iff]
  rw [← hnone, sourceEntries]
  split
  · rename_i hfault
    rw [hfault]
    exact ⟨fun h => by simp at h, fun h => by simp at h⟩
  · rename_i hfault
    exact ⟨fun _ => hfault, fun _ => ⟨_, rfl⟩⟩

/-- The entries that are read for sources are those found below the folder whose names end
as the names of source files do. -/
theorem mem_sourceEntries {found entries : List (List String × Entry)}
    (h : sourceEntries root found = .ok entries)
    (e : List String × Entry) :
    e ∈ entries ↔ e ∈ found ∧ e.1.getLast?.any (endsWith Source.fileEnd) = true := by
  rw [sourceEntries] at h
  split at h
  · cases h
  · rw [← Except.ok.inj h, List.mem_mergeSort, List.mem_filter]

/-- An entry is read, or has no part in the project, if it is no folder and can be looked for. -/
theorem exists_sourceOfEntry_iff {e : List String × Entry} :
    (∃ f?, sourceOfEntry root e = .ok f?)
      ↔ Source.classify (path e.1) ≠ .other →
        ¬(e.2 = .folder ∨ pathFault? (root.below e.1) ≠ none) := by
  unfold sourceOfEntry
  split
  · rename_i hkind
    exact ⟨fun _ h => absurd hkind h, fun _ => ⟨none, rfl⟩⟩
  · rename_i hfault hkind
    exact ⟨fun h => by simp at h, fun h => absurd (.inr (by simp [hfault])) (h hkind)⟩
  · rename_i hfault hentry hkind
    exact ⟨fun h => by simp at h, fun h => absurd (.inl hentry) (h hkind)⟩
  · rename_i hfault hentry hkind
    exact ⟨fun _ _ => by simp [hfault, hentry], fun _ => ⟨_, rfl⟩⟩

/-- No path is refused because a project is missing: the faults of a path are about its
length and its characters. -/
theorem pathFault?_ne_projectMissing (p : Place) (text : String) :
    pathFault? p ≠ some (.projectMissing text) := by
  rw [pathFault?]
  split
  · simp
  · split
    · simp
    · simp

/-- Going through a folder does not fail because a project is missing either, but for the
depth or the path of a folder in it. -/
theorem sourceEntries_ne_projectMissing (found : List (List String × Entry)) (text : String) :
    sourceEntries root found ≠ .error (.projectMissing text) := by
  intro h
  rw [sourceEntries] at h
  split at h
  · rename_i hfault
    obtain ⟨e, -, hfault⟩ := List.exists_of_findSome?_eq_some hfault
    obtain rfl := Except.error.inj h
    rw [folderFault?] at hfault
    split at hfault
    · cases hfault
    · exact pathFault?_ne_projectMissing _ _ hfault
  · cases h

/-- Nor does reading an entry: it fails if the entry is a folder or its path cannot be
looked for. -/
theorem sourceOfEntry_ne_projectMissing (e : List String × Entry) (text : String) :
    sourceOfEntry root e ≠ .error (.projectMissing text) := by
  intro h
  unfold sourceOfEntry at h
  split at h
  · cases h
  · rename_i hfault _
    obtain rfl := Except.error.inj h
    exact pathFault?_ne_projectMissing _ _ hfault
  · cases h
  · cases h

/-- Where the folder of a project is there, the project is not missing. Whatever else fails
in reading it is another failure. -/
theorem project_ne_projectMissing (h : d.Rooted root folder) (text : String) :
    d.project root ≠ .error (.projectMissing text) := by
  intro hproject
  rw [project_of_rooted h] at hproject
  rcases exists_of_bind_eq_error hproject with hentries | ⟨entries, -, hproject⟩
  · exact sourceEntries_ne_projectMissing _ _ hentries
  rcases exists_of_bind_eq_error hproject with hfound | ⟨found, -, hproject⟩
  · obtain ⟨e, -, hfails⟩ := exists_of_mapM_eq_error hfound
    exact sourceOfEntry_ne_projectMissing _ _ hfails
  · cases hproject

/-- The files of a project whose folder is there are read unless something keeps them from it. -/
theorem exists_project_iff (h : d.Rooted root folder) :
    (∃ files, d.project root = .ok files) ↔ ¬d.Unreadable root := by
  -- a root names one folder only
  have hsame : ∀ {other}, d.Rooted root other → other = folder := fun hother =>
    Except.ok.inj (hother.located.symm.trans h.located)
  rw [project_of_rooted h]
  constructor
  · rintro ⟨files, hfiles⟩ hunreadable
    obtain ⟨entries, hentries, hfiles⟩ := exists_of_bind_eq_ok hfiles
    obtain ⟨found, hfound, -⟩ := exists_of_bind_eq_ok hfiles
    cases hunreadable with
    | place hlocated =>
        rw [h.located] at hlocated
        cases hlocated
    | folder hother hmem hfault =>
        rw [hsame hother] at hmem
        exact exists_sourceEntries_iff.mp ⟨entries, hentries⟩ _ hmem rfl hfault
    | source hother hmem hname hkind hfault =>
        rw [hsame hother] at hmem
        have hentry := (mem_sourceEntries hentries _).mpr ⟨hmem, hname⟩
        exact exists_sourceOfEntry_iff.mp (exists_mapM_iff.mp ⟨found, hfound⟩ _ hentry) hkind
          hfault
  · intro hreadable
    obtain ⟨entries, hentries⟩ := exists_sourceEntries_iff.mpr fun e he hfolder hfault =>
      hreadable (.folder h (hfolder ▸ he) hfault)
    obtain ⟨found, hfound⟩ :=
      exists_mapM_iff.mpr fun e he => exists_sourceOfEntry_iff.mpr fun hkind hfault =>
      have hentry := (mem_sourceEntries hentries e).mp he
      hreadable (.source h hentry.1 hentry.2 hkind hfault)
    rw [hentries]
    show ∃ files, (entries.mapM (sourceOfEntry root) >>= fun found => .ok (found.filterMap id))
      = .ok files
    rw [hfound]
    exact ⟨_, rfl⟩

/-- A project is read, or there is none, unless something keeps its files from being read. -/
theorem project_answers_iff :
    ((∃ files, d.project root = .ok files) ∨ ∃ text,
      d.project root = .error (.projectMissing text))
      ↔ ¬d.Unreadable root := by
  cases hfolder : d.isFolder root with
  | error failure =>
      -- only a path that is too long keeps a place from being looked for
      have hlocated : d.locate root = .error .nameTooLong := by
        rw [isFolder] at hfolder
        split at hfolder
        · cases hfolder
        · assumption
        · cases hfolder
      have hproject : d.project root = .error .nameTooLong := by
        rw [project, isFolder, hlocated]
        rfl
      rw [hproject]
      exact ⟨fun h => by simp at h, fun h => absurd (.place hlocated) h⟩
  | ok isFolder =>
      cases isFolder with
      | false =>
          refine ⟨fun _ hunreadable => ?_, fun _ => .inr ⟨root.text, ?_⟩⟩
          · -- what keeps a project from being read is told of one that is there
            have hnot : ∀ {folder}, ¬d.Rooted root folder := by
              intro folder h
              rw [isFolder_of_rooted h] at hfolder
              cases hfolder
            cases hunreadable with
            | place h =>
                rw [Disk.isFolder, h] at hfolder
                cases hfolder
            | folder h _ _ => exact hnot h
            | source h _ _ _ _ => exact hnot h
          · rw [project, hfolder]
            rfl
      | true =>
          obtain ⟨folder, hrooted⟩ := exists_rooted_of_isFolder hfolder
          rw [← exists_project_iff hrooted]
          refine or_iff_left ?_
          rintro ⟨text, hmissing⟩
          exact project_ne_projectMissing hrooted text hmissing

end SchemaAtlas.Disk
