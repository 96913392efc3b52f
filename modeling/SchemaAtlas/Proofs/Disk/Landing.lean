import SchemaAtlas.Proofs.Disk.Sound
import SchemaAtlas.Session.Basic

/-!
# `SchemaAtlas.Proofs.Disk.Landing`: where names lead, and what is written there

Names lead from a folder to where each of them goes on and two dots go back
(`landing`). A walk that comes to an end comes there (`eq_landing_of_walk`), so
a file that is written at a place lies there, on any disk. Folders are made
where nothing was. So writing a batch of files changes a disk only where the
files land; besides there may be new folders (`changedAt_writeFiles`). The same
holds of saving a session (`changedAt_save`).
-/

set_option autoImplicit false

namespace SchemaAtlas.Disk

/-! ### Landing -/

/-- Where names lead from a folder. -/
def landing (here names : List String) : List String :=
  names.foldl further here

/-- Names in two parts lead where the second part leads from where the first one does. -/
theorem landing_append (here front back : List String) :
    landing here (front ++ back) = landing (landing here front) back :=
  List.foldl_append

/-- Names that do not lead back lead down: where they land is found by putting them behind
where one stands. -/
theorem landing_of_down {names : List String} (h : ∀ name ∈ names, name ≠ "..")
    (here : List String) :
    landing here names = here ++ names := by
  induction names generalizing here with
  | nil => exact (List.append_nil here).symm
  | cons name names ih =>
      rw [landing, List.foldl_cons, further, if_neg (h name List.mem_cons_self)]
      show landing (here ++ [name]) names = _
      rw [ih fun n hn => h n (List.mem_cons_of_mem name hn), List.append_assoc,
        List.singleton_append]

/-- Where the names of a place lead, whether anything is there or not. -/
def lead (d : Disk) (p : Place) : List String :=
  landing (d.startOf p) p.names

/-- Where a place below another leads is where its names lead from the other one, on any
disk. -/
theorem lead_below (d : Disk) (p : Place) (names : List String) :
    d.lead (p.below names) = landing (d.lead p) names :=
  landing_append _ p.names names

variable {d d' : Disk} {here there names : List String}

/-- The path of some pieces leads along them: none of them is empty or a dot, so none is
left out when the path is read. -/
theorem namesIn_path_of_isPiece (hne : names ≠ []) (h : ∀ name ∈ names, IsPiece name) :
    Place.namesIn (path names) = names := by
  rw [Place.namesIn, cut_path hne fun name hname => (h name hname).2.2, List.filter_eq_self]
  intro name hname
  simp [(h name hname).1, (h name hname).2.1]

/-- A walk ends where its names lead, if it ends at all. Where it ends does not depend on
the disk, only whether it does. -/
theorem eq_landing_of_walk (h : d.walk here names = .ok there) : there = landing here names := by
  induction names generalizing here with
  | nil => exact (Except.ok.inj h).symm
  | cons name names ih =>
      obtain ⟨-, -, hwalk⟩ := walk_cons_eq_ok_iff.mp h
      exact ih hwalk

/-! ### What changes -/

/-- Holds of a disk and of what it has become if, but under some paths, all is as it was. Where
nothing was there may be a new folder. -/
structure ChangedAt (paths : String → Prop) (d d' : Disk) : Prop where
  here_eq : d'.here = d.here
  kept : ∀ key, ¬paths key → d'.entries.get? key = d.entries.get? key
    ∨ (d.entries.get? key = none ∧ d'.entries.get? key = some .folder)

variable {paths : String → Prop}

/-- A disk that is left alone has changed at none of any paths. -/
theorem ChangedAt.refl (d : Disk) : ChangedAt paths d d :=
  ⟨rfl, fun _ _ => .inl rfl⟩

/-- If two steps each change a disk at some paths only, so do both one after the other. -/
theorem ChangedAt.trans {d'' : Disk} (h : ChangedAt paths d d') (h' : ChangedAt paths d' d'') :
    ChangedAt paths d d'' := by
  refine ⟨h'.here_eq.trans h.here_eq, fun key hkey => ?_⟩
  rcases h'.kept key hkey with hsame | ⟨hnone, hfolder⟩
  · rw [hsame]
    exact h.kept key hkey
  · -- nothing was there before the second change, and so nothing before the first
    rcases h.kept key hkey with hsame | ⟨-, hmade⟩
    · exact .inr ⟨hsame.symm.trans hnone, hfolder⟩
    · rw [hnone] at hmade
      cases hmade

/-- What is put under one of the paths changes the disk at these paths only, whatever was
there before. -/
theorem changedAt_put (entry : Entry) (h : paths (path names)) :
    ChangedAt paths d (d.put names entry) := by
  refine ⟨rfl, fun key hkey => .inl ?_⟩
  rw [put, Catalog.get?_insert, if_neg]
  rintro rfl
  exact hkey h

/-- A folder is made where nothing is. This is a change that any set of paths allows, as
folders on the way to a file are made without being asked for. -/
theorem changedAt_put_folder (hne : names ≠ []) (h : d.at? names = none) :
    ChangedAt paths d (d.put names .folder) := by
  refine ⟨rfl, fun key _ => ?_⟩
  rw [at?, if_neg (by simpa using hne)] at h
  rw [put, Catalog.get?_insert]
  by_cases hsame : key = path names
  · right
    rw [if_pos hsame, hsame]
    exact ⟨h, rfl⟩
  · left
    rw [if_neg hsame]

/-- Making folders along some names, from any place on, makes folders where nothing is and
changes nothing else, also if it ends in a failure. -/
theorem changedAt_makeFoldersFrom (d : Disk) (here : List String) (made : Bool)
    (names : List String) :
    ChangedAt paths d (d.makeFoldersFrom here made names).2 := by
  induction names generalizing d here made with
  | nil => exact .refl d
  | cons name names ih =>
      rcases makeFoldersFrom_cons_cases d here made name names with
        ⟨failure, hfails⟩ | ⟨-, hgoes⟩ | ⟨-, -, hnone, hmakes⟩
      · rw [hfails]
        exact .refl d
      · rw [hgoes]
        exact ih d _ made
      · rw [hmakes]
        exact (changedAt_put_folder (by simp) hnone).trans (ih _ _ true)

/-- Making the folders of a place changes a disk only by folders that were not there,
whether it succeeds or not. -/
theorem changedAt_makeFolders (d : Disk) (p : Place) : ChangedAt paths d (d.makeFolders p).2 := by
  rw [makeFolders]
  split
  · exact .refl d
  · exact changedAt_makeFoldersFrom _ _ _ _

/-- A file is written where the names of its place lead, so the disk changes at these paths
only if that is one of them. -/
theorem changedAt_writeBytes {p : Place} {bytes : List UInt8} (h : d.writeBytes p bytes = .ok d')
    (hpath : paths (path (d.lead p))) : ChangedAt paths d d' := by
  obtain ⟨there, hwalk, -, rfl⟩ := of_writeBytes h
  rw [eq_landing_of_walk hwalk]
  exact changedAt_put _ hpath

/-! ### Batches of files -/

open Session

/-- A batch of files changes a disk only where the files land. A failure in the midst of the
batch leaves a part of the same changes. -/
theorem changedAt_writeFiles {root : Place} {files : List SourceFile}
    (h : ∀ f ∈ files, paths (path (d.lead (target root f)))) :
    ChangedAt paths d (writeFiles root d files).2 := by
  induction files generalizing d with
  | nil => exact .refl d
  | cons f files ih =>
      rw [writeFiles]
      simp only
      have hfolders : ChangedAt paths d (d.makeFolders (target root f).parent).2 :=
        changedAt_makeFolders d _
      split
      · rename_i hmade
        rw [hmade] at hfolders
        exact hfolders
      · rename_i hmade
        rw [hmade] at hfolders
        split
        · exact hfolders
        · rename_i hwritten
          -- the files land in the same places on the way, because the current folder stays
          have hlead : ∀ d' : Disk, d'.here = d.here → ∀ p, d'.lead p = d.lead p := by
            intro d' hhere p
            rw [lead, lead, startOf, startOf, hhere]
          have hfirst := h f List.mem_cons_self
          rw [← hlead _ hfolders.here_eq] at hfirst
          have hboth := hfolders.trans (changedAt_writeBytes hwritten hfirst)
          refine hboth.trans (ih fun g hg => ?_)
          rw [hlead _ hboth.here_eq]
          exact h g (List.mem_cons_of_mem f hg)

/-- So does saving the files of a session, whether all of them can be written or not. -/
theorem changedAt_save {s : Session} {root : Place} (hroot : s.root = some root)
    (h : ∀ f ∈ s.files, paths (path (d.lead (target root f)))) :
    ChangedAt paths d (s.save d).2.2 := by
  have hwritten : ChangedAt paths d
      (writeFiles root d (s.files.filter fun f => s.dirty.contains f.path)).2 :=
    changedAt_writeFiles fun f hf => h f (List.mem_filter.mp hf).1
  rw [save, hroot]
  simp only
  split
  · rename_i hresult
    rw [hresult] at hwritten
    exact hwritten
  · rename_i hresult
    rw [hresult] at hwritten
    exact hwritten

end SchemaAtlas.Disk
