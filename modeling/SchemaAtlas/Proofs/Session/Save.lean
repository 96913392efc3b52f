import SchemaAtlas.Proofs.Disk.Project
import SchemaAtlas.Proofs.Disk.Sound
import SchemaAtlas.Session.Basic

/-!
# `SchemaAtlas.Proofs.Session.Save`: writing files where they lie

The files of a session lie below its folder (`Disk.Keeps`). Each of them can be
written again: no folder has to be made for it (`Keeps.makeFolders`), and its bytes
are replaced where they lie (`Keeps.write`), which leaves the files below the folder
(`Keeps.store`). So a save never fails (`Keeps.writeFiles`): every file that is
written holds its content (`Keeps.at?_foldl_store`), and nothing else changes
(`at?_foldl_store_of_ne`). A save of other files can fail, but it leaves the disk in
order too (`inOrder_save`).
-/

set_option autoImplicit false

namespace SchemaAtlas.Disk

open SchemaAtlas.Text SchemaAtlas.Session

/-- Holds of files that lie below a folder of a sound disk, no two under one path, and that
can be looked for there. -/
structure Keeps (d : Disk) (root : Place) (folder : List String) (files : List SourceFile) :
    Prop where
  sound : d.Sound
  rooted : d.Rooted root folder
  distinct : (files.map SourceFile.path).Nodup
  reach : ∀ f ∈ files, pathFault? (root.below (Place.namesIn f.path)) = none
  stores : ∀ f ∈ files, ∃ bytes, d.Stores folder f bytes

/-- The disk with the content of a source file where the file lies. -/
def store (folder : List String) (d : Disk) (f : SourceFile) : Disk :=
  d.put (seat folder f) (.file (Utf8.encode f.content))

variable {d : Disk} {root : Place} {folder : List String} {files : List SourceFile}

/-- Where files lie is told by their paths alone, so an edit of their contents does not
matter. -/
theorem Keeps.of_map_path (h : d.Keeps root folder files) {files' : List SourceFile}
    (hpaths : files'.map SourceFile.path = files.map SourceFile.path) :
    d.Keeps root folder files' := by
  have hfile : ∀ f ∈ files', ∃ g ∈ files, g.path = f.path := fun f hf =>
    List.mem_map.mp (hpaths ▸ List.mem_map_of_mem hf)
  refine ⟨h.sound, h.rooted, hpaths ▸ h.distinct, fun f hf => ?_, fun f hf => ?_⟩
  · obtain ⟨g, hg, hpath⟩ := hfile f hf
    rw [← hpath]
    exact h.reach g hg
  · obtain ⟨g, hg, hpath⟩ := hfile f hf
    obtain ⟨bytes, hstores⟩ := h.stores g hg
    have hseat : seat folder f = seat folder g := by rw [seat, seat, hpath]
    refine ⟨bytes, ?_, ?_, ?_⟩
    · rw [hseat]
      exact hstores.pieces
    · rw [← hpath]
      exact hstores.path_eq
    · rw [hseat]
      exact hstores.file

/-! ### The way to a file -/

/-- A file lies in folders, and bears a name in each. So the walk to it, and to any folder
on the way, goes through. -/
theorem Stores.walk (hd : d.Sound) {f : SourceFile} {bytes : List UInt8}
    (hf : d.Stores folder f bytes)
    {front : List String} (hfront : front <+: Place.namesIn f.path) :
    d.walk folder front = .ok (folder ++ front)
      ∧ (front ≠ Place.namesIn f.path → d.at? (folder ++ front) = some .folder) := by
  have hkey := mem_names_of_at? (ne_nil_of_at?_file hf.file) hf.file
  have hnames : ∀ name ∈ Place.namesIn f.path, IsEntryName name := fun name hname =>
    hd.names _ hkey name (hf.pieces.symm ▸ List.mem_append_right folder hname)
  -- the disk is sound, so every beginning of the way to the file is a folder
  have hfolders : ∀ x, x <+: Place.namesIn f.path → x ≠ Place.namesIn f.path →
      d.at? (folder ++ x) = some .folder := by
    intro x hx hne
    have hlength : (folder ++ x).length < (cut '/' (path (seat folder f))).length := by
      rw [hf.pieces, seat, List.length_append, List.length_append]
      have hshorter : x.length ≠ (Place.namesIn f.path).length :=
        fun heq => hne (hx.eq_of_length heq)
      have hle := hx.length_le
      omega
    have hfolder := hd.folders _ hkey _ hlength
    have hseat : folder ++ x <+: seat folder f := (List.prefix_append_right_inj folder).mpr hx
    rwa [hf.pieces, ← List.prefix_iff_eq_take.mp hseat] at hfolder
  refine ⟨walk_of_folders (fun name hname => hnames name (hfront.subset hname))
    fun x hx hne => ?_,
    hfolders front hfront⟩
  refine hfolders x (hx.trans hfront) ?_
  rintro rfl
  exact hne (hx.eq_of_length_le hfront.length_le)

/-- The walk to a place below a root goes on from the root, if the place can be reached at
all. -/
theorem locate_below (hr : d.Rooted root folder) {names there : List String}
    (hreach : pathFault? (root.below names) = none) (hwalk : d.walk folder names = .ok there) :
    d.locate (root.below names) = .ok there := by
  have hroot : d.walk (d.startOf root) root.names = .ok folder := by
    have hlocated := hr.located
    rw [locate] at hlocated
    split at hlocated
    · cases hlocated
    · exact hlocated
  rw [locate, hreach]
  show d.walk (d.startOf root) (root.names ++ names) = _
  rw [walk_append, hroot]
  exact hwalk

/-! ### Writing one file -/

section One

variable (h : d.Keeps root folder files) {f : SourceFile} (hf : f ∈ files)

include h hf

/-- A file lies below the folder and not in its place, since the folder is no file. -/
theorem Keeps.namesIn_ne_nil : Place.namesIn f.path ≠ [] := by
  obtain ⟨bytes, hstores⟩ := h.stores f hf
  intro hnil
  have hfile := hstores.file
  rw [seat, hnil, List.append_nil, h.rooted.isFolder] at hfile
  cases hfile

/-- All folders on the way to a file are there, so none has to be made and the disk stays as
it is. -/
theorem Keeps.makeFolders : d.makeFolders (target root f).parent = (.ok (), d) := by
  obtain ⟨bytes, hstores⟩ := h.stores f hf
  have hne := h.namesIn_ne_nil hf
  have hparent : (target root f).parent = root.below (Place.namesIn f.path).dropLast := by
    show Place.mk root.root (root.names ++ Place.namesIn f.path).dropLast = _
    rw [List.dropLast_append_of_ne_nil hne]
    rfl
  -- the folder that the file lies in is on the way to the file, and no file itself
  have hreach := pathFault?_parent (h.reach f hf)
  have hshorter : (Place.namesIn f.path).dropLast ≠ Place.namesIn f.path := by
    intro heq
    have hlength := congrArg List.length heq
    have hpos := List.length_pos_iff.mpr hne
    rw [List.length_dropLast] at hlength
    omega
  obtain ⟨hwalk, hfolder⟩ := hstores.walk h.sound (List.dropLast_prefix _)
  have hlocated := locate_below h.rooted (hparent ▸ hreach) hwalk
  rw [locate, ← hparent] at hlocated
  rw [Disk.makeFolders]
  have hreach' : pathFault? (target root f).parent = none := hreach
  rw [hreach'] at hlocated ⊢
  exact makeFoldersFrom_of_walk hlocated (hfolder hshorter) false

/-- A file is looked for where it lies: its place below the root leads to its seat below the
folder. -/
theorem Keeps.locate_target : d.locate (target root f) = .ok (seat folder f) := by
  obtain ⟨bytes, hstores⟩ := h.stores f hf
  exact locate_below h.rooted (h.reach f hf) (hstores.walk h.sound (List.prefix_refl _)).1

/-- The content of a file is written where the file lies, and writing it does not fail. -/
theorem Keeps.write : d.write (target root f) f.content = .ok (d.store folder f) := by
  obtain ⟨bytes, hstores⟩ := h.stores f hf
  have hfile := ne_folder_of_at?_file hstores.file
  rw [Disk.write, writeBytes, h.locate_target hf]
  simp only [bind, Except.bind, if_neg hfile]
  rfl

/-- What lies below the folder still does when a file is written, since its place holds a
file as before. -/
theorem Keeps.store : (d.store folder f).Keeps root folder files := by
  obtain ⟨bytes, hstores⟩ := h.stores f hf
  have hfolders : ∀ n, d.at? n = some .folder → (d.store folder f).at? n = some .folder :=
    fun n => at?_put_of_folder (ne_folder_of_at?_file hstores.file)
  refine ⟨h.sound.put_file hstores.file, ⟨?_, hfolders _ h.rooted.isFolder⟩, h.distinct, h.reach,
    fun g hg => ?_⟩
  · have hlocated := h.rooted.located
    rw [locate] at hlocated ⊢
    split at hlocated
    · cases hlocated
    · exact walk_of_forall_folder hfolders hlocated
  · obtain ⟨bytes', hstores'⟩ := h.stores g hg
    by_cases hsame : path (seat folder g) = path (seat folder f)
    · -- the file that was written
      refine ⟨Utf8.encode f.content, hstores'.pieces, hstores'.path_eq, ?_⟩
      rw [Disk.store, at?_put, if_pos ⟨by simpa using ne_nil_of_at?_file hstores'.file, hsame⟩]
    · refine ⟨bytes', hstores'.pieces, hstores'.path_eq, ?_⟩
      rw [Disk.store, at?_put_of_ne hsame, hstores'.file]

end One

/-- The files of a project lie below its folder, and each is what was read from the bytes
that are there. -/
theorem exists_keeps_of_project (hd : d.Sound) (h : d.project root = .ok files) :
    ∃ folder, d.Keeps root folder files ∧ ∀ f ∈ files, ∃ bytes,
      d.bytesAt? (target root f) = some bytes
      ∧ f.content = withLineFeeds (Utf8.decode bytes) := by
  obtain ⟨folder, hrooted, hdistinct, hfiles⟩ := exists_stores_of_project hd h
  have hkeeps : d.Keeps root folder files := by
    refine ⟨hd, hrooted, hdistinct, fun f hf => (hfiles f hf).1, fun f hf => ?_⟩
    obtain ⟨-, bytes, hstores, -⟩ := hfiles f hf
    exact ⟨bytes, hstores⟩
  refine ⟨folder, hkeeps, fun f hf => ?_⟩
  obtain ⟨-, bytes, hstores, hcontent⟩ := hfiles f hf
  exact ⟨bytes, (bytesAt?_eq_some_iff (hkeeps.locate_target hf) bytes).mpr hstores.file, hcontent⟩

/-! ### Writing files one after another -/

section All

variable {fs : List SourceFile}

/-- So it does when some files are written one after another. -/
theorem Keeps.foldl_store (h : d.Keeps root folder files) (hfs : ∀ f ∈ fs, f ∈ files) :
    (fs.foldl (Disk.store folder) d).Keeps root folder files :=
  List.foldlRecOn (motive := fun d => Keeps d root folder files) fs _ h fun _ hd f hf =>
    hd.store (hfs f hf)

/-- Files that lie below the folder are written without failure, each where it lies, and the
answer names their places. -/
theorem Keeps.writeFiles (h : d.Keeps root folder files) (hfs : ∀ f ∈ fs, f ∈ files) :
    writeFiles root d fs = (.ok (fs.map (target root)), fs.foldl (Disk.store folder) d) := by
  induction fs generalizing d with
  | nil => rfl
  | cons f fs ih =>
      have hf := hfs f List.mem_cons_self
      have hrest := ih (h.store hf) fun g hg => hfs g (List.mem_cons_of_mem f hg)
      rw [Session.writeFiles]
      simp only [h.makeFolders hf, h.write hf, hrest]
      rfl

/-- Nothing changes on the disk but at the places where files are written. -/
theorem at?_foldl_store_of_ne {names : List String}
    (hne : ∀ f ∈ fs, path names ≠ path (seat folder f)) :
    (fs.foldl (Disk.store folder) d).at? names = d.at? names :=
  apply_foldl (g := fun d : Disk => d.at? names) (fun f hf _ => at?_put_of_ne (hne f hf)) d

/-- Every file that is written holds its content in the end, since no two of them have one
path. -/
theorem Keeps.at?_foldl_store (h : d.Keeps root folder files) (hfs : ∀ f ∈ fs, f ∈ files)
    (hdistinct : (fs.map SourceFile.path).Nodup) {f : SourceFile} (hf : f ∈ fs) :
    (fs.foldl (Disk.store folder) d).at? (seat folder f)
      = some (.file (Utf8.encode f.content)) := by
  induction fs generalizing d with
  | nil => cases hf
  | cons g fs ih =>
      rw [List.map_cons, List.nodup_cons] at hdistinct
      have hg := hfs g List.mem_cons_self
      have hrest := fun g' hg' => hfs g' (List.mem_cons_of_mem g hg')
      rw [List.foldl_cons]
      rcases List.mem_cons.mp hf with rfl | hf
      · -- no file behind it is written in its place
        obtain ⟨bytes, hstores⟩ := h.stores f hg
        rw [at?_foldl_store_of_ne, Disk.store, at?_put_self hstores.file]
        intro g' hg' hsame
        obtain ⟨bytes', hstores'⟩ := h.stores g' (hrest g' hg')
        exact hdistinct.1 (path_eq_of_seat hstores hstores' hsame ▸ List.mem_map_of_mem hg')
      · exact ih (h.store hg) hrest hdistinct.2 hf

end All

/-! ### Any save

A save may fail, and it may make folders for files that lay nowhere. All folders that
were there are there after it, and the disk is in order.
-/

section Any

variable (hd : d.InOrder)

include hd

/-- Writing files extends the disk, whether it goes through or fails on the way: the disk
stays sound and keeps all of its folders. -/
theorem extends_writeFiles (hroot : ∀ name ∈ root.names, IsPiece name) (fs : List SourceFile) :
    Extends d (writeFiles root d fs).2 := by
  induction fs generalizing d with
  | nil => exact .refl hd.sound
  | cons f fs ih =>
      have hnames : ∀ name ∈ (target root f).names, IsPiece name := by
        intro name hname
        rcases List.mem_append.mp hname with hname | hname
        · exact hroot name hname
        · exact isPiece_of_mem_namesIn hname
      have hmade := extends_makeFolders (p := (target root f).parent) hd
        fun name hname => hnames name (List.dropLast_subset _ hname)
      rw [Session.writeFiles]
      simp only
      split
      · rename_i hresult
        rw [hresult] at hmade
        exact hmade
      · rename_i hresult
        rw [hresult] at hmade
        split
        · exact hmade
        · rename_i hwritten
          -- the folders are there, so the file is written into one
          have hwrite := hmade.trans (extends_writeBytes (hmade.inOrder hd) hnames hwritten)
          exact hwrite.trans (ih (hwrite.inOrder hd))

/-- Whether a save fails or not, it leaves the disk in order: every entry lies in a folder,
and so does the current one. -/
theorem inOrder_save {s : Session} (hroot : ∀ root ∈ s.root, ∀ name ∈ root.names, IsPiece name) :
    (s.save d).2.2.InOrder := by
  rw [save]
  split
  · exact hd
  · rename_i root hsome
    have hwritten :=
      extends_writeFiles hd (hroot root hsome) (s.files.filter fun f => s.dirty.contains f.path)
    split
    · rename_i hresult
      rw [hresult] at hwritten
      exact hwritten.inOrder hd
    · rename_i hresult
      rw [hresult] at hwritten
      exact hwritten.inOrder hd

end Any

end SchemaAtlas.Disk
