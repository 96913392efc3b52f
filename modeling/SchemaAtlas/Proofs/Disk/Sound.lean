import SchemaAtlas.Proofs.Disk.Basic

/-!
# `SchemaAtlas.Proofs.Disk.Sound`: disks stay sound

A walk starts in a folder (`Disk.Standing`) and goes on in folders, so it ends in one or
right below one (`Within.of_walk`). There a file can be put, or a folder, and the disk is
as sound as before (`Sound.put_below`). So a disk stays sound when folders are made
(`extends_makeFolders`) and files are written (`extends_writeBytes`), and one that is
built of files is sound from the start (`inOrder_ofFiles`).
-/

set_option autoImplicit false

namespace SchemaAtlas.Disk

open SchemaAtlas.Text

/-- Holds of the names that a place is made of. -/
def IsPiece (name : String) : Prop :=
  name ≠ "" ∧ name ≠ "." ∧ '/' ∉ name.toList

/-- Holds of names that lead to an entry. -/
def IsTrail (names : List String) : Prop :=
  ∀ name ∈ names, IsEntryName name ∧ '/' ∉ name.toList

/-- Holds of a folder of the disk. -/
structure Standing (d : Disk) (here : List String) : Prop where
  trail : IsTrail here
  isFolder : d.at? here = some .folder

/-- Holds of a folder of the disk, and of what lies in one. -/
structure Within (d : Disk) (there : List String) : Prop where
  trail : IsTrail there
  parent : Standing d there.dropLast

/-- Holds of a sound disk with a current folder. -/
structure InOrder (d : Disk) : Prop where
  sound : d.Sound
  here : Standing d d.here

variable {d d' : Disk} {here there names : List String} {name : String}

/-! ### Names -/

/-- The names that a text is cut into are pieces: none of them is empty, a single dot, or
has a slash in it. -/
theorem isPiece_of_mem_namesIn {text : String} (h : name ∈ Place.namesIn text) :
    IsPiece name := by
  obtain ⟨hcut, hnamed⟩ := List.mem_filter.mp h
  simp only [Bool.and_eq_true, bne_iff_ne, ne_eq] at hnamed
  exact ⟨hnamed.1, hnamed.2, notMem_of_mem_cut hcut⟩

/-- A piece that does not lead back and is not too long is the name of an entry. -/
theorem IsPiece.isEntryName (h : IsPiece name) (hforth : name ≠ "..")
    (hshort : isLongName name = false) :
    IsEntryName name ∧ '/' ∉ name.toList :=
  ⟨⟨⟨h.1, h.2.1⟩, hforth, hshort⟩, h.2.2⟩

/-- A trail goes on with the name of an entry, and is a trail as long as each name in it is
one. -/
theorem IsTrail.concat (h : IsTrail here) (hname : IsEntryName name ∧ '/' ∉ name.toList) :
    IsTrail (here ++ [name]) := by
  intro n hn
  rcases List.mem_append.mp hn with hn | hn
  · exact h n hn
  · rw [List.mem_singleton.mp hn]
    exact hname

/-- The names of a trail are the pieces of its path, so the trail can be read off the path
again. -/
theorem IsTrail.cut_path (h : IsTrail names) (hne : names ≠ []) : cut '/' (path names) = names :=
  Disk.cut_path hne fun name hname => (h name hname).2

/-! ### Standing in folders -/

/-- One can stand at the top of every disk, whatever lies on it. -/
theorem standing_nil (d : Disk) : Standing d [] :=
  ⟨fun _ h => absurd h List.not_mem_nil, rfl⟩

/-- The way to a folder leads through folders: one can stand at each place that is passed on
the way down. -/
theorem Standing.take (hd : d.Sound) (h : Standing d here) (n : Nat) :
    Standing d (here.take n) := by
  refine ⟨fun name hname => h.trail name (List.mem_of_mem_take hname), ?_⟩
  by_cases hn : n < here.length
  · have hne : here ≠ [] := by
      rintro rfl
      exact absurd hn (Nat.not_lt_zero n)
    have hcut := h.trail.cut_path hne
    have hfolder := hd.folders _ (mem_names_of_at? hne h.isFolder) n (hcut.symm ▸ hn)
    rwa [hcut] at hfolder
  · rw [List.take_of_length_le (Nat.le_of_not_lt hn)]
    exact h.isFolder

/-- The folder that a folder lies in can be stood in, and at the top one stays where one
is. -/
theorem Standing.dropLast (hd : d.Sound) (h : Standing d here) : Standing d here.dropLast := by
  rw [List.dropLast_eq_take]
  exact h.take hd _

/-- Where one can stand is within folders: the folder that it lies in can be stood in
too. -/
theorem Standing.within (hd : d.Sound) (h : Standing d here) : Within d here :=
  ⟨h.trail, h.dropLast hd⟩

/-- What goes by the name of an entry, right below a folder, is within folders, whether
something is there or not. -/
theorem Standing.within_concat (h : Standing d here)
    (hname : IsEntryName name ∧ '/' ∉ name.toList) :
    Within d (here ++ [name]) :=
  ⟨h.trail.concat hname, by rw [List.dropLast_concat]; exact h⟩

/-- One name further than a folder is a folder, or right below one. Two dots lead back, and
every other piece leads down. -/
theorem Standing.within_further (hd : d.Sound) (h : Standing d here) (hname : IsPiece name)
    (hshort : name = ".." ∨ isLongName name = false) : Within d (further here name) := by
  rw [further]
  split
  · exact (h.dropLast hd).within hd
  · rename_i hforth
    exact h.within_concat (hname.isEntryName hforth (hshort.resolve_left hforth))

/-- A walk from within folders ends within folders, as each of its steps but the last goes
on from a folder. -/
theorem Within.of_walk (hd : d.Sound) (h : Within d here) (hnames : ∀ name ∈ names, IsPiece name)
    (hwalk : d.walk here names = .ok there) : Within d there := by
  induction names generalizing here with
  | nil =>
      obtain rfl := Except.ok.inj hwalk
      exact h
  | cons name names ih =>
      -- only a folder is walked on from
      obtain ⟨hfolder, hshort, hrest⟩ := walk_cons_eq_ok_iff.mp hwalk
      have hhere : Standing d here := ⟨h.trail, hfolder⟩
      exact ih (hhere.within_further hd (hnames name List.mem_cons_self) hshort)
        (fun n hn => hnames n (List.mem_cons_of_mem name hn)) hrest

/-! ### Putting an entry into a folder -/

/-- A disk is as sound with one more entry in a folder, or with another in the place of a file. -/
theorem Sound.put_below (hd : d.Sound) (h : Within d there) (hnot : d.at? there ≠ some .folder)
    (entry : Entry) :
    (d.put there entry).Sound := by
  have hne : there ≠ [] := by
    rintro rfl
    exact hnot rfl
  have hkey : ∀ key ∈ (d.put there entry).entries.names, key = path there
      ∨ key ∈ d.entries.names := by
    intro key hkey
    rw [put, Catalog.names_insert] at hkey
    split at hkey
    · exact .inr hkey
    · exact (List.mem_append.mp hkey).symm.imp_left List.mem_singleton.mp
  constructor
  · intro key hk name hname
    rcases hkey key hk with rfl | hk
    · rw [h.trail.cut_path hne] at hname
      exact (h.trail name hname).1
    · exact hd.names key hk name hname
  · -- no folder is written over, so only the folders on the way to the new entry matter
    intro key hk n hn
    refine at?_put_of_folder hnot ?_
    rcases hkey key hk with rfl | hk
    · rw [h.trail.cut_path hne] at hn ⊢
      have htake : there.take n = there.dropLast.take n := by
        rw [List.dropLast_eq_take, List.take_take, Nat.min_eq_left (by omega)]
      rw [htake]
      exact (h.parent.take hd n).isFolder
    · exact hd.folders key hk n hn

/-! ### What is done to a disk -/

/-- Holds of a disk and of what it has become: sound still, with all of its folders. -/
structure Extends (d d' : Disk) : Prop where
  sound : d'.Sound
  folders : ∀ names, d.at? names = some .folder → d'.at? names = some .folder
  here_eq : d'.here = d.here

/-- A sound disk extends itself: all of its folders are still there. -/
theorem Extends.refl (hd : d.Sound) : Extends d d :=
  ⟨hd, fun _ h => h, rfl⟩

/-- What extends an extension of a disk extends the disk, so a run of changes can be taken
one by one. -/
theorem Extends.trans {d'' : Disk} (h : Extends d d') (h' : Extends d' d'') : Extends d d'' :=
  ⟨h'.sound, fun names hnames => h'.folders names (h.folders names hnames),
    h'.here_eq.trans h.here_eq⟩

/-- Where one can stand on a disk, one can stand on every disk that extends it. -/
theorem Extends.standing (h : Extends d d') (hhere : Standing d here) : Standing d' here :=
  ⟨hhere.trail, h.folders here hhere.isFolder⟩

/-- A disk in order stays in order when it is extended, since the current folder is still
there. -/
theorem Extends.inOrder (h : Extends d d') (hd : d.InOrder) : d'.InOrder :=
  ⟨h.sound, by rw [h.here_eq]; exact h.standing hd.here⟩

/-- An entry put within folders, and not in place of a folder, extends the disk: every
folder stays and leads where it led. -/
theorem extends_put (hd : d.Sound) (h : Within d there) (hnot : d.at? there ≠ some .folder)
    (entry : Entry) :
    Extends d (d.put there entry) :=
  ⟨hd.put_below h hnot entry, fun _ => at?_put_of_folder hnot, rfl⟩

/-- A walk to a place starts in a folder, which is the top for an absolute path and the
current folder for any other. -/
theorem InOrder.startOf (hd : d.InOrder) (p : Place) : Standing d (d.startOf p) := by
  rw [Disk.startOf]
  split
  · exact hd.here
  · exact standing_nil d

/-- Folders are made in folders, one below the other, so making them extends the disk, also
when it stops at a failure. -/
theorem extends_makeFoldersFrom (hd : d.Sound) (hhere : Standing d here)
    (hnames : ∀ name ∈ names, IsPiece name)
    (made : Bool) : Extends d (d.makeFoldersFrom here made names).2 := by
  induction names generalizing d here made with
  | nil => exact .refl hd
  | cons name names ih =>
      have hname := hnames name List.mem_cons_self
      have hrest := fun n hn => hnames n (List.mem_cons_of_mem name hn)
      rcases makeFoldersFrom_cons_cases d here made name names with
        ⟨failure, hfails⟩ | ⟨hwhere, hgoes⟩ | ⟨hforth, hshort, hnone, hmakes⟩
      · rw [hfails]
        exact .refl hd
      · rw [hgoes]
        refine ih hd ?_ hrest made
        rcases hwhere with hback | ⟨hshort, hfolder⟩
        · rw [further, if_pos hback]
          exact hhere.dropLast hd
        · exact ⟨(hhere.within_further hd hname (.inr hshort)).trail, hfolder⟩
      · -- the folder is made, and the next one in it
        rw [hmakes]
        have hwithin := hhere.within_concat (hname.isEntryName hforth hshort)
        have hnot : d.at? (here ++ [name]) ≠ some .folder := by
          rw [hnone]
          simp
        have hput := extends_put hd hwithin hnot .folder
        have hfolder : (d.put (here ++ [name]) .folder).at? (here ++ [name]) = some .folder := by
          rw [at?_put, if_pos ⟨by simp, rfl⟩]
        exact hput.trans (ih hput.sound ⟨hwithin.trail, hfolder⟩ hrest true)

variable {p : Place}

/-- Making the folders of a place extends a disk in order, whether all of them can be made
or not. -/
theorem extends_makeFolders (hd : d.InOrder) (hnames : ∀ name ∈ p.names, IsPiece name) :
    Extends d (d.makeFolders p).2 := by
  rw [makeFolders]
  split
  · exact .refl hd.sound
  · exact extends_makeFoldersFrom hd.sound (hd.startOf p) hnames false

/-- A file is written into a folder that is there, so writing it extends a disk in order. -/
theorem extends_writeBytes (hd : d.InOrder) (hnames : ∀ name ∈ p.names, IsPiece name)
    {bytes : List UInt8}
    (h : d.writeBytes p bytes = .ok d') : Extends d d' := by
  obtain ⟨there, hwalk, hnot, rfl⟩ := of_writeBytes h
  exact extends_put hd.sound (((hd.startOf p).within hd.sound).of_walk hd.sound hnames hwalk)
    hnot _

/-! ### Disks that are built -/

/-- The empty disk is in order: it has no entries, and one stands at its top. -/
theorem inOrder_empty : ({} : Disk).InOrder :=
  ⟨⟨fun _ h => absurd h List.not_mem_nil, fun _ h => absurd h List.not_mem_nil⟩, standing_nil _⟩

/-- A folder of a sound disk can be the current one, and the disk is in order with it. -/
theorem InOrder.at_folder (hd : d.Sound) (h : Standing d here) :
    ({ d with here := here } : Disk).InOrder :=
  ⟨⟨hd.names, hd.folders⟩, ⟨h.trail, h.isFolder⟩⟩

/-- The names that a place is made of come from cutting a text, and so each of them is a
piece. -/
theorem names_ofText (text : String) : ∀ name ∈ (Place.ofText text).names, IsPiece name :=
  fun _ => isPiece_of_mem_namesIn

/-- A disk in order stays in order when a file is planted on it together with the folders
that lead to it. -/
theorem InOrder.plant (hd : d.InOrder) (hnames : ∀ name ∈ p.names, IsPiece name)
    (bytes : List UInt8) :
    (d.plant p bytes).InOrder := by
  have hfolders := (extends_makeFolders (p := p.parent) hd
    fun name hname => hnames name (List.dropLast_subset _ hname)).inOrder hd
  show (((d.makeFolders p.parent).2.writeBytes p bytes).toOption.getD
    (d.makeFolders p.parent).2).InOrder
  cases hwritten : (d.makeFolders p.parent).2.writeBytes p bytes with
  | error failure => exact hfolders
  | ok d' => exact (extends_writeBytes hfolders hnames hwritten).inOrder hfolders

/-- When folders could be made along names that do not lead back, the last of them is there. -/
theorem isFolder_makeFoldersFrom {made : Bool} (hhere : d.at? here = some .folder)
    (hforth : ∀ name ∈ names, name ≠ "..") (h : (d.makeFoldersFrom here made names).1 = .ok ()) :
    (d.makeFoldersFrom here made names).2.at? (here ++ names) = some .folder := by
  induction names generalizing d here made with
  | nil =>
      rw [List.append_nil]
      exact hhere
  | cons name names ih =>
      have hforward := hforth name List.mem_cons_self
      have hrest := fun n hn => hforth n (List.mem_cons_of_mem name hn)
      rw [List.append_cons]
      rcases makeFoldersFrom_cons_cases d here made name names with
        ⟨failure, hfails⟩ | ⟨hwhere, hgoes⟩ | ⟨-, -, -, hmakes⟩
      · rw [hfails] at h
        cases h
      · obtain ⟨-, hfolder⟩ := hwhere.resolve_left hforward
        rw [further, if_neg hforward] at hgoes hfolder
        rw [hgoes] at h ⊢
        exact ih hfolder hrest h
      · rw [hmakes] at h ⊢
        refine ih ?_ hrest h
        rw [at?_put, if_pos ⟨by simp, rfl⟩]

/-- A disk that is built of files is in order if its current folder can be made. -/
theorem inOrder_ofFiles {files : List (String × List UInt8)} (hhere : IsTrail here)
    (hmade : (makeFolders {} ⟨"/", here⟩).1 = .ok ()) : (ofFiles here files).InOrder := by
  have hpieces : ∀ name ∈ here, IsPiece name := fun name hname =>
    ⟨(hhere name hname).1.named.1, (hhere name hname).1.named.2, (hhere name hname).2⟩
  have hsound := (extends_makeFolders (p := ⟨"/", here⟩) inOrder_empty hpieces).sound
  have hfolder : (makeFolders {} ⟨"/", here⟩).2.at? here = some .folder := by
    rw [makeFolders] at hmade ⊢
    split at hmade
    · cases hmade
    · have htop : ({} : Disk).at? [] = some .folder := rfl
      exact isFolder_makeFoldersFrom htop (fun name hname => (hhere name hname).1.forth) hmade
  have hstart := InOrder.at_folder hsound ⟨hhere, hfolder⟩
  rw [ofFiles]
  generalize ({ (makeFolders {} ⟨"/", here⟩).2 with here := here } : Disk) = d at hstart
  show (files.foldl _ d).InOrder
  clear hmade hsound hfolder
  induction files generalizing d with
  | nil => exact hstart
  | cons f files ih => exact ih _ (hstart.plant (names_ofText f.1) f.2)

end SchemaAtlas.Disk
