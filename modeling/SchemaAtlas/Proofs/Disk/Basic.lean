import SchemaAtlas.Disk.Basic
import SchemaAtlas.Proofs.Catalog
import SchemaAtlas.Proofs.List
import SchemaAtlas.Proofs.Text.Lines

/-!
# `SchemaAtlas.Proofs.Disk.Basic`: walking and writing on a sound disk

What one step of a walk does, and one step of making folders, is said once
(`walk_cons_eq_ok_iff`, `makeFoldersFrom_cons_cases`). On a sound disk every name is one that an
entry can have, and every entry lies in folders (`Disk.Sound`). There a walk down to an entry
ends at the entry (`walk_of_folders`), and making the folders on the way to it changes nothing
(`makeFoldersFrom_of_walk`). Writing into a file that is there replaces its bytes and leaves the
disk sound and every folder in its place (`Sound.put_file`, `at?_put_of_folder`).
-/

set_option autoImplicit false

namespace SchemaAtlas.Disk

open SchemaAtlas.Text

/-! ### Paths -/

/-- The characters of a path are those of its names with a slash between each two, so that
facts about lists of characters apply. -/
theorem toList_path (names : List String) :
    (path names).toList = ['/'].intercalate (names.map String.toList) :=
  String.toList_intercalate

/-- A path leads along its pieces: cutting it at the slashes and joining the pieces again
gives the path back, also one with empty pieces. -/
theorem path_cut (key : String) : path (cut '/' key) = key := by
  have htoList : (cut '/' key).map String.toList = cutChars '/' key.toList := by
    have hid : String.toList ∘ String.ofList = id := funext fun _ => String.toList_ofList
    rw [cut, List.map_map, hid, List.map_id]
  apply String.toList_injective
  rw [toList_path, htoList, intercalate_cutChars]

/-- Names without slashes are the pieces of their path. No names at all are not: the empty
path has one piece, which is empty. -/
theorem cut_path {names : List String} (hne : names ≠ [])
    (h : ∀ name ∈ names, '/' ∉ name.toList) :
    cut '/' (path names) = names := by
  have hpieces : ∀ piece ∈ names.map String.toList, '/' ∉ piece := List.forall_mem_map.mpr h
  have hback : (names.map String.toList).map String.ofList = names := by
    have hid : String.ofList ∘ String.toList = id := funext fun _ => String.ofList_toList
    rw [List.map_map, hid, List.map_id]
  rw [cut, toList_path, cutChars_intercalate (by simpa using hne) hpieces, hback]

/-- Every path has a first piece, also the empty path, whose only piece is the empty
name. -/
theorem cut_ne_nil (key : String) : cut '/' key ≠ [] := by
  rw [cut, ne_eq, List.map_eq_nil_iff]
  exact cutChars_ne_nil '/' key.toList

variable {d : Disk} {names other : List String}

/-- An entry lies where its path leads: looking for it along the pieces of the path finds
just what is stored under the path. -/
theorem at?_cut (d : Disk) (key : String) : d.at? (cut '/' key) = d.entries.get? key := by
  rw [at?, if_neg (by simpa using cut_ne_nil key), path_cut]

/-- What is found below the top is stored under the path of the names that lead there. -/
theorem mem_names_of_at? {entry : Entry} (hne : names ≠ []) (h : d.at? names = some entry) :
    path names ∈ d.entries.names := by
  rw [at?, if_neg (by simpa using hne)] at h
  exact Catalog.mem_names_of_get? h

/-- The top is no file: it is always a folder, so a file has at least one name. -/
theorem ne_nil_of_at?_file {bytes : List UInt8} (h : d.at? names = some (.file bytes)) :
    names ≠ [] := by
  rintro rfl
  cases h

/-! ### Sound disks -/

/-- Holds of a name that an entry of a folder can have. -/
structure IsEntryName (name : String) : Prop where
  named : name ≠ "" ∧ name ≠ "."
  forth : name ≠ ".."
  short : isLongName name = false

instance (name : String) : Decidable (IsEntryName name) :=
  decidable_of_iff ((name ≠ "" ∧ name ≠ ".") ∧ name ≠ ".." ∧ isLongName name = false)
    ⟨fun ⟨hnamed, hforth, hshort⟩ => ⟨hnamed, hforth, hshort⟩,
      fun h => ⟨h.named, h.forth, h.short⟩⟩

/-- Holds of a disk as a file system keeps it: entries have names, and lie in folders. -/
structure Sound (d : Disk) : Prop where
  names : ∀ key ∈ d.entries.names, ∀ name ∈ cut '/' key, IsEntryName name
  folders : ∀ key ∈ d.entries.names, ∀ n < (cut '/' key).length,
    d.at? ((cut '/' key).take n) = some .folder

instance (d : Disk) : Decidable d.Sound :=
  decidable_of_iff
    ((∀ key ∈ d.entries.names, ∀ name ∈ cut '/' key, IsEntryName name)
      ∧ ∀ key ∈ d.entries.names, ∀ n < (cut '/' key).length,
        d.at? ((cut '/' key).take n) = some .folder)
    ⟨fun ⟨hnames, hfolders⟩ => ⟨hnames, hfolders⟩, fun h => ⟨h.names, h.folders⟩⟩

/-! ### Writing into a file -/

/-- Folders stay if none is written over: a folder that is found before something is put
elsewhere is found afterwards. -/
theorem at?_put_of_folder {entry : Entry} (hnot : d.at? names ≠ some .folder)
    (h : d.at? other = some .folder) :
    (d.put names entry).at? other = some .folder := by
  rw [at?_put, if_neg]
  · exact h
  · rintro ⟨hother, hpath⟩
    have hne : names ≠ [] := by
      rintro rfl
      exact hnot rfl
    have hsame : d.at? other = d.at? names := by
      rw [at?, at?, if_neg (by simpa using hother), if_neg (by simpa using hne), hpath]
    exact hnot (hsame.symm.trans h)

section Put

variable {old bytes : List UInt8} (hfile : d.at? names = some (.file old))

include hfile

/-- A file that was put somewhere is found there, with its bytes, in place of what was there
before. -/
theorem at?_put_self : (d.put names (.file bytes)).at? names = some (.file bytes) := by
  rw [at?_put, if_pos ⟨by simpa using ne_nil_of_at?_file hfile, rfl⟩]

/-- Where a file has been found there is no folder, as there is one entry at most under each
path. -/
theorem ne_folder_of_at?_file : d.at? names ≠ some .folder := by
  rw [hfile]
  simp

/-- A disk stays sound when a file takes the place of another: every entry still has the
folders that lead to it. -/
theorem Sound.put_file (h : d.Sound) : (d.put names (.file bytes)).Sound := by
  have hkeys : (d.put names (.file bytes)).entries.names = d.entries.names := by
    rw [put, Catalog.names_insert, if_pos (mem_names_of_at? (ne_nil_of_at?_file hfile) hfile)]
  constructor
  · rw [hkeys]
    exact h.names
  · rw [hkeys]
    exact fun key hkey n hn =>
      at?_put_of_folder (ne_folder_of_at?_file hfile) (h.folders key hkey n hn)

end Put

/-- What is put somewhere changes nothing at any place that another path leads to. -/
theorem at?_put_of_ne {entry : Entry} (h : path other ≠ path names) :
    (d.put names entry).at? other = d.at? other := by
  rw [at?_put, if_neg fun hsame => h hsame.2]

/-! ### Walking -/

/-- One name further: two dots lead back to the folder before. -/
def further (here : List String) (name : String) : List String :=
  if name = ".." then here.dropLast else here ++ [name]

/-- One step of a walk: out of a folder, by a name that leads back or is not too long. -/
theorem walk_cons_eq_ok_iff {here there : List String} {name : String} :
    d.walk here (name :: names) = .ok there
      ↔ d.at? here = some .folder ∧ (name = ".." ∨ isLongName name = false)
        ∧ d.walk (further here name) names = .ok there := by
  rw [walk, further]
  cases hhere : d.at? here with
  | none => simp
  | some entry =>
      cases entry with
      | file bytes => simp
      | folder =>
          by_cases hback : name = ".."
          · simp [hback]
          · cases hlong : isLongName name with
            | true => simp [hback]
            | false => simp [hback]

/-- One step of making folders: it fails and changes nothing, or goes on in a folder, or a
folder is made where nothing is and it goes on in this one. -/
theorem makeFoldersFrom_cons_cases (d : Disk) (here : List String) (made : Bool) (name : String)
    (names : List String) :
    (∃ failure, d.makeFoldersFrom here made (name :: names) = (.error failure, d))
      ∨ ((name = ".." ∨ isLongName name = false ∧ d.at? (further here name) = some .folder)
        ∧ d.makeFoldersFrom here made (name :: names)
          = d.makeFoldersFrom (further here name) made names)
      ∨ (name ≠ ".." ∧ isLongName name = false ∧ d.at? (here ++ [name]) = none
        ∧ d.makeFoldersFrom here made (name :: names)
          = (d.put (here ++ [name]) .folder).makeFoldersFrom (here ++ [name]) true names) := by
  rw [makeFoldersFrom, further]
  by_cases hback : name = ".."
  · rw [if_pos hback, if_pos hback]
    exact .inr (.inl ⟨.inl hback, rfl⟩)
  · rw [if_neg hback, if_neg hback]
    -- a name that does not lead back up is checked, looked up, and made if nothing is there
    cases hlong : isLongName name with
    | true => exact .inl ⟨.nameTooLong, rfl⟩
    | false =>
        rw [if_neg Bool.false_ne_true]
        cases hthere : d.at? (here ++ [name]) with
        | none =>
            simp only [hthere]
            split
            · exact .inl ⟨.tooDeep, rfl⟩
            · exact .inr (.inr ⟨hback, trivial, trivial, rfl⟩)
        | some entry =>
            simp only [hthere]
            cases entry with
            | file bytes => exact .inl ⟨_, rfl⟩
            | folder => exact .inr (.inl ⟨.inr ⟨trivial, rfl⟩, rfl⟩)

/-- A walk goes on from where its first part ends: names in two parts are walked through one
part after the other, and a failure of the first is one of the whole. -/
theorem walk_append (d : Disk) (here front back : List String) :
    d.walk here (front ++ back) = (d.walk here front).bind fun there => d.walk there back := by
  induction front generalizing here with
  | nil => rfl
  | cons name front ih =>
      rw [List.cons_append, walk, walk]
      cases d.at? here with
      | none => rfl
      | some entry =>
          cases entry with
          | file bytes => rfl
          | folder =>
              simp only [ih]
              split
              · rfl
              · split
                · rfl
                · rfl

/-- A walk down through folders ends where its names lead. The last name need not be one of
a folder, or of anything. -/
theorem walk_of_folders {here down : List String} (hnames : ∀ name ∈ down, IsEntryName name)
    (hfolders : ∀ front, front <+: down → front ≠ down → d.at? (here ++ front) = some .folder) :
    d.walk here down = .ok (here ++ down) := by
  induction down generalizing here with
  | nil => rw [walk, List.append_nil]
  | cons name down ih =>
      have hname := hnames name List.mem_cons_self
      have hhere := hfolders [] (List.nil_prefix) (List.cons_ne_nil name down).symm
      rw [List.append_nil] at hhere
      rw [walk, hhere]
      simp only [if_neg hname.forth, hname.short, Bool.false_eq_true, if_false]
      rw [ih (fun n hn => hnames n (List.mem_cons_of_mem name hn)) fun front hfront hne => ?_,
        List.append_assoc, List.singleton_append]
      rw [List.append_assoc, List.singleton_append]
      exact hfolders (name :: front) (List.cons_prefix_cons.mpr ⟨rfl, hfront⟩) fun heq =>
        hne (List.cons.inj heq).2

/-- A walk asks for folders only, so it ends in the same place on a disk that has them. -/
theorem walk_of_forall_folder {d' : Disk}
    (h : ∀ n, d.at? n = some .folder → d'.at? n = some .folder)
    {here there : List String} (hwalk : d.walk here names = .ok there) :
    d'.walk here names = .ok there := by
  induction names generalizing here with
  | nil => exact hwalk
  | cons name names ih =>
      obtain ⟨hfolder, hshort, hrest⟩ := walk_cons_eq_ok_iff.mp hwalk
      exact walk_cons_eq_ok_iff.mpr ⟨h here hfolder, hshort, ih hrest⟩

/-- A walk to a folder starts at one, since each step goes down from a folder or back to
one. -/
theorem at?_of_walk {here there : List String} (hwalk : d.walk here names = .ok there)
    (hthere : d.at? there = some .folder) : d.at? here = some .folder := by
  cases names with
  | nil =>
      obtain rfl := Except.ok.inj hwalk
      exact hthere
  | cons name names => exact (walk_cons_eq_ok_iff.mp hwalk).1

/-- Where a walk leads to a folder, no folder on the way has to be made. -/
theorem makeFoldersFrom_of_walk {here there : List String} (hwalk : d.walk here names = .ok there)
    (hthere : d.at? there = some .folder) (made : Bool) :
    d.makeFoldersFrom here made names = (.ok (), d) := by
  -- both go the same way; making a folder differs from walking only where none is there
  induction names generalizing here with
  | nil => rfl
  | cons name names ih =>
      obtain ⟨-, hshort, hrest⟩ := walk_cons_eq_ok_iff.mp hwalk
      have hnext := at?_of_walk hrest hthere
      rw [← ih hrest, makeFoldersFrom]
      by_cases hback : name = ".."
      · rw [if_pos hback, further, if_pos hback]
      · rw [further, if_neg hback] at hnext ⊢
        rw [if_neg hback, hshort.resolve_left hback]
        simp only [hnext, Bool.false_eq_true, if_false]

/-! ### Places -/

/-- A place that is found has been walked to, from where its path starts and along its
names. -/
theorem walk_of_locate {p : Place} (h : d.locate p = .ok names) :
    d.walk (d.startOf p) p.names = .ok names := by
  rw [locate] at h
  split at h
  · cases h
  · exact h

/-- A file is written at a place that is found and is no folder. The disk afterwards differs
from the one before in this file alone. -/
theorem of_writeBytes {d' : Disk} {p : Place} {bytes : List UInt8}
    (h : d.writeBytes p bytes = .ok d') :
    ∃ there, d.walk (d.startOf p) p.names = .ok there ∧ d.at? there ≠ some .folder
      ∧ d' = d.put there (.file bytes) := by
  rw [writeBytes] at h
  obtain ⟨there, hlocated, h⟩ := exists_of_bind_eq_ok h
  split at h
  · cases h
  · rename_i hnot
    exact ⟨there, walk_of_locate hlocated, hnot, (Except.ok.inj h).symm⟩

/-- The bytes of the file at a place; none if no file is there. -/
def bytesAt? (d : Disk) (p : Place) : Option (List UInt8) :=
  match d.locate p with
  | .error _ => none
  | .ok names =>
    match d.at? names with
    | some (.file bytes) => some bytes
    | _ => none

/-- The bytes at a place that is found are those of the file there; with a folder or nothing
in this place there are none. -/
theorem bytesAt?_eq_some_iff {p : Place} (h : d.locate p = .ok names) (bytes : List UInt8) :
    d.bytesAt? p = some bytes ↔ d.at? names = some (.file bytes) := by
  rw [bytesAt?, h]
  cases hentry : d.at? names with
  | none => simp [hentry]
  | some entry => cases entry <;> simp [hentry]

/-- A path without its last name is a beginning of it, so whatever bounds the length of a
path bounds that of its folder. -/
theorem exists_path_eq_append (names : List String) :
    ∃ rest, path names = path names.dropLast ++ rest := by
  induction names with
  | nil => exact ⟨"", rfl⟩
  | cons name names ih =>
      cases names with
      | nil => exact ⟨path [name], by rw [List.dropLast_singleton]; rfl⟩
      | cons next rest =>
          obtain ⟨tail, htail⟩ := ih
          rw [List.dropLast_cons_cons]
          cases hfront : (next :: rest).dropLast with
          | nil =>
              refine ⟨"/" ++ path (next :: rest), ?_⟩
              rw [path, String.intercalate_cons_cons, String.append_assoc]
              rfl
          | cons first front =>
              refine ⟨tail, ?_⟩
              rw [hfront] at htail
              rw [path, path, String.intercalate_cons_cons, String.intercalate_cons_cons, ← path,
                ← path, htail, ← String.append_assoc]

/-- A folder's text is no longer than that of what lies in it, unless it is a single dot. -/
theorem utf8ByteSize_text_parent (p : Place) :
    p.parent.text.utf8ByteSize ≤ max 1 p.text.utf8ByteSize := by
  have hparent : p.parent.text
      = if p.root = "" ∧ p.names.dropLast = [] then "."
        else p.root ++ path p.names.dropLast := rfl
  have htext : p.text = if p.root = "" ∧ p.names = [] then "." else p.root ++ path p.names := rfl
  rw [hparent]
  split
  · exact Nat.le_max_left 1 _
  · rename_i hparent
    obtain ⟨rest, hrest⟩ := exists_path_eq_append p.names
    rw [htext, if_neg fun hempty => hparent ⟨hempty.1, by rw [hempty.2]; rfl⟩, hrest,
      String.utf8ByteSize_append, String.utf8ByteSize_append, String.utf8ByteSize_append]
    omega

/-- What can be looked for lies in a folder that can be looked for: the path of the folder
is no longer and has no other names. -/
theorem pathFault?_parent {p : Place} (h : pathFault? p = none) : pathFault? p.parent = none := by
  rw [pathFault?] at h
  split at h
  · cases h
  · rename_i hnull
    split at h
    · cases h
    · rename_i hlong
      have hnames : ¬(p.parent.names.any fun name => name.toList.contains '\x00') = true := by
        intro hany
        obtain ⟨name, hname, hnul⟩ := List.any_eq_true.mp hany
        exact hnull (List.any_eq_true.mpr ⟨name, List.dropLast_subset _ hname, hnul⟩)
      have htext := utf8ByteSize_text_parent p
      have hlongest : longestPath = 4095 := rfl
      rw [pathFault?, if_neg hnames, if_neg (by omega)]

end SchemaAtlas.Disk
