import SchemaAtlas.Catalog
import SchemaAtlas.Disk.Place
import SchemaAtlas.Failure
import SchemaAtlas.Text.Utf8

/-!
# `SchemaAtlas.Disk.Basic`: files and folders

A disk holds files and folders, each under the path that leads to it from the top, and one of
the folders is the current one. Looking for a place walks along its names, from the current
folder or from the top; up to the last they must lead to folders, and two dots walk back.
Folders are made one after another: those made before one that cannot be made are kept.
-/

set_option autoImplicit false

namespace SchemaAtlas

/-- What lies under a path. -/
inductive Entry
  | file (bytes : List UInt8)
  | folder
  deriving DecidableEq, Repr, Inhabited

/-- The current folder, by the names that lead to it from the top, and files and folders by
their paths from the top. -/
structure Disk where
  here : List String := []
  entries : Catalog Entry := .empty
  deriving DecidableEq, Inhabited

namespace Disk

open SchemaAtlas.Text

/-! ### Entries -/

/-- The path that names make up. -/
def path (names : List String) : String :=
  "/".intercalate names

/-- What lies at the end of some names; the top, at the end of none, is a folder. -/
def at? (d : Disk) (names : List String) : Option Entry :=
  if names.isEmpty then some .folder else d.entries.get? (path names)

/-- The disk with an entry under some names. -/
def put (d : Disk) (names : List String) (entry : Entry) : Disk :=
  { d with entries := d.entries.insert (path names) entry }

/-- The entry that was put is found under its path, and all others as before. -/
theorem at?_put (d : Disk) (names other : List String) (entry : Entry) :
    (d.put names entry).at? other =
      if ¬other.isEmpty ∧ path other = path names then some entry else d.at? other := by
  unfold at? put
  by_cases h : other.isEmpty
  · simp [h]
  · simp only [h, Catalog.get?_insert]
    split <;> simp_all

/-- The entries below a folder: the names that lead there from the folder, and the entry. -/
def below (d : Disk) (folder : List String) : List (List String × Entry) :=
  d.entries.entries.filterMap fun e =>
    let names := cut '/' e.1
    if folder.isPrefixOf names && folder.length < names.length then
      some (names.drop folder.length, e.2)
    else none

/-- The files below the current folder: path and bytes. -/
def files (d : Disk) : List (String × List UInt8) :=
  (d.below d.here).filterMap fun e =>
    match e.2 with
    | .file bytes => some (path e.1, bytes)
    | .folder => none

/-- The entries that another disk lacks or has otherwise. -/
def changesSince (d before : Disk) : List (String × Entry) :=
  d.entries.entries.filter fun e => before.entries.get? e.1 != some e.2

/-! ### Walking -/

/-- The longest name, in bytes, that a file or folder can have. -/
def longestName : Nat := 255

/-- The longest path, in bytes, that leads anywhere. -/
def longestPath : Nat := 4095

/-- Holds of a name that no file or folder can have. -/
def isLongName (name : String) : Bool :=
  longestName < name.utf8ByteSize

/-- Where a walk along names from a folder ends. The last name need not lead to anything. -/
def walk (d : Disk) (here : List String) : List String → Except Failure (List String)
  | [] => .ok here
  | name :: rest =>
    match d.at? here with
    | none => .error .folderMissing
    | some (.file _) => .error .notFolder
    | some .folder =>
      if name = ".." then d.walk here.dropLast rest
      else if isLongName name then .error .nameTooLong
      else d.walk (here ++ [name]) rest

/-- Where the walk to a place starts: at the current folder, or at the top. -/
def startOf (d : Disk) (p : Place) : List String :=
  if p.root = "" then d.here else []

/-- What keeps a place from being looked for at all: a null character, or a path that is too
long. -/
def pathFault? (p : Place) : Option Failure :=
  if p.names.any fun name => name.toList.contains '\x00' then some .nullInPath
  else if longestPath < p.text.utf8ByteSize then some .nameTooLong
  else none

/-- Where a place is, as names from the top. -/
def locate (d : Disk) (p : Place) : Except Failure (List String) :=
  match pathFault? p with
  | some fault => .error fault
  | none => d.walk (d.startOf p) p.names

/-- Holds when the place is a folder. A place that cannot be reached is none; a name or path
that is too long is a failure of its own. -/
def isFolder (d : Disk) (p : Place) : Except Failure Bool :=
  match d.locate p with
  | .ok names => .ok (d.at? names == some .folder)
  | .error .nameTooLong => .error .nameTooLong
  | .error _ => .ok false

/-! ### Writing -/

/-- The disk with a file at a place, in the place of another file if there was one. The folder
that it lies in must be there. -/
def writeBytes (d : Disk) (p : Place) (bytes : List UInt8) : Except Failure Disk := do
  let names ← d.locate p
  if d.at? names = some .folder then .error .isFolder
  else return d.put names (.file bytes)

/-- The disk with a text in a file at a place. -/
def write (d : Disk) (p : Place) (content : String) : Except Failure Disk :=
  d.writeBytes p (Utf8.encode content)

/-- The most folders that are made at once, each in the one before. -/
def mostNewFolders : Nat := 989

/-- The disk with folders along some names from a folder, and whether all of them are there;
`made` tells that some were made already. -/
def makeFoldersFrom (d : Disk) (here : List String) (made : Bool) :
    List String → Except Failure Unit × Disk
  | [] => (.ok (), d)
  | name :: rest =>
    if name = ".." then d.makeFoldersFrom here.dropLast made rest
    else if isLongName name then (.error .nameTooLong, d)
    else
      let names := here ++ [name]
      match d.at? names with
      | some .folder => d.makeFoldersFrom names made rest
      | some (.file _) => (.error (if made || rest.isEmpty then .fileInTheWay else .notFolder), d)
      | none =>
        if !made && mostNewFolders ≤ rest.length then (.error .tooDeep, d)
        else (d.put names .folder).makeFoldersFrom names true rest

/-- The disk with a folder at a place and with all folders on the way to it, as far as they can
be made, and whether all of them are there. -/
def makeFolders (d : Disk) (p : Place) : Except Failure Unit × Disk :=
  match pathFault? p with
  | some fault => (.error fault, d)
  | none => d.makeFoldersFrom (d.startOf p) false p.names

/-! ### Building -/

/-- The disk with one more file, and with the folders that it lies in. -/
def plant (d : Disk) (p : Place) (bytes : List UInt8) : Disk :=
  let d := (d.makeFolders p.parent).2
  (d.writeBytes p bytes).toOption.getD d

/-- The disk whose current folder is `here` and holds some files, each given by its path. -/
def ofFiles (here : List String) (files : List (String × List UInt8)) : Disk :=
  let d := (makeFolders {} ⟨"/", here⟩).2
  files.foldl (fun d f => d.plant (Place.ofText f.1) f.2) { d with here := here }

end Disk

end SchemaAtlas
