import SchemaAtlas.Analysis
import SchemaAtlas.Disk.Project
import SchemaAtlas.Migration.WriteBack

/-!
# `SchemaAtlas.Session.Basic`: working on a set of files

A session holds a set of files, what they say, and which of them have been changed since they
were loaded or saved. Columns are edited in the files themselves: an edit of a table is written
into the migration that creates it, and then all files are read again. An edit that changes
nothing leaves the session as it is.
-/

set_option autoImplicit false

namespace SchemaAtlas

/-- A set of files, the folder they came from if there is one, the paths of those that have
changed, and what the files say. -/
structure Session where
  files : List SourceFile := []
  root : Option Place := none
  dirty : List String := []
  analysis : Analysis := {}
  deriving DecidableEq, Inhabited

namespace Session

open SchemaAtlas.Migration

/-! ### Sets of files -/

/-- A session on a set of files. -/
def start (files : List SourceFile) (root : Option Place) : Session :=
  { files := files, root := root, analysis := .ofSources files }

/-- The folder that a text names; none if it is empty. -/
def rootOf (text : String) : Option Place :=
  if text = "" then none else some (Place.ofText text)

/-- The table of a name. -/
def table? (s : Session) (name : String) : Option Table :=
  s.analysis.snapshot.tables.get? name

/-- The session with its files read again. -/
def refresh (s : Session) : Session :=
  { s with analysis := .ofSources s.files }

/-- The session with another set of files, taken from a folder. -/
def load (_ : Session) (files : List SourceFile) (root : Option Place) : Session :=
  start files root

/-- The session with files that are yet to be saved. -/
def replaceFiles (s : Session) (files : List SourceFile) : Session :=
  { s with files := files, dirty := (files.map SourceFile.path).eraseDups }.refresh

/-- The session with another set of files, which are not read. -/
def setFiles (s : Session) (files : List SourceFile) : Session :=
  { s with files := files }

/-! ### Saving -/

/-- Where a file is saved. -/
def target (root : Place) (f : SourceFile) : Place :=
  root.below (Place.namesIn f.path)

/-- Writes files one after another; what was made and written stays if a later one fails. -/
def writeFiles (root : Place) (d : Disk) : List SourceFile → Except Failure (List Place) × Disk
  | [] => (.ok [], d)
  | f :: rest =>
    let place := target root f
    match d.makeFolders place.parent with
    | (.error failure, d) => (.error failure, d)
    | (.ok _, d) =>
      match d.write place f.content with
      | .error failure => (.error failure, d)
      | .ok d =>
        let (places, d) := writeFiles root d rest
        (places.map (place :: ·), d)

/-- Writes the changed files below the session's folder. The answer tells where they were
written; with none of the files changed any more, the session is clean. -/
def save (s : Session) (d : Disk) : Except Failure (List Place) × Session × Disk :=
  match s.root with
  | none => (.error .noRoot, s, d)
  | some root =>
    match writeFiles root d (s.files.filter fun f => s.dirty.contains f.path) with
    | (.ok places, d) => (.ok places, { s with dirty := [] }, d)
    | (.error failure, d) => (.error failure, s, d)

/-! ### Edits -/

/-- Holds when a migration creates the table on its way forward. -/
def creates (table : String) (f : SourceFile) : Bool :=
  (blocks f.content).any fun b => b.kind == .create && !b.reverse && b.table == table

/-- The files with their places in the list. -/
def numbered (files : List SourceFile) : List (SourceFile × Nat) :=
  files.zipIdx

/-- The first migration, in order of creation, that creates the table, and its place in the
list. -/
def creator? (s : Session) (table : String) : Option (SourceFile × Nat) :=
  let migrations := (numbered s.files).filter fun f => f.1.kind == .migration
  (migrations.mergeSort fun a b => a.1.notAfter b.1).find? fun f => creates table f.1

/-- The paths with one more. -/
def addPath (path : String) (paths : List String) : List String :=
  if paths.contains path then paths else paths ++ [path]

/-- The session with a table's columns and foreign keys written into the migration that creates
it; none if no migration does or nothing changes. -/
def editTable? (s : Session) (table : String) (columns : List Column) (fks : List ForeignKey) :
    Option Session := do
  let (file, place) ← s.creator? table
  let text := writeBack file.content table columns fks
  if text = file.content then none
  else
    return { s with
      files := s.files.set place (file.withContent text)
      dirty := addPath file.path s.dirty }.refresh

/-- The foreign keys of a table that are on one of these columns. -/
def keptForeignKeys (s : Session) (table : String) (columns : List Column) : List ForeignKey :=
  match s.table? table with
  | some t => t.foreignKeys.filter fun fk => columns.any fun c => c.name == fk.column
  | none => []

/-- The session with a table's columns written anew, together with the foreign keys that are
still on one of them. -/
def editColumns? (s : Session) (table : String) (columns : List Column) : Option Session :=
  s.editTable? table columns (s.keptForeignKeys table columns)

/-- A column that is added to a table. -/
def newColumn (name : String) (type : ColumnType) (nullable : Bool) : Column :=
  { name := name, type := type, isPrimary := type = .id, isForeign := type = .foreignId
    nullable := nullable }

/-- The session with one more column in a table; none if the table is not there or has the
column. -/
def addColumn? (s : Session) (table name : String) (type : ColumnType) (nullable : Bool) :
    Option Session := do
  let t ← s.table? table
  if t.hasColumn name then none
  else s.editColumns? table (t.columns ++ [newColumn name type nullable])

/-- The session without a column of a table; none if it is not there. -/
def dropColumn? (s : Session) (table name : String) : Option Session := do
  let t ← s.table? table
  if t.hasColumn name then s.editColumns? table (t.columns.filter fun c => c.name != name)
    else none

/-- The columns with every one of a name under another. -/
def renamedColumns (old new : String) (columns : List Column) : List Column :=
  columns.map fun c => if c.name = old then { c with name := new } else c

/-- The session with a column of a table under another name; none if it is not there or the name
is taken. -/
def renameColumn? (s : Session) (table old new : String) : Option Session := do
  let t ← s.table? table
  if t.canRename old new then
    s.editTable? table (renamedColumns old new t.columns)
      (Table.moveForeignKeys old new t.foreignKeys)
  else none

end Session

end SchemaAtlas
