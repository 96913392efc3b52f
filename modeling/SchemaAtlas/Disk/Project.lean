import SchemaAtlas.Disk.Basic
import SchemaAtlas.Source.File

/-!
# `SchemaAtlas.Disk.Project`: the source files of a project folder

A project's files are looked for at every depth of its folder, and taken in the order of their
paths, name by name. Only migrations and models are read. Bytes that are no text become
replacement characters, and every line end becomes a line feed. All folders must be within reach
before any file is read.
-/

set_option autoImplicit false

namespace SchemaAtlas.Disk

open SchemaAtlas.Text

/-- The order of paths: name by name, a path before those that go on from it. -/
def pathNotAfter : List String → List String → Bool
  | [], _ => true
  | _ :: _, [] => false
  | a :: as, b :: bs => if a = b then pathNotAfter as bs else a ≤ b

/-- The most folders, each in the one before, that are gone through. -/
def deepestFolder : Nat := 987

/-- What keeps a folder below a root from being gone through, if anything. -/
def folderFault? (root : Place) (names : List String) : Option Failure :=
  if deepestFolder < names.length then some .tooDeep else pathFault? (root.below names)

/-- The entries below a root whose names end as those of source files do, in the order of their
paths. -/
def sourceEntries (root : Place) (found : List (List String × Entry)) :
    Except Failure (List (List String × Entry)) :=
  let folders := found.filter fun e => e.2 == .folder
  match folders.findSome? fun e => folderFault? root e.1 with
  | some fault => .error fault
  | none =>
    .ok ((found.filter fun e => e.1.getLast?.any (endsWith Source.fileEnd)).mergeSort fun a b =>
      pathNotAfter a.1 b.1)

/-- The source file of an entry below a root; none if it is neither migration nor model. -/
def sourceOfEntry (root : Place) (e : List String × Entry) : Except Failure (Option SourceFile) :=
  match Source.classify (path e.1), pathFault? (root.below e.1), e.2 with
  | .other, _, _ => .ok none
  | _, some fault, _ => .error fault
  | _, none, .folder => .error .isFolder
  | kind, none, .file bytes =>
    .ok (some ⟨path e.1, e.1.getLast?.getD "", withLineFeeds (Utf8.decode bytes), kind⟩)

/-- The migrations and models of a project. -/
def project (d : Disk) (root : Place) : Except Failure (List SourceFile) := do
  if ← d.isFolder root then
    let entries ← sourceEntries root (d.below (← d.locate root))
    let found ← entries.mapM (sourceOfEntry root)
    return found.filterMap id
  else .error (.projectMissing root.text)

end SchemaAtlas.Disk
