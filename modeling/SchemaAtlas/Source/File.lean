import SchemaAtlas.Source.Path

/-!
# `SchemaAtlas.Source.File`: source files and what they hold

What a file holds is told by its path alone: migrations live under `database/migrations`, models
under `app/Models` or, in older projects, anywhere under `app` except among controllers and
providers. Files of foreign packages, of the build and of the public site are left aside.
-/

set_option autoImplicit false

namespace SchemaAtlas

open SchemaAtlas.Text

/-- What a source file holds. -/
inductive SourceKind
  | migration
  | model
  | other
  deriving DecidableEq, Repr, Inhabited

namespace SourceKind

/-- The word for a kind. -/
def word : SourceKind → String
  | migration => "migration"
  | model => "model"
  | other => "other"

/-- The kind that a word stands for. -/
def ofWord? (word : String) : Option SourceKind :=
  [migration, model, other].find? fun kind => kind.word == word

end SourceKind

/-- A source file. -/
structure SourceFile where
  path : String
  name : String
  content : String
  kind : SourceKind
  deriving DecidableEq, Repr, Inhabited

namespace Source

/-- How the names of source files end. -/
def fileEnd : String := ".php"

/-- Where migrations live. -/
def migrationMarker : String := "database/migrations"

/-- Where models live. -/
def modelMarker : String := "app/Models"

/-- Where models live in older projects. -/
def olderModelMarker : String := "app/"

/-- What else lives there in older projects. -/
def olderModelExcludes : List String := ["Http", "Providers"]

/-- Folders whose files are left aside. -/
def skippedFolders : List String := ["/node_modules/", "/vendor/", "/storage/", "/public/"]

/-- The path with exactly one slash in front and forward slashes throughout. -/
def rooted (path : String) : String :=
  String.ofList ('/' :: (forwardSlashes path).toList.dropWhile fun c => c == '/')

/-- What the file at a path holds. -/
def classify (path : String) : SourceKind :=
  let path := rooted path
  if skippedFolders.any fun folder => contains folder path then .other
  else if !endsWith fileEnd path then .other
  else if contains migrationMarker path then .migration
  else if contains modelMarker path then .model
  else if contains olderModelMarker path && !olderModelExcludes.any fun part =>
    contains part path then
    .model
  else .other

end Source

namespace SourceFile

/-- The file of a path and content; its kind and name come from the path. -/
def make (path content : String) : SourceFile where
  path := path
  name := Source.fileName path
  content := content
  kind := Source.classify path

/-- The same file with other content. -/
def withContent (file : SourceFile) (content : String) : SourceFile :=
  { file with content := content }

/-- The order of creation: migrations are named by the time of their creation, so the order of
names is the order of time; files of one name go by their paths. -/
def notAfter (a b : SourceFile) : Bool :=
  if a.name = b.name then a.path ≤ b.path else a.name ≤ b.name

/-- The files in order of creation. -/
def chronological (files : List SourceFile) : List SourceFile :=
  files.mergeSort notAfter

/-- The files of a kind. -/
def ofKind (kind : SourceKind) (files : List SourceFile) : List SourceFile :=
  files.filter fun file => file.kind == kind

end SourceFile

end SchemaAtlas
