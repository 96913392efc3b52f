import SchemaAtlas.Text.Ends
import SchemaAtlas.Text.Lines

/-!
# `SchemaAtlas.Source.Path`: paths of source files

A source file goes by its path inside the project. Paths of either kind of slash are understood;
empty parts and parts that are a single dot say nothing and are passed over.
-/

set_option autoImplicit false

namespace SchemaAtlas.Source

open SchemaAtlas.Text

/-- The path with forward slashes only. -/
def forwardSlashes (path : String) : String :=
  String.ofList (path.toList.map fun c => if c = '\\' then '/' else c)

/-- The parts of a path that say something. -/
def pathParts (path : String) : List String :=
  (cut '/' path).filter fun part => part != "" && part != "."

/-- The last part of a path; empty if there is none. -/
def fileName (path : String) : String :=
  ((pathParts (forwardSlashes path)).getLast?).getD ""

/-- A name without its extension. A dot at the very beginning or end of a name starts no
extension. -/
def stem (name : String) : String :=
  match (cutChars '.' name.toList).reverse with
  | extension :: before@(_ :: _) =>
    let front := ['.'].intercalate before.reverse
    if extension.isEmpty || front.isEmpty then name else String.ofList front
  | _ => name

/-- The class that a file holds by convention: its name without the extension. -/
def classNameOfPath (path : String) : String :=
  stem (fileName path)

end SchemaAtlas.Source
