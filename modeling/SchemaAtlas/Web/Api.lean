import SchemaAtlas.Disk.Project
import SchemaAtlas.Web.Address
import SchemaAtlas.Web.Page

/-!
# `SchemaAtlas.Web.Api`: answers to the page

The page asks for the analysis of a project or for one of its exports. Every answer is an
object; an answer that is not what was asked for says why.
-/

set_option autoImplicit false

namespace SchemaAtlas

/-- An analysis as data. -/
def Analysis.json (a : Analysis) : Json := .object
  [("schema", a.snapshot.json), ("edges", .array (a.edges.map Edge.json)),
    ("orphan_tables", Json.strings a.snapshot.orphanTables),
    ("orphan_models", Json.strings a.snapshot.orphanModels),
    ("stats", .object
      [("migrations", .int a.migrationCount), ("models", .int a.modelCount),
        ("tables", .int a.tableCount), ("relations", .int a.relationCount)])]

namespace Web

/-- An answer: its status and what it says. -/
structure Answer where
  status : Nat
  content : Json

/-- An answer that says only what is wrong. -/
def refusal (status : Nat) (reason : String) : Answer :=
  ⟨status, .object [("error", .string reason)]⟩

/-- Where analyses are asked for. -/
def analyzePath : String := "/api/analyze"

/-- Where exports are asked for. -/
def exportPath : String := "/api/export"

/-- The export that is given when none is named. -/
def usualMode : String := "sql"

/-- The answer to a request for an export. -/
def exportAnswer (now : Moment) (a : Analysis) (mode : String) : Except Failure Answer :=
  match Export.byName now a mode with
  | .ok content => .ok ⟨200, .object [("mode", .string mode), ("content", .string content)]⟩
  | .error (.unknownMode name) =>
    .ok ⟨400, .object
      [("error", .string (Failure.unknownMode name).message),
        ("modes", Json.strings exportNames)]⟩
  | .error f => .error f

/-- The answer to a request, given by its address. -/
def answer (now : Moment) (d : Disk) (request : String) : Except Failure Answer := do
  let address ← Address.ofText request
  let fields := queryFields address.query
  if address.path ≠ analyzePath ∧ address.path ≠ exportPath then
    return refusal 404 ("Unknown endpoint: " ++ address.path)
  else match fieldValue? "path" fields with
    | none => return refusal 400 "Missing 'path' parameter"
    | some project =>
      match d.project (Place.ofText project) with
      | .error (.projectMissing root) => return refusal 404 (Failure.projectMissing root).message
      | .error f => .error f
      | .ok files =>
        let analysis := Analysis.ofSources files
        if address.path = analyzePath then return ⟨200, analysis.json⟩
        else exportAnswer now analysis ((fieldValue? "mode" fields).getD usualMode)

/-- What is sent back: a status, headers, and a body. -/
structure Response where
  status : Nat
  headers : List (String × String)
  body : String
  deriving DecidableEq, Repr

/-- The page as it is sent back. -/
def pageResponse : Response where
  status := 200
  headers :=
    [("Content-type", "text/html"), ("Cache-Control", "no-cache, no-store, must-revalidate")]
  body := page

/-- An answer as it is sent back. -/
def Answer.response (a : Answer) : Response where
  status := a.status
  headers :=
    [("Content-type", "application/json"), ("Access-Control-Allow-Origin", "*"),
      ("Cache-Control", "no-cache")]
  body := a.content.compact

/-- What is sent back for a request; nothing of this library's own for a request that asks
neither for the page nor for an answer. -/
def respond? (now : Moment) (d : Disk) (request : String) : Except Failure (Option Response) :=
  if request = "/" ∨ request = "/index.html" then .ok (some pageResponse)
  else if Text.startsWith "/api/" request then (answer now d request).map fun a => some a.response
  else .ok none

end Web

end SchemaAtlas
