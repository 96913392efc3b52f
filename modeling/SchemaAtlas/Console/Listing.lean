import SchemaAtlas.Analysis
import SchemaAtlas.Text.Blank

/-!
# `SchemaAtlas.Console.Listing`: an analysis on the terminal

Tables, relations, what has no counterpart, and the counts, with colours as terminals understand
them.
-/

set_option autoImplicit false

namespace SchemaAtlas.Console

/-! ### Colours -/

/-- Text from here on in green. -/
def green : String := "\x1b[92m"

/-- Text from here on in yellow. -/
def yellow : String := "\x1b[93m"

/-- Text from here on in cyan. -/
def cyan : String := "\x1b[96m"

/-- Text from here on in red. -/
def red : String := "\x1b[91m"

/-- Text from here on in bold. -/
def bold : String := "\x1b[1m"

/-- Text from here on as usual. -/
def plain : String := "\x1b[0m"

/-- A line across the terminal. -/
def rule : String := String.ofList (List.replicate 60 '=')

/-- A title between two lines. -/
def banner (title : String) : List String :=
  [bold ++ rule, " " ++ title, rule ++ plain]

/-! ### Tables -/

/-- What marks a key column. -/
def keyMark (c : Column) : String :=
  if c.isPrimary then "[PK]" else if c.isForeign then "[FK]" else ""

/-- The mark of a column that may be null. -/
def nullMark (c : Column) : String :=
  if c.nullable then "?" else ""

/-- The lines of a table; tables among the highlights stand out. -/
def tableLines (highlights : List String) (t : Table) : List String :=
  let pivot := if t.isPivot then " " ++ yellow ++ "[pivot]" ++ plain else ""
  let title :=
    if highlights.contains t.name then green ++ bold ++ "  " ++ t.name ++ plain ++ pivot
    else "  " ++ t.name ++ pivot
  title
    :: (t.columns.map fun c =>
      Text.trimEnd ("    " ++ c.name ++ nullMark c ++ ": " ++ c.type.method ++ " " ++ keyMark c))
    ++ t.foreignKeys.map fun fk => cyan ++ "    -> " ++ fk.column ++ " -> " ++ fk.target ++ plain

/-! ### Analyses -/

/-- The column that an edge comes from, if it has one with a name. -/
def viaText (e : Edge) : String :=
  match e.column with
  | some name => if name = "" then "" else " via " ++ name
  | none => ""

/-- Some names, or a dash if there are none. -/
def namesOrDash (names : List String) : String :=
  let text := ", ".intercalate names
  if text = "" then "-" else text

/-- The lines of an analysis. -/
def analysisLines (a : Analysis) : List String :=
  let orphanTables := a.snapshot.orphanTables
  let orphanModels := a.snapshot.orphanModels
  [""] ++ banner "TABLES"
    ++ a.snapshot.tables.values.flatMap (fun t => tableLines [] t ++ [""])
    ++ banner "RELATIONS"
    ++ (if a.edges.isEmpty then ["  (none)"] else [])
    ++ a.edges.map (fun e =>
      "  " ++ e.source ++ " " ++ cyan ++ "--" ++ e.kind.keyword ++ "-->" ++ plain ++ " "
        ++ e.target
        ++ viaText e)
    ++ (if orphanTables.isEmpty && orphanModels.isEmpty then []
      else
        ["", "  " ++ yellow ++ "Tables without model:" ++ plain ++ " "
          ++ namesOrDash orphanTables,
          "  " ++ yellow ++ "Models without table:" ++ plain ++ " " ++ namesOrDash orphanModels])
    ++ ["", "  " ++ toString a.migrationCount ++ " migrations, " ++ toString a.modelCount
      ++ " models -> "
      ++ toString a.tableCount ++ " tables, " ++ toString a.relationCount ++ " relations"]

end SchemaAtlas.Console
