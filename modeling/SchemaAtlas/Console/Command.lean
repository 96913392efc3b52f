import SchemaAtlas.Console.Listing
import SchemaAtlas.Export.Mode
import SchemaAtlas.Session.Basic
import SchemaAtlas.Suggestion.Client

/-!
# `SchemaAtlas.Console.Command`: one command of the prompt

A line typed at the prompt is read into a command first and carried out second. Keywords may be
typed in capital or small letters; names are taken as they are. What is no command is answered
with a hint. A command that fails leaves the session as it was, though files that it had written
stay written.
-/

set_option autoImplicit false

namespace SchemaAtlas.Console

open SchemaAtlas.Text

/-- What a command needs to know of the world besides the disk: the time, the home folder, and
how the suggestion service is reached and what comes back from it. -/
structure World where
  now : Moment
  home : String
  client : Suggestion.Client := {}
  reply : Suggestion.Reply := .failed ""

/-! ### Reading -/

/-- What can be shown. -/
inductive Shown
  | tables
  | table (name : String)
  | relations
  | models
  | orphans
  deriving DecidableEq, Repr

/-- A command. -/
inductive Command
  /-- Nothing was typed. -/
  | blank
  /-- The line is answered by a fixed text. -/
  | hint (text : String)
  | help
  | load (path : String)
  | present (what : Shown)
  | addColumn (name : String) (type : ColumnType) (table : String) (nullable : Bool)
  | dropColumn (name table : String)
  | renameColumn (old new table : String)
  | exportAs (mode : String) (target? : Option String)
  | save
  | suggest (wish : String)
  deriving DecidableEq, Repr

/-- Holds when a word is the keyword, in capital or small letters. -/
def isKeyword (keyword word : String) : Bool :=
  upper word == keyword

/-- The command that shows something. -/
def readShow : List String → Command
  | [] => .present .tables
  | what :: rest =>
    let what := upper what
    if what = "TABLES" then .present .tables
    else if what = "TABLE" then
      match rest with
      | [] => .hint "  Usage: SHOW TABLE <name>"
      | name :: _ => .present (.table name)
    else if what = "RELATIONS" then .present .relations
    else if what = "MODELS" then .present .models
    else if what = "ORPHANS" then .present .orphans
    else .hint ("  [?] Unknown SHOW target: " ++ what)

/-- The command that adds a column. -/
def readAdd : List String → Command
  | column :: name :: type :: toWord :: table :: rest =>
    if isKeyword "COLUMN" column && isKeyword "TO" toWord then
      match ColumnType.ofToken? type with
      | some found => .addColumn name found table (rest.head?.any (isKeyword "NULLABLE"))
      | none => .hint ("  [?] Unknown column type: " ++ type)
    else usage
  | _ => usage
where
  /-- How the command is typed. -/
  usage : Command := .hint "  Usage: ADD COLUMN <name> <type> TO <table> [NULLABLE]"

/-- The command that drops a column. -/
def readDrop : List String → Command
  | column :: name :: fromWord :: table :: _ =>
    if isKeyword "COLUMN" column && isKeyword "FROM" fromWord then .dropColumn name table
      else usage
  | _ => usage
where
  /-- How the command is typed. -/
  usage : Command := .hint "  Usage: DROP COLUMN <name> FROM <table>"

/-- The command that renames a column. -/
def readRename : List String → Command
  | column :: old :: toWord :: new :: inWord :: table :: _ =>
    if isKeyword "COLUMN" column && isKeyword "TO" toWord && isKeyword "IN" inWord then
      .renameColumn old new table
    else usage
  | _ => usage
where
  /-- How the command is typed. -/
  usage : Command := .hint "  Usage: RENAME COLUMN <old> TO <new> IN <table>"

/-- The command that exports. -/
def readExport : List String → Command
  | [] =>
    .hint ("  Usage: EXPORT " ++ "|".intercalate (Export.Mode.all.map fun mode => upper mode.name)
      ++ " [TO <file>]")
  | [mode] => .exportAs mode none
  | [mode, _] => .exportAs mode none
  | mode :: toWord :: target :: _ =>
    .exportAs mode (if isKeyword "TO" toWord then some target else none)

/-- The command that a line says. -/
def Command.ofLine (line : String) : Command :=
  let line := trim line
  match fields line with
  | [] => .blank
  | keyword :: args =>
    let rest := trim (dropFirst keyword.length line)
    let typed (word : String) : Bool := isKeyword word keyword
    if typed "HELP" then .help
    else if typed "LOAD" then (if args.isEmpty then .hint "  Usage: LOAD <path>" else .load rest)
    else if typed "SHOW" then readShow args
    else if typed "ADD" then readAdd args
    else if typed "DROP" then readDrop args
    else if typed "RENAME" then readRename args
    else if typed "EXPORT" then readExport args
    else if typed "SAVE" then .save
    else if typed "SUGGEST" then
      (if rest = "" then .hint "  Usage: SUGGEST <description>" else .suggest rest)
    else
      .hint ("  [?] Unknown command: " ++ line
        ++ "\n  Type 'HELP' for commands or press TAB for suggestions")

/-! ### Answers -/

/-- The answer to a call for help. -/
def helpText : String :=
  "\n".intercalate
    ["",
      "LaraFlow Command Reference",
      "==========================",
      "",
      "Project:",
      "  LOAD <path>                              - Scan a Laravel project",
      "  SAVE                                     - Write edited migrations back to disk",
      "",
      "Inspection:",
      "  SHOW TABLES|RELATIONS|MODELS|ORPHANS",
      "  SHOW TABLE <name>",
      "",
      "Column edits (rewrites the table's Schema::create block):",
      "  ADD COLUMN <name> <type> TO <table> [NULLABLE]",
      "  DROP COLUMN <name> FROM <table>",
      "  RENAME COLUMN <old> TO <new> IN <table>",
      "",
      "Export:",
      "  EXPORT SQL|TYPESCRIPT|MODELS|MIGRATIONS|SHELL|JSON [TO <file>]",
      "",
      "Generation:",
      "  SUGGEST <description>                    - Replace the schema with a suggested one",
      "",
      "Utility:",
      "  HELP",
      "  EXIT",
      "",
      "Press TAB after any keyword to see available completions!",
      ""]

/-- A table on one line. -/
def tableSummary (t : Table) : String :=
  "  " ++ t.name ++ " (" ++ toString t.columns.length ++ " columns)"
    ++ (if t.isPivot then " [pivot]" else "")

/-- A table in full. -/
def tableDetails (t : Table) : String :=
  let mark (c : Column) : String := if keyMark c = "" then "" else " " ++ keyMark c
  "\n".intercalate
    (("  " ++ t.name)
      :: t.columns.map
        (fun c => "    " ++ c.name ++ nullMark c ++ ": " ++ c.type.method ++ mark c)
      ++ t.foreignKeys.map fun fk => "    -> " ++ fk.column ++ " -> " ++ fk.target)

/-- Some lines, or another text if there are none. -/
def linesOr (none : String) (lines : List String) : String :=
  if lines.isEmpty then none else "\n".intercalate lines

/-- The answer that shows something of an analysis. -/
def shownText (a : Analysis) : Shown → String
  | .tables =>
    linesOr "  (no tables - use LOAD <path>)" (a.snapshot.tables.values.map tableSummary)
  | .table name =>
    match a.snapshot.tables.get? name with
    | some t => tableDetails t
    | none => "  [?] Unknown table: " ++ name
  | .relations =>
    linesOr "  (no relations)" (a.edges.map fun e =>
      "  " ++ e.source ++ " --" ++ e.kind.keyword ++ "--> " ++ e.target ++ viaText e)
  | .models =>
    linesOr "  (no models)" (a.snapshot.models.values.map fun m =>
      "  " ++ m.className ++ " -> " ++ m.tableName ++ " (" ++ toString m.relations.length
        ++ " relations)")
  | .orphans =>
    "  Tables without model: " ++ namesOrDash a.snapshot.orphanTables
      ++ "\n  Models without table: "
      ++ namesOrDash a.snapshot.orphanModels

/-! ### Carrying out -/

/-- What a command leads to: its answer or its failure, and the session and disk afterwards. -/
structure Outcome where
  answer : Except Failure String
  session : Session
  disk : Disk

/-- The answer to an edit that may not have been possible. -/
def edited (s : Session) (d : Disk) (done refused : String) : Option Session → Outcome
  | some s => ⟨.ok done, s, d⟩
  | none => ⟨.ok refused, s, d⟩

/-- A failure that is told instead of raised. -/
def told (f : Failure) : String := "  [!] " ++ f.message

/-- The project at a path that was typed. -/
def openProject (w : World) (d : Disk) (path : String) :
    Except Failure (Place × List SourceFile) :=
  match (Place.ofText path).expandHome? w.home with
  | none => .error .noHome
  | some root => (d.project root).map fun files => (root, files)

/-- The outcome of an export that goes to a file or to the terminal. -/
def exported (s : Session) (d : Disk) (content : String) : Option String → Outcome
  | none => ⟨.ok content, s, d⟩
  | some target =>
    match d.write (Place.ofText target) content with
    | .ok d => ⟨.ok ("  [OK] Written to " ++ target), s, d⟩
    | .error f => ⟨.error f, s, d⟩

/-- The outcome of a command. -/
def Command.run (w : World) (s : Session) (d : Disk) : Command → Outcome
  | .blank => ⟨.ok "", s, d⟩
  | .hint text => ⟨.ok text, s, d⟩
  | .help => ⟨.ok helpText, s, d⟩
  | .load path =>
    match openProject w d path with
    | .ok (root, files) =>
      let s := s.load files (some root)
      ⟨.ok ("  Loaded " ++ toString s.analysis.migrationCount ++ " migrations, "
        ++ toString s.analysis.modelCount ++ " models -> " ++ toString s.analysis.tableCount
        ++ " tables"),
        s, d⟩
    | .error (.projectMissing root) => ⟨.ok (told (.projectMissing root)), s, d⟩
    | .error f => ⟨.error f, s, d⟩
  | .present what => ⟨.ok (shownText s.analysis what), s, d⟩
  | .addColumn name type table nullable =>
    edited s d ("  [+] " ++ table ++ "." ++ name ++ " (" ++ type.method ++ ")")
      ("  [!] Could not add " ++ name ++ " to " ++ table) (s.addColumn? table name type nullable)
  | .dropColumn name table =>
    edited s d ("  [-] " ++ table ++ "." ++ name)
      ("  [!] Could not drop " ++ name ++ " from " ++ table)
      (s.dropColumn? table name)
  | .renameColumn old new table =>
    edited s d ("  [~] " ++ table ++ "." ++ old ++ " -> " ++ new)
      ("  [!] Could not rename " ++ old ++ " in " ++ table) (s.renameColumn? table old new)
  | .exportAs mode target? =>
    match Export.byName w.now s.analysis mode with
    | .ok content => exported s d content target?
    | .error (.unknownMode name) => ⟨.ok (told (.unknownMode name)), s, d⟩
    | .error f => ⟨.error f, s, d⟩
  | .save =>
    match s.save d with
    | (.ok places, s, d) =>
      ⟨.ok ("  [OK] " ++ toString places.length ++ " file(s) written"), s, d⟩
    | (.error .noRoot, s, d) => ⟨.ok (told .noRoot), s, d⟩
    | (.error .nullInPath, s, d) => ⟨.ok (told .nullInPath), s, d⟩
    | (.error f, s, d) => ⟨.error f, s, d⟩
  | .suggest _ =>
    match w.client.suggest w.reply with
    | .error (.suggestion fault) => ⟨.ok (told (.suggestion fault)), s, d⟩
    | .error f => ⟨.error f, s, d⟩
    | .ok suggestion =>
      match suggestion.files w.now with
      | .error f => ⟨.error f, s, d⟩
      | .ok files =>
        let s := s.replaceFiles files
        ⟨.ok ("  [+] Suggested schema: " ++ toString s.analysis.tableCount ++ " tables, "
          ++ toString s.analysis.relationCount ++ " relations"), s, d⟩

/-- The project folder that a command reads, if it reads one. -/
def Command.project? (w : World) : Command → Option Place
  | .load path => (Place.ofText path).expandHome? w.home
  | _ => none

/-- The places that a command may write to. -/
def Command.targets (s : Session) : Command → List Place
  | .save => s.files.map (Session.target (s.root.getD default))
  | .exportAs _ (some target) => [Place.ofText target]
  | _ => []

/-- The outcome of a line typed at the prompt. -/
def execute (w : World) (s : Session) (d : Disk) (line : String) : Outcome :=
  (Command.ofLine line).run w s d

end SchemaAtlas.Console
