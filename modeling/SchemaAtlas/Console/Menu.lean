import SchemaAtlas.Console.Listing
import SchemaAtlas.Disk.Project
import SchemaAtlas.Export.Mode

/-!
# `SchemaAtlas.Console.Menu`: one analysis and one export

A project is scanned, what it says is listed, and one export can be chosen from a menu, to be
printed or written to a file. The course of it is a dialogue, which says step by step what is
printed, asked for, scanned and written. A dialogue can be played on a disk of this library or
on a real one.
-/

set_option autoImplicit false

namespace SchemaAtlas.Console

/-- A dialogue. -/
inductive Dialogue
  /-- Print this and end with an exit code. -/
  | finish (printed : String) (code : Nat)
  /-- Print this, read a line, and go on with it; there may be none. -/
  | ask (printed : String) (next : Option String → Dialogue)
  /-- Print this, scan a project, and go on with its files or with the reason why there are
  none. -/
  | scan (printed : String) (root : Place) (next : Except Failure (List SourceFile) → Dialogue)
  /-- Write a file and go on. -/
  | write (place : Place) (content : String) (next : Dialogue)
  /-- Fail. -/
  | fail (failure : Failure)

namespace Dialogue

/-- The dialogue with something printed before. -/
def after (printed : String) : Dialogue → Dialogue
  | finish more code => finish (printed ++ more) code
  | ask more next => ask (printed ++ more) next
  | scan more root next => scan (printed ++ more) root next
  | write place content next => write place content (next.after printed)
  | fail f => fail f

/-- What is printed, the exit code, and the disk afterwards, given the lines of input. -/
def play (d : Disk) : Dialogue → List String → Except Failure (String × Nat × Disk)
  | finish printed code, _ => .ok (printed, code, d)
  | ask printed next, [] => (play d (next none) []).map fun result =>
    (printed ++ result.1, result.2)
  | ask printed next, line :: rest =>
    (play d (next (some line)) rest).map fun result => (printed ++ result.1, result.2)
  | scan printed root next, input =>
    (play d (next (d.project root)) input).map fun result => (printed ++ result.1, result.2)
  | write place content next, input => (d.write place content).bind fun d => play d next input
  | fail f, _ => .error f

end Dialogue

/-- Lines as they are printed. -/
def lines (l : List String) : String :=
  String.join (l.map fun line => line ++ "\n")

/-- The choices of the menu: the key, the form, and what it is called. -/
def menu : List (String × Export.Mode × String) :=
  [("1", .sql, "MySQL DDL"), ("2", .typescript, "TypeScript interfaces"),
    ("3", .models, "Eloquent models"),
    ("4", .migrations, "Laravel migrations"), ("5", .shell, "Bash setup script"),
    ("6", .json, "Raw JSON schema")]

/-- Prints an export, or writes it to a file that is named. -/
def deliver (label content : String) (answer : Option String) : Dialogue :=
  let target := Text.trim (answer.getD "")
  if target = "" then
    .finish (lines ["", bold ++ rule, " " ++ Text.upper label, rule ++ plain, content]) 0
  else
    .write (Place.ofText target) content <|
      .finish (lines
        ["", "  " ++ green ++ bold ++ "[OK] " ++ label ++ " written to " ++ target ++ plain]) 0

/-- Makes the export that was chosen. -/
def choose (now : Moment) (a : Analysis) : Option String → Dialogue
  | none => .finish "" 0
  | some answer =>
    let choice := Text.trim answer
    if choice = "0" then .finish "" 0
    else match menu.lookup choice with
      | none => .finish "Invalid choice\n" 1
      | some (mode, label) =>
        match Export.render now a mode with
        | .ok content => .ask "Save to file (blank = print): " (deliver label content)
        | .error f => .fail f

/-- The menu. -/
def menuText : String :=
  lines (["", "  " ++ cyan ++ "Export:" ++ plain]
    ++ menu.map (fun entry => "  [" ++ entry.1 ++ "] " ++ entry.2.2) ++ ["", "  [0] Exit"])
    ++ "\nChoice: "

/-- Lists what the files of a project say, and offers the menu. -/
def inspect (now : Moment) (project : String) : Except Failure (List SourceFile) → Dialogue
  | .error (.projectMissing root) =>
    .finish (lines [red ++ "[ERROR] " ++ (Failure.projectMissing root).message ++ plain]) 1
  | .error f => .fail f
  | .ok files =>
    let analysis := Analysis.ofSources files
    let found := lines
      ["         Found " ++ toString files.length ++ " migration/model files", "",
        cyan ++ "[Step 2] Building schema" ++ plain]
    let warning :=
      if analysis.snapshot.tables.entries.isEmpty then
        lines [yellow ++ "[WARN] No tables found in " ++ project ++ plain]
      else ""
    .ask (found ++ warning ++ lines (analysisLines analysis) ++ menuText) (choose now analysis)

/-- Scans a project. -/
def scanning (now : Moment) (project : String) : Dialogue :=
  .scan (lines ["", cyan ++ "[Step 1] Scanning: " ++ project ++ plain]) (Place.ofText project)
    (inspect now project)

/-- The project that an answer names; the current folder if it names none. -/
def projectOf (answer : String) : String :=
  let path := Text.trim answer
  if path = "" then "." else path

/-- The whole dialogue: the project is the first argument, or it is asked for. -/
def dialogue (now : Moment) (arguments : List String) : Dialogue :=
  let title := lines ("" :: banner "LaraFlow - Laravel Schema Analyzer")
  match arguments with
  | project :: _ => (scanning now project).after title
  | [] =>
    .ask (title ++ "\nLaravel project path [.]: ") fun answer =>
      match answer with
      | some line => scanning now (projectOf line)
      | none => .finish "" 0

end SchemaAtlas.Console
