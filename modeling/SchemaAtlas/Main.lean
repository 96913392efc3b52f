import SchemaAtlas.Console.Menu
import SchemaAtlas.Console.Prompt
import SchemaAtlas.Web.Api
import Std.Time.DateTime.Timestamp

/-!
# `SchemaAtlas.Main`: the command line

Without a word in front, the arguments go to the menu; `prompt` starts the prompt, and `get`
prints what would be sent back to the page for a request. This module only reads and prints, and
copies what the library looks at from the real disk and what it changes back to it.
-/

set_option autoImplicit false

namespace SchemaAtlas.CommandLine

/-- The moment that the clock shows, in universal time. -/
def currentMoment : IO Moment := do
  let seconds := (← Std.Time.Timestamp.now).toSecondsSinceUnixEpoch
  return Moment.ofUnixSeconds seconds.val.toNat

/-- What lies at the end of some names from the top of the real disk. -/
def realEntry? (names : List String) : IO (Option Entry) := do
  let path := (← IO.currentDir) / ("/" ++ Disk.path names)
  if ← path.isDir then return some .folder
  else if ← path.pathExists then return some (.file (← IO.FS.readBinFile path).toList)
  else return none

/-- The disk with what lies on the way along some names. -/
def lookAlong (d : Disk) (names : List String) : IO Disk := do
  let mut d := d
  for n in List.range names.length do
    let names := names.take (n + 1)
    if let some entry ← realEntry? names then d := d.put names entry
  return d

/-- The disk with the folders and source files below a folder. -/
partial def lookBelow (d : Disk) (names : List String) : IO Disk := do
  let mut d := d
  for item in ← ((← IO.currentDir) / ("/" ++ Disk.path names)).readDir do
    let below := names ++ [item.fileName]
    if ← item.path.isDir then d ← lookBelow (d.put below .folder) below
    else if Text.endsWith Source.fileEnd item.fileName then
      d := d.put below (.file (← IO.FS.readBinFile item.path).toList)
  return d

/-- The disk as far as the current folder and the way to a place. -/
def lookAt (d : Disk) (p : Place) : IO Disk :=
  lookAlong d (d.startOf p ++ p.names)

/-- The disk as far as a project. -/
def lookInto (d : Disk) (root : Place) : IO Disk := do
  let d ← lookAt d root
  match d.locate root with
  | .ok names => if d.at? names == some .folder then lookBelow d names else return d
  | .error _ => return d

/-- The disk as far as the current folder. -/
def realDisk : IO Disk := do
  let here := Place.namesIn (← IO.currentDir).toString
  lookAlong { here := here } here

/-- Brings the real disk from one state to another. -/
def commit (before after : Disk) : IO Unit := do
  for (path, entry) in after.changesSince before do
    let path := (← IO.currentDir) / ("/" ++ path)
    match entry with
    | .folder => IO.FS.createDirAll path
    | .file bytes => IO.FS.writeBinFile path ⟨bytes.toArray⟩

/-- A line of input without its line break, or none at the end. -/
def readLine : IO (Option String) := do
  let line ← (← IO.getStdin).getLine
  return if line.isEmpty then none
    else some (if Text.endsWith "\n" line then Text.dropLast 1 line else line)

/-- Prints without a line break of its own. -/
def put (text : String) : IO Unit := do
  IO.print text
  (← IO.getStdout).flush

/-- Tells of a failure and gives the exit code for it. -/
def giveUp (f : Failure) : IO UInt32 := do
  IO.eprintln f.message
  return 1

/-- Plays a dialogue on the real disk. -/
def play : Console.Dialogue → IO UInt32
  | .finish printed code => do
    put printed
    return UInt32.ofNat code
  | .ask printed next => do
    put printed
    play (next (← readLine))
  | .scan printed root next => do
    put printed
    let d ← lookInto (← realDisk) root
    play (next (d.project root))
  | .write place content next => do
    let d ← lookAt (← realDisk) place
    match d.write place content with
    | .ok after =>
      commit d after
      play next
    | .error f => giveUp f
  | .fail f => giveUp f

/-- The disk as far as a line at the prompt needs it. -/
def lookFor (w : Console.World) (s : Session) (line : String) : IO Disk := do
  let command := Console.Command.ofLine line
  let mut d ← realDisk
  if let some root := command.project? w then d ← lookInto d root
  for place in command.targets s do d ← lookAt d place
  return d

/-- Answers lines at the prompt until told to end. -/
partial def converse (w : Console.World) (s : Session) : IO UInt32 := do
  put "LaraFlow> "
  let line ← readLine
  let d ← lookFor w s (line.getD "")
  match Console.react w s d ((line.map Console.Input.line).getD .ended) with
  | .goOn printed s after =>
    commit d after
    put printed
    converse w s
  | .stop printed _ =>
    put printed
    return 0
  | .fail f after =>
    commit d after
    giveUp f

/-- Prints what is sent back for a request. -/
def get (request : String) : IO UInt32 := do
  let now ← currentMoment
  let project? := (Web.Address.ofText request).toOption.bind fun address =>
    Web.fieldValue? "path" (Web.queryFields address.query)
  let d ← lookInto (← realDisk) (Place.ofText (project?.getD "."))
  match Web.respond? now d request with
  | .ok (some response) =>
    put (response.body ++ "\n")
    return if response.status = 200 then 0 else 1
  | .ok none => return 1
  | .error f => giveUp f

/-- Starts the prompt. -/
def prompt : IO UInt32 := do
  put Console.welcome
  let home := (← IO.getEnv "HOME").getD "/"
  let key := (← IO.getEnv "GROQ_API_KEY").getD ""
  let w : Console.World :=
    { now := ← currentMoment, home := home, client := { key := key }
      reply := .failed "no connection to the service" }
  converse w (.start [] none)

end SchemaAtlas.CommandLine

open SchemaAtlas.CommandLine in
/-- The command line. -/
def main (arguments : List String) : IO UInt32 := do
  match arguments with
  | ["prompt"] => prompt
  | ["get", request] => get request
  | arguments => play (SchemaAtlas.Console.dialogue (← currentMoment) arguments)
