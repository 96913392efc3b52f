import SchemaAtlas.Console.Command

/-!
# `SchemaAtlas.Console.Prompt`: the prompt

The prompt reads a line, carries it out, and prints the answer if there is one, until it is told
to end or there are no more lines. An interrupt at the prompt only tells how to end. A command
that fails ends it all.
-/

set_option autoImplicit false

namespace SchemaAtlas.Console

/-- What is printed before the first line is read. -/
def welcome : String :=
  "\n".intercalate
    ["",
      "+===========================================================================+",
      "|                    LaraFlow - Laravel Schema Explorer                     |",
      "|                  Interactive REPL with Auto-completion                    |",
      "+===========================================================================+",
      "|  TIP: Type a command and press TAB to see available sub-commands          |",
      "|                                                                           |",
      "|  Examples:                                                                |",
      "|    LOAD ~/code/blog                                                       |",
      "|    SHOW <TAB>     -> TABLES, TABLE, RELATIONS, MODELS, ORPHANS            |",
      "|    EXPORT <TAB>   -> SQL, TYPESCRIPT, MODELS, MIGRATIONS, SHELL, JSON     |",
      "|                                                                           |",
      "|  Type 'HELP' for command reference, 'EXIT' to quit                        |",
      "+---------------------------------------------------------------------------+",
      "",
      ""]

/-- What comes in at the prompt. -/
inductive Input
  | line (text : String)
  | interrupt
  | ended
  deriving DecidableEq, Repr

/-- What the prompt does with an input: it prints something and goes on or stops, or it fails. -/
inductive Reaction
  | goOn (printed : String) (session : Session) (disk : Disk)
  | stop (printed : String) (disk : Disk)
  | fail (failure : Failure) (disk : Disk)

/-- The answer as it is printed. -/
def printed (answer : String) : String :=
  if answer = "" then "" else answer ++ "\n"

/-- What the prompt does with an input. -/
def react (w : World) (s : Session) (d : Disk) : Input → Reaction
  | .ended => .stop "\nGoodbye!\n" d
  | .interrupt => .goOn "\n  Use 'EXIT' to quit\n" s d
  | .line text =>
    if isKeyword "EXIT" (Text.trim text) then .stop "Goodbye!\n" d
    else
      let outcome := execute w s d text
      match outcome.answer with
      | .ok answer => .goOn (printed answer) outcome.session outcome.disk
      | .error f => .fail f outcome.disk

/-- What is printed for some inputs, after which there are no more, and the disk afterwards. -/
def converseFrom (w : World) (s : Session) (d : Disk) :
    List Input → Except Failure (String × Disk)
  | [] =>
    match react w s d .ended with
    | .goOn printed _ d => .ok (printed, d)
    | .stop printed d => .ok (printed, d)
    | .fail f _ => .error f
  | input :: rest =>
    match react w s d input with
    | .goOn printed s d => (converseFrom w s d rest).map fun result =>
      (printed ++ result.1, result.2)
    | .stop printed d => .ok (printed, d)
    | .fail f _ => .error f

/-- A whole conversation, from the welcome on. -/
def converse (w : World) (d : Disk) (inputs : List Input) : Except Failure (String × Disk) :=
  (converseFrom w (.start [] none) d inputs).map fun result => (welcome ++ result.1, result.2)

end SchemaAtlas.Console
