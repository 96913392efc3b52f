import SchemaAtlas.Migration.Closure
import SchemaAtlas.Schema.Table

/-!
# `SchemaAtlas.Migration.Statement`: what the statements of a closure ask for

A statement calls a method of the builder, gives it arguments and chains modifiers behind it:

    $table->string('title')->nullable();
    $table->foreignId('user_id')->constrained();
    $table->foreign('user_id')->references('id')->on('users');

Each statement is read into a list of requests. A method that declares nothing known, or lacks the
argument it needs, asks for nothing.
-/

set_option autoImplicit false

namespace SchemaAtlas.Migration

open SchemaAtlas.Scan SchemaAtlas.Text

/-- A statement: the method, and all that follows its opening parenthesis up to the semicolon. -/
structure Statement where
  method : String
  tail : List Char
  deriving DecidableEq, Repr

/-- One thing that a statement asks for. -/
inductive Request
  /-- The table has its own identifier, under this name. -/
  | identify (name : String)
  /-- The table has this column. -/
  | declare (column : Column)
  /-- A declared column refers to another table. -/
  | refer (fk : ForeignKey)
  /-- A column, wherever it is declared, refers to another table. -/
  | constrain (fk : ForeignKey)
  /-- Columns go. -/
  | drop (names : List String)
  /-- Foreign keys go, by column or by index name. -/
  | dropForeign (names : List String)
  /-- A column gets another name. -/
  | rename (old new : String)
  deriving DecidableEq, Repr

/-! ### Splitting a body into statements -/

/-- The beginning of a statement: the builder's variable, a method, and the opening
parenthesis. -/
def statementHead (builder : String) : Recognizer String := fun cs => do
  let cs ← char '$' cs
  let cs ← literal builder cs
  let cs ← literal "->" (skipBlanks cs)
  let (method, cs) ← name (skipBlanks cs)
  let cs ← char '(' (skipBlanks cs)
  return (method, cs)

/-- The statement behind a beginning. -/
def Statement.ofHead (m : Match String) : Statement where
  method := m.value
  tail := m.rest.take (statementEnd m.rest 0)

/-- The statements of a closure's body, in order. -/
def statements (body : List Char) (builder : String) : List Statement :=
  (findAll (statementHead builder) body).map Statement.ofHead

/-! ### Arguments -/

/-- The first argument, if it is a quoted name that is not empty; a name may hold dots here. -/
def firstArgument? (tail : List Char) : Option String := do
  let (q, cs) ← quote (skipBlanks tail)
  let word := cs.takeWhile fun c => isWord c || c == '.'
  let _ ← char q (cs.dropWhile fun c => isWord c || c == '.')
  if word.isEmpty then none else some (String.ofList word)

/-- A second argument that is a quoted name. -/
def secondArgument? (tail : List Char) : Option String := do
  let cs ← char ',' (skipBlanks tail)
  let (word, _) ← quotedName (skipBlanks cs)
  return word

/-! ### Modifiers -/

/-- The call of a modifier, up to its first argument. -/
def modifierCall (modifier : String) : Recognizer Unit := fun cs => do
  let cs ← literal "->" cs
  let cs ← literal modifier (skipBlanks cs)
  let cs ← char '(' (skipBlanks cs)
  return ((), skipBlanks cs)

/-- What follows the opening parenthesis of the first call of a modifier. -/
def modifier? (modifier : String) (tail : List Char) : Option (List Char) :=
  (find? (modifierCall modifier) tail).map Match.rest

/-- The argument of the first call of a modifier, if it is a quoted name. -/
def modifierArgument? (modifier : String) (tail : List Char) : Option String := do
  let (word, _) ← quotedName (← modifier? modifier tail)
  return word

/-- Holds when the modifiers make the column nullable; `nullable(false)` does not. -/
def isNullable (tail : List Char) : Bool :=
  match modifier? "nullable" tail with
  | some cs => (literal "false" cs).isNone
  | none => false

/-- Holds when the modifiers put the column into the primary key. -/
def isPrimary (tail : List Char) : Bool :=
  (modifier? "primary" tail).isSome

/-! ### Requests -/

/-- The methods that declare a reference of any table's rows by an identifier column and a type
column, with the type of the identifier and whether both may be null. -/
def morphMethods : List (String × ColumnType × Bool) :=
  [("morphs", .unsignedBigInteger, false), ("nullableMorphs", .unsignedBigInteger, true),
    ("uuidMorphs", .uuid, false), ("nullableUuidMorphs", .uuid, true)]

/-- How the type column of such a reference ends. -/
def morphTypeEnd : String := "_type"

/-- The two columns of a reference to any table's rows. -/
def morphColumns (stem : String) (type : ColumnType) (nullable : Bool) : List Column :=
  [{ name := stem ++ Naming.referenceEnd, type := type, isForeign := true, nullable := nullable },
    { name := stem ++ morphTypeEnd, type := .string, nullable := nullable }]

/-- A method that declares a column of a type, under a name. -/
def columnRequests (method : String) (type : ColumnType) (name : String) (tail : List Char) :
    List Request :=
  let target? := (modifierArgument? "constrained" tail).or (modifierArgument? "on" tail)
  let isForeign := type = .foreignId || method = "foreignUuid" || target?.isSome
  let column : Column :=
    { name := name
      type := type
      isPrimary := type = .id || isPrimary tail || (type = .uuid && name = Naming.identifier)
      isForeign := isForeign
      nullable := isNullable tail }
  if isForeign then
    [.refer ⟨name, target?.getD (Naming.defaultTarget name)⟩, .declare column]
  else
    [.declare column]

/-- A foreign identifier that is named after a class. -/
def foreignIdForRequests (tail : List Char) : List Request :=
  match classArgument (skipBlanks tail) with
  | none => []
  | some (className, rest) =>
    let name :=
      (secondArgument? rest).getD (Naming.snakeCase className ++ Naming.referenceEnd)
    let target := (modifierArgument? "constrained" rest).getD (Naming.modelToTable className)
    [.declare { name := name, type := .foreignId, isForeign := true, nullable :=
      isNullable rest },
      .refer ⟨name, target⟩]

/-- What a statement asks for. -/
def Statement.requests (s : Statement) : List Request :=
  let argument? := firstArgument? s.tail
  match s.method with
  | "id" => [.identify (argument?.getD Naming.identifier)]
  | "timestamps" => []
  | "timestampsTz" => []
  | "nullableTimestamps" => []
  | "softDeletes" => softDeletes argument?
  | "softDeletesTz" => softDeletes argument?
  | "rememberToken" => [.declare { name := "remember_token", type := .string, nullable := true }]
  | "foreign" =>
    match argument?, modifierArgument? "on" s.tail with
    | some column, some target => [.constrain ⟨column, target⟩]
    | _, _ => []
  | "foreignIdFor" => foreignIdForRequests s.tail
  | "dropColumn" => [.drop (quotedStrings s.tail)]
  | "dropForeign" => [.dropForeign (quotedStrings s.tail)]
  | "dropMorphs" =>
    match argument? with
    | some stem => [.drop [stem ++ Naming.referenceEnd, stem ++ morphTypeEnd]]
    | none => []
  | "dropSoftDeletes" => [.drop ["deleted_at"]]
  | "dropRememberToken" => [.drop ["remember_token"]]
  | "renameColumn" =>
    match quotedStrings s.tail with
    | old :: new :: _ => [.rename old new]
    | _ => []
  | method =>
    match argument? with
    | none => []
    | some argument =>
      match morphMethods.lookup method with
      | some (type, nullable) => (morphColumns argument type nullable).map .declare
      | none =>
        match ColumnType.ofBuilder? method with
        | some type => columnRequests method type argument s.tail
        | none => []
where
  /-- The column that marks deleted rows. -/
  softDeletes (argument? : Option String) : List Request :=
    [.declare { name := argument?.getD "deleted_at", type := .timestamp, nullable := true }]

end SchemaAtlas.Migration
