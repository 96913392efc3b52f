import SchemaAtlas.Scan.Balance
import SchemaAtlas.Scan.ClassName
import SchemaAtlas.Scan.Mask
import SchemaAtlas.Schema.Model
import SchemaAtlas.Source.Path

/-!
# `SchemaAtlas.Model.Class`: reading the class of a model

A model is a class that may name its table and whose methods may return relations:

    class Post extends Model
    {
        protected $table = 'blog_posts';

        public function author(): BelongsTo
        {
            return $this->belongsTo(User::class, 'user_id');
        }
    }

A public method without parameters declares a relation if the first call that it returns from
its own object is one of the four relation methods with a class as first argument. Methods of
any other shape declare nothing. Comments have no say.
-/

set_option autoImplicit false

namespace SchemaAtlas.Model

open SchemaAtlas.Scan SchemaAtlas.Text

/-! ### Name and table -/

/-- The name behind the word `class`. -/
def classHead : Recognizer String := fun cs => do
  let cs ← literal "class" cs
  let cs ← someBlanks cs
  name cs

/-- The name of the first class; `inWord` tells whether a word character stands right before. -/
def classNameFrom (inWord : Bool) : List Char → Option String
  | [] => none
  | c :: r =>
    match if inWord then none else classHead (c :: r) with
    | some (className, _) => some className
    | none => classNameFrom (isWord c) r

/-- The class's own statement of its table, semicolon included. -/
def tableStatement : Recognizer String := fun cs => do
  let cs ← literal "protected" cs
  let cs ← someBlanks cs
  let cs ← literal "$table" cs
  let cs ← char '=' (skipBlanks cs)
  let (_, cs) ← quote (skipBlanks cs)
  let (table, cs) ← name cs
  let (_, cs) ← quote cs
  let cs ← char ';' (skipBlanks cs)
  return (table, cs)

/-! ### Relations -/

/-- The type that a method returns, if it is given; it may be marked as nullable. -/
def skipResultClass (cs : List Char) : Option (List Char) :=
  match char ':' cs with
  | none => some cs
  | some cs =>
    let cs := skipBlanks cs
    (run isClassPart ((char '?' cs).getD cs)).map fun m => skipBlanks m.2

/-- The head of a public method without parameters, opening brace included. -/
def methodHead : Recognizer String := fun cs => do
  let cs ← literal "public" cs
  let cs ← someBlanks cs
  let cs ← literal "function" cs
  let cs ← someBlanks cs
  let (method, cs) ← name cs
  let cs ← char '(' (skipBlanks cs)
  let cs ← char ')' (skipBlanks cs)
  let cs ← skipResultClass (skipBlanks cs)
  let cs ← char '{' cs
  return (method, cs)

/-- A call of the object's own method that is returned: the method and the class it is given. -/
def returnedCall : Recognizer (String × String) := fun cs => do
  let cs ← literal "return" cs
  let cs ← someBlanks cs
  let cs ← literal "$this" cs
  let cs ← literal "->" (skipBlanks cs)
  let (method, cs) ← name (skipBlanks cs)
  let cs ← char '(' (skipBlanks cs)
  let (target, cs) ← classArgument (skipBlanks cs)
  return ((method, target), cs)

/-- The relation that a method declares. -/
def relation? (m : Match String) : Option ModelRelation := do
  let close ← blockEnd? m.stop m.rest
  let call ← find? returnedCall (m.rest.take (close - m.stop))
  let kind ← RelationKind.ofKeyword? call.value.1
  return ⟨m.value, kind, call.value.2⟩

/-- The relations of a class whose comments are masked, in order of declaration. -/
def relationsOfMasked (masked : List Char) : List ModelRelation :=
  (findAll methodHead masked).filterMap relation?

/-! ### The model -/

/-- The model that a file holds. Without a class in it, the file's name is taken for the
class's. -/
def ofText? (text path : String) : Option Model :=
  let masked := mask text.toList
  let className := (classNameFrom false masked).getD (Source.classNameOfPath path)
  if className = "" then none
  else
    let table? := (find? tableStatement masked).map Match.value
    some (bind className (table?.getD "") table?.isSome (relationsOfMasked masked) path)

end SchemaAtlas.Model
