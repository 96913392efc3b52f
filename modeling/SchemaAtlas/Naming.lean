import SchemaAtlas.Text.Case
import SchemaAtlas.Text.Ends
import SchemaAtlas.Text.Lines

/-!
# `SchemaAtlas.Naming`: names of tables, columns and classes from one another

Tables are named in the plural and in small letters with underscores, classes in the singular
and with capitals. The rules look at the end of a word only and know no dictionary, so singular
and plural do not undo each other for every word: the singular of `status` is `statu`. Generated
files depend on exactly these rules.
-/

set_option autoImplicit false

namespace SchemaAtlas.Naming

open SchemaAtlas

/-! ### Singular and plural -/

/-- The last characters of a word, last first. One line break at the very end is looked past. -/
def ending (w : List Char) : List Char :=
  match w.reverse with
  | '\n' :: r => r
  | r => r

/-- Holds of a reversed word that ends in a hissing sound: `s`, `sh`, `ch`, `x` or `z`. -/
def hisses : List Char → Bool
  | 's' :: _ => true
  | 'x' :: _ => true
  | 'z' :: _ => true
  | 'h' :: 's' :: _ => true
  | 'h' :: 'c' :: _ => true
  | _ => false

/-- The small vowels. -/
def isSmallVowel (c : Char) : Bool :=
  c == 'a' || c == 'e' || c == 'i' || c == 'o' || c == 'u'

/-- Holds of a reversed word that ends in `y` after anything but a small vowel. -/
def endsInConsonantY : List Char → Bool
  | 'y' :: c :: _ => !isSmallVowel c
  | _ => false

/-- Holds of a reversed word that ends in `es` after a hissing sound. -/
def endsInHissingEs : List Char → Bool
  | 's' :: 'e' :: r => hisses r
  | _ => false

/-- The plural: unchanged after `s`, else `y` after a consonant becomes `ies`, a hissing end
takes `es`, and any other end takes `s`. -/
def pluralChars (w : List Char) : List Char :=
  if ['s'].isSuffixOf w then w
  else if endsInConsonantY (ending w) then w.dropLast ++ ['i', 'e', 's']
  else if hisses (ending w) then w ++ ['e', 's']
  else w ++ ['s']

/-- The singular: `ies` becomes `y`, `es` after a hissing sound goes, and so does any other
`s`. -/
def singularChars (w : List Char) : List Char :=
  if ['i', 'e', 's'].isSuffixOf w then w.take (w.length - 3) ++ ['y']
  else if endsInHissingEs (ending w) then w.take (w.length - 2)
  else if ['s'].isSuffixOf w then w.dropLast
  else w

/-- The plural of a word. -/
def pluralize (word : String) : String :=
  String.ofList (pluralChars word.toList)

/-- The singular of a word. -/
def singularize (word : String) : String :=
  String.ofList (singularChars word.toList)

/-! ### Words joined by underscores and words joined by capitals -/

/-- Holds between two characters, with `after` behind them, where a new word begins: at a
capital after a small letter or digit, and at the last of several capitals when a small letter
follows it. -/
def wordStarts (a b : Char) (after : List Char) : Bool :=
  b.isUpper && (a.isLower || a.isDigit || (a.isUpper && after.head?.any Char.isLower))

/-- The name with an underscore wherever a new word begins. -/
def markWords : List Char → List Char
  | a :: b :: r => if wordStarts a b r then a :: '_' :: markWords (b :: r)
  else a :: markWords (b :: r)
  | short => short

/-- Words joined by capitals as words joined by underscores: `BlogPost` becomes `blog_post`,
`HTTPLog` becomes `http_log`. -/
def snakeCase (name : String) : String :=
  Text.lower (String.ofList (markWords name.toList))

/-- The word with a capital at its start. -/
def capitalize : List Char → List Char
  | [] => []
  | c :: r => Text.capitalOf c ++ r

/-- Words joined by underscores as words joined by capitals: `blog_posts` becomes `BlogPosts`. -/
def pascalCase (name : String) : String :=
  String.ofList ((Text.cutChars '_' name.toList).flatMap capitalize)

/-! ### Tables and classes -/

/-- The table that a class is bound to unless it says otherwise. -/
def modelToTable (className : String) : String :=
  pluralize (snakeCase className)

/-- The class that a table is exported under: `posts` becomes `Post`, `role_user` becomes
`RoleUser`. -/
def tableToModel (tableName : String) : String :=
  pascalCase (singularize tableName)

/-! ### Columns -/

/-- The name of a table's own identifier. -/
def identifier : String := "id"

/-- How the names of columns that refer to another table end. -/
def referenceEnd : String := "_id"

/-- The columns that record when a row was made and last changed. -/
def auditColumns : List String := ["created_at", "updated_at"]

/-- A column's name without its reference ending, if it has one. -/
def referenceBase (column : String) : String :=
  (Text.beforeTail? referenceEnd column).getD column

/-- The table that a column refers to when nothing else is said: `user_id` refers to `users`. -/
def defaultTarget (column : String) : String :=
  pluralize (referenceBase column)

end SchemaAtlas.Naming
