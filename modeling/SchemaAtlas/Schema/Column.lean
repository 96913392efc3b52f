import SchemaAtlas.Naming

/-!
# `SchemaAtlas.Schema.Column`: columns and their types

A column type is one of seventeen meanings, each named by the builder method that declares it.
Other builder methods are spellings of the same meanings: `bigIncrements` declares an
identifier, `char` a string.
-/

set_option autoImplicit false

namespace SchemaAtlas

/-- What a column holds. `id` is the identifier that the database counts up by itself. -/
inductive ColumnType
  | id
  | foreignId
  | uuid
  | string
  | text
  | integer
  | bigInteger
  | unsignedBigInteger
  | boolean
  | decimal
  | float
  | date
  | dateTime
  | timestamp
  | time
  | json
  | binary
  deriving DecidableEq, Repr, Inhabited

namespace ColumnType

/-- All column types. -/
def all : List ColumnType :=
  [id, foreignId, uuid, string, text, integer, bigInteger, unsignedBigInteger, boolean, decimal,
    float,
    date, dateTime, timestamp, time, json, binary]

/-- The builder method that a type is named by. -/
def method : ColumnType → String
  | id => "id"
  | foreignId => "foreignId"
  | uuid => "uuid"
  | string => "string"
  | text => "text"
  | integer => "integer"
  | bigInteger => "bigInteger"
  | unsignedBigInteger => "unsignedBigInteger"
  | boolean => "boolean"
  | decimal => "decimal"
  | float => "float"
  | date => "date"
  | dateTime => "dateTime"
  | timestamp => "timestamp"
  | time => "time"
  | json => "json"
  | binary => "binary"

/-- The type that is named by a method. -/
def ofMethod? (name : String) : Option ColumnType :=
  all.find? fun type => type.method == name

/-- Every builder method that declares a column, with the type it declares. -/
def builderMethods : List (String × ColumnType) :=
  [("id", id), ("bigIncrements", id), ("increments", id), ("foreignId", foreignId),
    ("uuid", uuid),
    ("ulid", uuid), ("foreignUuid", uuid), ("string", string), ("char", string), ("enum", string),
    ("set", string), ("ipAddress", string), ("macAddress", string), ("text", text),
    ("tinyText", text), ("mediumText", text), ("longText", text), ("integer", integer),
    ("tinyInteger", integer), ("smallInteger", integer), ("mediumInteger", integer),
    ("unsignedInteger", integer), ("unsignedTinyInteger", integer),
    ("unsignedSmallInteger", integer), ("bigInteger", bigInteger),
    ("unsignedBigInteger", unsignedBigInteger), ("boolean", boolean), ("decimal", decimal),
    ("unsignedDecimal", decimal), ("float", float), ("double", float), ("date", date),
    ("dateTime", dateTime), ("dateTimeTz", dateTime), ("timestamp", timestamp),
    ("timestampTz", timestamp), ("time", time), ("timeTz", time), ("year", integer),
    ("json", json),
    ("jsonb", json), ("binary", binary)]

/-- The type that a builder method declares; none if the method declares no column. -/
def ofBuilder? (name : String) : Option ColumnType :=
  builderMethods.lookup name

/-- The type that a word from outside means: a builder method, in capital or small letters. -/
def ofToken? (token : String) : Option ColumnType :=
  match ofBuilder? token with
  | some type => some type
  | none =>
    let small := Text.lower token
    (builderMethods.find? fun entry => Text.lower entry.1 == small).map Prod.snd

end ColumnType

/-- A column of a table. The two key flags say that it belongs to the primary key and that it
refers to another table. -/
structure Column where
  name : String
  type : ColumnType
  isPrimary : Bool := false
  isForeign : Bool := false
  nullable : Bool := false
  deriving DecidableEq, Repr, Inhabited

/-- A constraint: the values of `column` are identifiers in the table `target`. -/
structure ForeignKey where
  column : String
  target : String
  deriving DecidableEq, Repr, Inhabited

end SchemaAtlas
