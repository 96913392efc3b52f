/-!
# `SchemaAtlas.Schema.Relation`: relations between classes and between tables

A relation is declared between two classes; an edge joins two tables. An edge that comes from a
column remembers the column.
-/

set_option autoImplicit false

namespace SchemaAtlas

/-- The four ways in which one record refers to others. -/
inductive RelationKind
  | hasMany
  | belongsTo
  | hasOne
  | belongsToMany
  deriving DecidableEq, Repr, Inhabited

namespace RelationKind

/-- All kinds. -/
def all : List RelationKind := [hasMany, belongsTo, hasOne, belongsToMany]

/-- The word that declares the kind. -/
def keyword : RelationKind → String
  | hasMany => "hasMany"
  | belongsTo => "belongsTo"
  | hasOne => "hasOne"
  | belongsToMany => "belongsToMany"

/-- The kind that a word declares. -/
def ofKeyword? (word : String) : Option RelationKind :=
  all.find? fun kind => kind.keyword == word

/-- Holds of the kinds that lead to at most one record. -/
def isSingular : RelationKind → Bool
  | belongsTo => true
  | hasOne => true
  | _ => false

end RelationKind

/-- A relation that one class declares to another, by a method of its own. -/
structure DeclaredRelation where
  fromModel : String
  kind : RelationKind
  toModel : String
  method : String := ""
  deriving DecidableEq, Repr, Inhabited

/-- A relation between two tables, and the column it comes from, if it comes from one. -/
structure Edge where
  source : String
  target : String
  kind : RelationKind
  column : Option String := none
  deriving DecidableEq, Repr, Inhabited

namespace Edge

/-- What the edge is known by beside its tables: the column if it has one with a name, else the
kind. -/
def label (e : Edge) : String :=
  match e.column with
  | some name => if name = "" then e.kind.keyword else name
  | none => e.kind.keyword

/-- The edge's name. -/
def id (e : Edge) : String :=
  e.source ++ "-" ++ e.target ++ "-" ++ e.label

/-- A name for the two tables that is the same in both directions. -/
def pairKey (e : Edge) : String :=
  if e.target < e.source then e.target ++ ":" ++ e.source else e.source ++ ":" ++ e.target

end Edge

end SchemaAtlas
