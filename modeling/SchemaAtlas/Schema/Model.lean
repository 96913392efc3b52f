import SchemaAtlas.Naming
import SchemaAtlas.Schema.Relation

/-!
# `SchemaAtlas.Schema.Model`: classes that stand for tables

A model is correlated with its table by the table's name only. It names the table itself or goes
by the naming convention.
-/

set_option autoImplicit false

namespace SchemaAtlas

/-- A relation as a method of a class: what the method is called, and the class it leads to. -/
structure ModelRelation where
  method : String
  kind : RelationKind
  target : String
  deriving DecidableEq, Repr, Inhabited

/-- A class that stands for a table. -/
structure Model where
  className : String
  tableName : String
  isExplicit : Bool := false
  relations : List ModelRelation := []
  path : String := ""
  deriving DecidableEq, Repr, Inhabited

/-- The model of a class; without a table name of its own the class is bound by convention. -/
def Model.bind (className table : String) (isExplicit : Bool) (relations : List ModelRelation)
    (path : String) : Model where
  className := className
  tableName := if table = "" then Naming.modelToTable className else table
  isExplicit := isExplicit
  relations := relations
  path := path

/-- The relations of a model as declared between classes. -/
def Model.declared (m : Model) : List DeclaredRelation :=
  m.relations.map fun r => ⟨m.className, r.kind, r.target, r.method⟩

end SchemaAtlas
