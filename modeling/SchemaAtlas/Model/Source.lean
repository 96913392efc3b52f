import SchemaAtlas.Schema.Snapshot

/-!
# `SchemaAtlas.Model.Source`: tables as classes

A class is made for a table: it names its table and has a method for each relation. An edge that
leaves the table becomes such a method, named after the table it leads to, in the singular when
it leads to at most one record.
-/

set_option autoImplicit false

namespace SchemaAtlas.Model

/-- The folder of models in a project. -/
def folder : String := "app/Models"

/-- What stands between classes that are shown together. -/
def separator : String := "\n\n// -----------------------------------------\n\n"

/-- The relations of a list that get a method: those with a method name, and of several under
one name the first. -/
def distinctMethods (seen : List String) : List DeclaredRelation → List DeclaredRelation
  | [] => []
  | r :: rest =>
    if r.method = "" ∨ r.method ∈ seen then distinctMethods seen rest
    else r :: distinctMethods (r.method :: seen) rest

/-- The method of a relation. -/
def methodSource (r : DeclaredRelation) : String :=
  "    public function " ++ r.method ++ "()\n    \x7b\n        return $this->" ++ r.kind.keyword
    ++ "("
    ++ r.toModel ++ "::class);\n    \x7d"

/-- The class of a table. -/
def source (className table : String) (relations : List DeclaredRelation) : String :=
  let methods := (distinctMethods [] relations).map methodSource
  "<?php\n\nnamespace App\\Models;\n\n"
    ++ "use Illuminate\\Database\\Eloquent\\Factories\\HasFactory;\n"
    ++ "use Illuminate\\Database\\Eloquent\\Model;\n\n"
    ++ "class " ++ className ++ " extends Model\n\x7b\n    use HasFactory;\n\n"
    ++ "    protected $table = '" ++ table ++ "';\n\n    protected $guarded = [];\n"
    ++ (if methods.isEmpty then "" else "\n" ++ "\n\n".intercalate methods ++ "\n") ++ "\x7d\n"

/-- The relation that an edge becomes in the class of the table it leaves. -/
def relationOfEdge (e : Edge) : DeclaredRelation where
  fromModel := Naming.tableToModel e.source
  kind := e.kind
  toModel := Naming.tableToModel e.target
  method := if e.kind.isSingular then Naming.singularize e.target else e.target

/-- The relations of a table's class. -/
def relationsOfTable (table : String) (edges : List Edge) : List DeclaredRelation :=
  (edges.filter fun e => e.source == table).map relationOfEdge

/-- The class of a table, with a method for each edge that leaves it. -/
def tableSource (edges : List Edge) (t : Table) : String :=
  source (Naming.tableToModel t.name) t.name (relationsOfTable t.name edges)

/-- The file name of a class. -/
def fileName (className : String) : String := className ++ ".php"

/-- The files of all tables' classes: path and content. -/
def files (s : Snapshot) (edges : List Edge) : List (String × String) :=
  s.tables.values.map fun t =>
    (folder ++ "/" ++ fileName (Naming.tableToModel t.name), tableSource edges t)

/-- The classes of all tables, shown together. -/
def sources (s : Snapshot) (edges : List Edge) : String :=
  separator.intercalate ((files s edges).map Prod.snd)

end SchemaAtlas.Model
