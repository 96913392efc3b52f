import SchemaAtlas.Schema.Snapshot

/-!
# `SchemaAtlas.Export.Interface`: tables as interfaces of the page

One interface describes the records of one table as the page receives them. The audit columns
are always among the members.
-/

set_option autoImplicit false

namespace SchemaAtlas.Export

/-- How the page's language spells a column type. -/
def memberType : ColumnType → String
  | .id | .foreignId | .integer | .bigInteger | .unsignedBigInteger | .decimal | .float =>
    "number"
  | .uuid | .string | .text | .date | .dateTime | .timestamp | .time | .binary => "string"
  | .boolean => "boolean"
  | .json => "Record<string, unknown>"

/-- The member of a column. -/
def memberLine (c : Column) : String :=
  "  " ++ c.name ++ (if c.nullable then "?" else "") ++ ": " ++ memberType c.type ++ ";"

/-- The member of an audit column, unless the table declares the column itself. -/
def auditLine? (t : Table) (name : String) : Option String :=
  if t.hasColumn name then none else some ("  " ++ name ++ "?: string;")

/-- The interface of a table. -/
def tableInterface (t : Table) : String :=
  "\n".intercalate
    (["export interface " ++ Naming.tableToModel t.name ++ " \x7b"] ++ t.columns.map memberLine
      ++ Naming.auditColumns.filterMap (auditLine? t) ++ ["\x7d"])

/-- The interfaces of all tables. -/
def interfaces (s : Snapshot) : String :=
  "\n\n".intercalate ("// Generated by LaraFlow" :: s.tables.values.map tableInterface) ++ "\n"

end SchemaAtlas.Export
