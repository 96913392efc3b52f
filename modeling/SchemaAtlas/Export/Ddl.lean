import SchemaAtlas.Export.Order

/-!
# `SchemaAtlas.Export.Ddl`: tables as statements of the database

One statement makes one table: its columns, the two audit columns, its primary key unless a
single column carries it, and a named constraint for each foreign key.
-/

set_option autoImplicit false

namespace SchemaAtlas.Export

/-- A name between the database's own quotes. -/
def ddlName (name : String) : String := "\x60" ++ name ++ "\x60"

/-- How the database spells a column type. -/
def ddlType : ColumnType → String
  | .id => "BIGINT AUTO_INCREMENT"
  | .foreignId => "BIGINT"
  | .uuid => "CHAR(36)"
  | .string => "VARCHAR(255)"
  | .text => "TEXT"
  | .integer => "INT"
  | .bigInteger => "BIGINT"
  | .unsignedBigInteger => "BIGINT UNSIGNED"
  | .boolean => "BOOLEAN"
  | .decimal => "DECIMAL(8, 2)"
  | .float => "FLOAT"
  | .date => "DATE"
  | .dateTime => "DATETIME"
  | .timestamp => "TIMESTAMP"
  | .time => "TIME"
  | .json => "JSON"
  | .binary => "BLOB"

/-- The columns of the primary key. -/
def primaryColumns (t : Table) : List Column :=
  t.columns.filter Column.isPrimary

/-- Holds when the primary key stands with its column: it is a single column, and not one that
counts up by itself. -/
def hasInlinePrimary (t : Table) : Bool :=
  match primaryColumns t with
  | [c] => c.type != .id
  | _ => false

/-- The clause of a column. -/
def columnClause (inlinePrimary : Bool) (c : Column) : String :=
  "  " ++ ddlName c.name ++ " " ++ ddlType c.type ++ (if c.nullable then "" else " NOT NULL")
    ++ (if inlinePrimary && c.isPrimary then " PRIMARY KEY" else "")

/-- The clause of an audit column. -/
def auditClause (name : String) : String :=
  "  " ++ ddlName name ++ " TIMESTAMP NULL DEFAULT NULL"

/-- The names of the columns that the statement declares, in order. -/
def declaredNames (t : Table) : List String :=
  t.columns.map Column.name ++ Naming.auditColumns

/-- The clause of the primary key, unless it stands with its column or there is none. -/
def primaryClauses (t : Table) : List String :=
  if (primaryColumns t).isEmpty || hasInlinePrimary t then []
  else ["  PRIMARY KEY (" ++ ", ".intercalate ((primaryColumns t).map fun c => ddlName c.name)
    ++ ")"]

/-- The clause of a foreign key. -/
def constraintClause (table : String) (fk : ForeignKey) : String :=
  "  CONSTRAINT " ++ ddlName ("fk_" ++ table ++ "_" ++ fk.column) ++ " FOREIGN KEY ("
    ++ ddlName fk.column ++ ") REFERENCES " ++ ddlName fk.target ++ " ("
    ++ ddlName Naming.identifier
    ++ ") ON DELETE CASCADE"

/-- The clauses of a table's statement. -/
def clauses (t : Table) : List String :=
  t.columns.map (columnClause (hasInlinePrimary t)) ++ Naming.auditColumns.map auditClause
    ++ primaryClauses t ++ t.foreignKeys.map (constraintClause t.name)

/-- The statement that makes a table. -/
def createStatement (t : Table) : String :=
  "CREATE TABLE " ++ ddlName t.name ++ " (\n" ++ ",\n".intercalate (clauses t)
    ++ "\n) ENGINE=InnoDB DEFAULT CHARSET=utf8mb4 COLLATE=utf8mb4_unicode_ci;"

/-- The statements that make all tables of a schema, each after those it refers to. -/
def ddl (s : Snapshot) : Except Failure String := do
  let tables ← ordered s
  return "\n".intercalate
    (["-- MySQL Schema (Generated by LaraFlow)", "-- Tables: " ++ toString s.tables.size, ""]
      ++ tables.flatMap fun t => [createStatement t, ""])

end SchemaAtlas.Export
