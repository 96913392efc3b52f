import SchemaAtlas.Calendar.Moment
import SchemaAtlas.Migration.Render

/-!
# `SchemaAtlas.Migration.File`: whole migrations

A migration is named by a moment and by the table it creates. A batch of migrations is named by
moments a second apart, so that the order of names is the order in which they were made.
-/

set_option autoImplicit false

namespace SchemaAtlas.Migration

/-- The folder of migrations in a project. -/
def folder : String := "database/migrations"

/-- The name of the migration that creates a table. -/
def fileName (table : String) (moment : Moment) : String :=
  moment.stamp ++ "_create_" ++ table ++ "_table.php"

/-- The names of a batch of migrations, the first made at the given moment. There are none if
the calendar ends before the batch does. -/
def fileNames? : Moment → List String → Option (List String)
  | _, [] => some []
  | moment, [table] => some [fileName table moment]
  | moment, table :: rest => do
    let names ← fileNames? (← moment.next?) rest
    return fileName table moment :: names

/-- What comes before the statements in a migration. -/
def opening (table : String) : String :=
  "<?php\n\nuse Illuminate\\Database\\Migrations\\Migration;\n"
    ++ "use Illuminate\\Database\\Schema\\Blueprint;\n"
    ++ "use Illuminate\\Support\\Facades\\Schema;\n\n"
    ++ "return new class extends Migration\n\x7b\n"
    ++ "    /**\n     * Run the migrations.\n     */\n"
    ++ "    public function up(): void\n    \x7b\n"
    ++ "        Schema::create('" ++ table ++ "', function (Blueprint $table) \x7b\n"

/-- What comes after the statements in a migration. -/
def closing (table : String) : String :=
  "        \x7d);\n    \x7d\n\n"
    ++ "    /**\n     * Reverse the migrations.\n     */\n"
    ++ "    public function down(): void\n    \x7b\n"
    ++ "        Schema::dropIfExists('" ++ table ++ "');\n    \x7d\n\x7d;\n"

/-- The statements of a table, each on a line with this in front. -/
def statementLines (indent : String) (statements : List String) : String :=
  String.join (statements.map fun s => indent ++ s ++ "\n")

/-- The builder's variable in migrations that are made here. -/
def usualBuilder : String := "table"

/-- The migration that creates a table. -/
def source (t : Table) : String :=
  opening t.name
    ++ statementLines "            " (tableStatements usualBuilder t.columns t.foreignKeys)
    ++ closing t.name

end SchemaAtlas.Migration
