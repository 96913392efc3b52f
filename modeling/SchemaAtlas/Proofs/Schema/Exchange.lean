import SchemaAtlas.Proofs.Schema.History

/-!
# `SchemaAtlas.Proofs.Schema.Exchange`: migrations that can trade places

Migrations are applied in the order of their names. The order matters only among
migrations that speak about one table: a migration that does not speak about a table
leaves what is told of it (`told_applyMigration_of_notMem`), and what the other one makes
of the table depends on nothing else that the history tells (`told_applyMigration`). So
two migrations that speak about different tables can be applied in either order
(`sameByName_applyMigration`).

It is by their names that the tables are the same. They stand in the order in which they
were first entered, as do the lines in the record of changes, so the one history may be
a rearrangement of the other.
-/

set_option autoImplicit false

namespace SchemaAtlas.History

open SchemaAtlas.Migration

/-- The tables that the blocks of the way forward speak about. -/
def forwardTables (bs : List Block) : List String :=
  (bs.filter fun b => !b.reverse).map Block.table

/-- Holds of histories in which each name stands for the same table, column by column and
key by key, and for the same files. -/
structure SameByName (h h' : History) : Prop where
  tables : ∀ name, h.snapshot.tables.get? name = h'.snapshot.tables.get? name
  sources : ∀ name, h.snapshot.sources.get? name = h'.snapshot.sources.get? name

/-- Two histories that tell the same of every table have the same tables and sources by
name, in whatever order they have them. -/
theorem sameByName_of_told {h h' : History} (htold : ∀ table, h.told table = h'.told table) :
    SameByName h h' where
  tables := fun name => congrArg Prod.fst (htold name)
  sources := fun name => congrArg Prod.snd (htold name)

/-- A migration that does not speak about a table leaves what is told of it. -/
theorem told_applyMigration_of_notMem {bs : List Block} {table : String}
    (htable : table ∉ forwardTables bs)
    (h : History) (path : String) : (h.applyMigration bs path).told table = h.told table := by
  have hnone : (bs.filter fun b => !b.reverse && b.table == table) = [] := by
    refine List.filter_eq_nil_iff.mpr fun b hb hpart => htable ?_
    rw [Bool.and_eq_true, beq_iff_eq] at hpart
    exact List.mem_map.mpr ⟨b, List.mem_filter.mpr ⟨hb, hpart.1⟩, hpart.2⟩
  rw [told_applyMigration, hnone, List.foldl_nil]

/-- Two migrations that speak about different tables on the way forward can be applied in
either order, whatever the history before them is. -/
theorem sameByName_applyMigration (h : History) {bs ds : List Block} (path path' : String)
    (hapart : ∀ table ∈ forwardTables bs, table ∉ forwardTables ds) :
    SameByName ((h.applyMigration bs path).applyMigration ds path')
      ((h.applyMigration ds path').applyMigration bs path) := by
  refine sameByName_of_told fun table => ?_
  by_cases hmem : table ∈ forwardTables bs
  · -- the other migration passes the table by, before and after
    have hother := hapart table hmem
    rw [told_applyMigration_of_notMem hother, told_applyMigration _ bs, told_applyMigration _ bs,
      told_applyMigration_of_notMem hother]
  · rw [told_applyMigration_of_notMem hmem, told_applyMigration _ ds, told_applyMigration _ ds,
      told_applyMigration_of_notMem hmem]

/-- A history of two tables, of which one refers to the other. -/
def postsHistory : History where
  snapshot := {
    tables := .ofList [
      ("users", ⟨"users", [⟨"id", .id, true, false, false⟩], []⟩),
      ("posts", ⟨"posts", [⟨"user_id", .foreignId, false, true, false⟩], [⟨"user_id", "users"⟩]⟩)]
    sources := .ofList [("users", ["1_users.php"]), ("posts", ["2_posts.php"])] }

/-- A migration that renames the column, takes its key away by the name of the index, and
creates the other table again. It goes back by dropping a column of a third table. -/
def authorBlocks : List Block :=
  [{ table := "posts", kind := .alter, renamed := [("user_id", "author_id")]
     droppedForeign := ["posts_author_id_foreign"] },
   { table := "users", kind := .create, columns := [⟨"name", .string, false, false, false⟩] },
   { table := "tags", kind := .alter, dropped := ["label"], reverse := true }]

/-- A migration that creates the third table and alters it, and one that is not there. It
goes back by altering the first one. -/
def labelBlocks : List Block :=
  [{ table := "tags", kind := .create, columns := [⟨"id", .id, true, false, false⟩] },
   { table := "tags", kind := .alter, columns := [⟨"label", .text, false, false, true⟩] },
   { table := "votes", kind := .alter, dropped := ["id"] },
   { table := "posts", kind := .alter, dropped := ["user_id"], reverse := true }]

/-- One migration gives a column of the posts another name and creates the users, the other
creates the tags. In either order, every table comes out the same. -/
theorem sameByName_applyMigration_posts :
    (∀ table ∈ forwardTables authorBlocks, table ∉ forwardTables labelBlocks)
      ∧ SameByName
        ((postsHistory.applyMigration authorBlocks "3_author.php").applyMigration labelBlocks
          "4_label.php")
        ((postsHistory.applyMigration labelBlocks "4_label.php").applyMigration authorBlocks
          "3_author.php")
      ∧ ((postsHistory.applyMigration authorBlocks "3_author.php").applyMigration labelBlocks
        "4_label.php").told
          "posts"
        = (some ⟨"posts", [⟨"author_id", .foreignId, false, false, false⟩], []⟩,
          some ["2_posts.php", "3_author.php"]) := by
  have hapart : ∀ table ∈ forwardTables authorBlocks, table ∉ forwardTables labelBlocks := by
    decide
  exact ⟨hapart, sameByName_applyMigration postsHistory _ _ hapart, by decide +kernel⟩

end SchemaAtlas.History
