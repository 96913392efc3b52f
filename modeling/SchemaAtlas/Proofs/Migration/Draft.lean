import SchemaAtlas.Migration.Block
import SchemaAtlas.Proofs.Schema.Table

/-!
# `SchemaAtlas.Proofs.Migration.Draft`: gathering requests

A draft gathers requests one after another. Each of its parts depends on the
requests of one kind only, and the lemmas here say how: the columns are entered
in order, the keys of the declarations are entered in order, and what is
constrained, dropped or renamed is listed.
-/

set_option autoImplicit false

namespace SchemaAtlas.Migration

attribute [ext] Draft

namespace Request

/-- The name of the identifier that a request asks for. -/
def identified? : Request → Option String
  | identify name => some name
  | _ => none

/-- The column that a request declares. -/
def declared? : Request → Option Column
  | declare column => some column
  | _ => none

/-- The foreign key that a declaration comes with. -/
def referred? : Request → Option ForeignKey
  | refer fk => some fk
  | _ => none

/-- The foreign key that a request states apart. -/
def constrained? : Request → Option ForeignKey
  | constrain fk => some fk
  | _ => none

/-- The columns that a request takes away. -/
def droppedColumns : Request → List String
  | drop names => names
  | _ => []

/-- The foreign keys that a request takes away. -/
def droppedKeys : Request → List String
  | dropForeign names => names
  | _ => []

/-- The new name that a request gives a column. -/
def renamed? : Request → Option (String × String)
  | rename old new => some (old, new)
  | _ => none

end Request

namespace Draft

variable (requests : List Request) (d : Draft)

/-- The identifier of a draft is the last one that was asked for, or that of the draft
before. -/
theorem identifier_foldl_add :
    (requests.foldl add d).identifier
      = (requests.filterMap Request.identified?).getLast?.or d.identifier := by
  induction requests generalizing d with
  | nil => rfl
  | cons r requests ih =>
      rw [List.foldl_cons, ih]
      cases r with
      | identify name =>
          show _ = ((name :: requests.filterMap Request.identified?).getLast?).or d.identifier
          rw [List.getLast?_cons]
          cases (requests.filterMap Request.identified?).getLast? with
          | none => rfl
          | some n => rfl
      | _ => rfl

/-- The columns of a draft are those that were declared, each put in the place of one of its
name or at the end. -/
theorem columns_foldl_add :
    (requests.foldl add d).columns
      = (requests.filterMap Request.declared?).foldl (fun columns c => putColumn c columns)
          d.columns := by
  rw [List.foldl_filterMap]
  exact (List.foldl_hom columns fun _ r => by cases r <;> rfl).symm

/-- The keys of a draft are those that were declared with a column, each put at the end in
place of any on the same column. -/
theorem foreignKeys_foldl_add :
    (requests.foldl add d).foreignKeys
      = (requests.filterMap Request.referred?).foldl (fun fks fk => putForeignKey fk fks)
          d.foreignKeys := by
  rw [List.foldl_filterMap]
  exact (List.foldl_hom foreignKeys fun _ r => by cases r <;> rfl).symm

/-- A part of a draft that lists what each request says has all that is said, in order,
behind what was in it. -/
theorem listed_foldl_add {α : Type} {part : Draft → List α} {asked : Request → List α}
    (hadd : ∀ d r, part (add d r) = part d ++ asked r) :
    part (requests.foldl add d) = part d ++ requests.flatMap asked := by
  have hparts : requests.foldl (fun l r => l ++ asked r) (part d) = part (requests.foldl add d) :=
    List.foldl_hom part fun d r => (hadd d r).symm
  rw [← hparts, List.foldl_append_eq_append, List.flatMap]

/-- The constraints of a draft are all that were stated apart from a column, in order. -/
theorem constraints_foldl_add :
    (requests.foldl add d).constraints
      = d.constraints ++ requests.filterMap Request.constrained? := by
  rw [List.filterMap_eq_flatMap_toList]
  exact listed_foldl_add requests d fun d r => by cases r <;> simp [add, Request.constrained?]

/-- The columns to be taken away are all that were named for it, in order. -/
theorem dropped_foldl_add :
    (requests.foldl add d).dropped = d.dropped ++ requests.flatMap Request.droppedColumns :=
  listed_foldl_add requests d fun d r => by cases r <;> simp [add, Request.droppedColumns]

/-- The foreign keys to be taken away are all that were named for it, in order. -/
theorem droppedForeign_foldl_add :
    (requests.foldl add d).droppedForeign
      = d.droppedForeign ++ requests.flatMap Request.droppedKeys :=
  listed_foldl_add requests d fun d r => by cases r <;> simp [add, Request.droppedKeys]

/-- The renamings of a draft are all that were asked for, in order. -/
theorem renamed_foldl_add :
    (requests.foldl add d).renamed = d.renamed ++ requests.filterMap Request.renamed? := by
  rw [List.filterMap_eq_flatMap_toList]
  exact listed_foldl_add requests d fun d r => by cases r <;> simp [add, Request.renamed?]

/-- What is gathered from requests, part by part. Each part depends on the requests of its
own kind alone. -/
theorem foldl_add_eq :
    requests.foldl add {}
      = { identifier := (requests.filterMap Request.identified?).getLast?
          columns := (requests.filterMap Request.declared?).foldl (fun columns c =>
            putColumn c columns) []
          foreignKeys :=
            (requests.filterMap Request.referred?).foldl (fun fks fk => putForeignKey fk fks) []
          constraints := requests.filterMap Request.constrained?
          dropped := requests.flatMap Request.droppedColumns
          droppedForeign := requests.flatMap Request.droppedKeys
          renamed := requests.filterMap Request.renamed? } := by
  refine Draft.ext ?_ (columns_foldl_add requests {}) (foreignKeys_foldl_add requests {}) ?_
    ?_ ?_ ?_
  · rw [identifier_foldl_add, Option.or_none]
  · rw [constraints_foldl_add, List.nil_append]
  · rw [dropped_foldl_add, List.nil_append]
  · rw [droppedForeign_foldl_add, List.nil_append]
  · rw [renamed_foldl_add, List.nil_append]

/-- No name stands twice among the columns of a draft, whatever was requested, since a
column takes the place of one of its name and the identifier comes first. -/
theorem nodup_orderedColumns (statements : List Statement) :
    ((ofStatements statements).orderedColumns.map Column.name).Nodup := by
  have hcolumns : ((ofStatements statements).columns.map Column.name).Nodup := by
    rw [ofStatements, foldl_add_eq]
    exact nodup_names_foldl_putColumn _ List.nodup_nil
  rw [orderedColumns]
  split
  · exact hcolumns
  · -- the identifier stands in front, and a column of its name gives way
    rw [List.map_cons, List.nodup_cons]
    refine ⟨fun hm => ?_, (List.filter_sublist.map Column.name).nodup hcolumns⟩
    obtain ⟨c, hc, hname⟩ := List.mem_map.mp hm
    exact bne_iff_ne.mp (List.mem_filter.mp hc).2 hname

/-- Nor does one after columns were flagged for stated keys, as flags give no other
names. -/
theorem nodup_finalColumns (statements : List Statement) :
    ((ofStatements statements).finalColumns.map Column.name).Nodup := by
  have hflags : (ofStatements statements).finalColumns.map Column.name
      = (ofStatements statements).orderedColumns.map Column.name :=
    map_foldl_flag (fun _ => rfl) _ _
  rw [hflags]
  exact nodup_orderedColumns statements

end Draft

/-- No name stands twice among the columns of a block that is read from any text. -/
theorem nodup_columns_of_mem_blocks {text : String} {b : Block} (hb : b ∈ blocks text) :
    (b.columns.map Column.name).Nodup := by
  obtain ⟨c, -, rfl⟩ := List.mem_map.mp hb
  exact Draft.nodup_finalColumns _

end SchemaAtlas.Migration
