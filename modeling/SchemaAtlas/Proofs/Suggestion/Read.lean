import Mathlib.Data.List.Nodup
import SchemaAtlas.Proofs.List
import SchemaAtlas.Suggestion.Basic

/-!
# `SchemaAtlas.Proofs.Suggestion.Read`: tables that are read from data

A table that is read from data names no column twice, and the types of its columns
say all about its references (`typedKeys_of_mem_tables`): those of the type for
references are flagged, and no other column is, and the foreign keys are those that
the names of these columns imply.
-/

set_option autoImplicit false

namespace SchemaAtlas.Suggestion

/-! ### Columns -/

/-- A column goes to the end of the columns if none of them has its name, and otherwise
nothing happens. -/
theorem addColumn_eq (columns : List Column) (c : Column) :
    addColumn columns c = if c.name ∈ columns.map Column.name then columns
      else columns ++ [c] := by
  have hiff : (columns.any fun other => other.name == c.name) = true
      ↔ c.name ∈ columns.map Column.name := by
    simp [List.any_eq_true]
  rw [addColumn]
  exact if_congr hiff rfl rfl

/-- Adding a column leaves names distinct, since a name that is taken is not added again. -/
theorem nodup_names_addColumn {columns : List Column} (h : (columns.map Column.name).Nodup)
    (c : Column) :
    ((addColumn columns c).map Column.name).Nodup := by
  rw [addColumn_eq]
  split
  · exact h
  · rename_i hnew
    rw [List.map_append, List.map_singleton, ← List.concat_eq_append]
    exact h.concat hnew

/-- No name stands twice among columns that are added one by one. -/
theorem nodup_foldl_addColumn (added columns : List Column)
    (h : (columns.map Column.name).Nodup) :
    ((added.foldl addColumn columns).map Column.name).Nodup :=
  List.foldlRecOn (motive := fun columns : List Column => (columns.map Column.name).Nodup)
    added _ h
    fun _ hd c _ => nodup_names_addColumn hd c

/-- What is among the columns once one is added is that column or was there before. -/
theorem mem_addColumn {columns : List Column} {c d : Column} (h : d ∈ addColumn columns c) :
    d = c ∨ d ∈ columns := by
  rw [addColumn_eq] at h
  split at h
  · exact .inr h
  · rw [List.mem_append, List.mem_singleton] at h
    exact h.symm

/-- What is among the columns once some are added is one of those or was there before. -/
theorem mem_foldl_addColumn {added columns : List Column} {c : Column}
    (hc : c ∈ added.foldl addColumn columns) : c ∈ columns ∨ c ∈ added :=
  mem_or_mem_of_mem_foldl (fun _ _ _ => mem_addColumn) hc

/-- The columns that are read are flagged as references by their type and by nothing
else. -/
theorem isForeign_of_columnOf? {item : Json} {c : Column} (h : columnOf? item = some c) :
    c.isForeign = (c.type == .foreignId) := by
  cases item with
  | object members =>
      rw [columnOf?] at h
      simp only [Option.bind_eq_bind, Option.bind_eq_some_iff, Option.pure_def] at h
      obtain ⟨name, -, h⟩ := h
      rw [← Option.some.inj h]
      exact (beq_eq_decide _ _).symm
  | _ => cases h

/-! ### Tables -/

/-- Holds of tables in which the types of columns say which of them are references, and
their names where these lead to. -/
structure TypedKeys (t : Table) : Prop where
  distinct : (t.columns.map Column.name).Nodup
  flags : ∀ c ∈ t.columns, c.isForeign = (c.type == .foreignId)
  keys : t.foreignKeys = t.columns.filterMap foreignKeyOf?

/-- In a table that is read, the foreign keys are those that the types and names of its
columns imply. -/
theorem typedKeys_tableOf (name : String) (items : List Json) :
    TypedKeys (tableOf name items) where
  distinct := nodup_foldl_addColumn _ [] List.nodup_nil
  flags c hc := by
    have hread := (mem_foldl_addColumn hc).resolve_left List.not_mem_nil
    obtain ⟨item, -, hitem⟩ := List.mem_filterMap.mp hread
    exact isForeign_of_columnOf? hitem
  keys := rfl

/-- A table that is read is the table of some items under its own name. -/
theorem exists_eq_tableOf {item : Json} {t : Table} (h : tableOf? item = .ok (some t)) :
    ∃ items, t = tableOf t.name items := by
  cases item with
  | object members =>
      rw [tableOf?] at h
      cases hname : nameOf? members with
      | none =>
          rw [hname] at h
          cases h
      | some name =>
          rw [hname] at h
          cases hitems : itemsOf (member members "columns") with
          | error failure =>
              simp only [hitems] at h
              cases h
          | ok items =>
              simp only [hitems] at h
              cases h
              exact ⟨items, rfl⟩
  | _ => cases h

/-- A payload that is read lists tables, and the tables of the suggestion are read from
its items. -/
theorem exists_mapM_of_ofPayload {members : Payload} {s : Suggestion}
    (h : ofPayload members = .ok s) :
    ∃ items found, member members "tables" = .array items ∧ items.mapM tableOf? = .ok found
      ∧ s.tables = found.filterMap id := by
  rw [ofPayload] at h
  split at h
  · rename_i items htables
    obtain ⟨found, hfound, h⟩ := exists_of_bind_eq_ok h
    cases h
    exact ⟨items, found, htables, hfound, rfl⟩
  · cases h

/-- The types of columns say all about the references of a suggestion that is read. -/
theorem typedKeys_of_mem_tables {members : Payload} {s : Suggestion}
    (h : ofPayload members = .ok s)
    {t : Table} (ht : t ∈ s.tables) : TypedKeys t := by
  obtain ⟨items, found, -, hfound, htables⟩ := exists_mapM_of_ofPayload h
  rw [htables] at ht
  obtain ⟨t?, ht?, rfl⟩ := List.mem_filterMap.mp ht
  obtain ⟨item, -, hitem⟩ := exists_of_mem_mapM hfound ht?
  obtain ⟨columns, hcolumns⟩ := exists_eq_tableOf hitem
  rw [hcolumns]
  exact typedKeys_tableOf t.name columns

end SchemaAtlas.Suggestion
