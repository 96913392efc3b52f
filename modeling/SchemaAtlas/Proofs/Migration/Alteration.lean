import SchemaAtlas.Migration.Alteration
import SchemaAtlas.Proofs.Schema.Table

/-!
# `SchemaAtlas.Proofs.Migration.Alteration`: columns under alterations

An alteration leaves a column alone unless it takes it away or gives it another
name (`Block.Keeps`, `exists_like_alter`), and a column comes into a table only if
the alteration declares it or gives another column its name (`Block.Brings`,
`mem_names_alter`). Whatever it does, no name stands twice afterwards
(`nodup_names_alter`).
-/

set_option autoImplicit false

namespace SchemaAtlas

/-! ### What a block does to a name -/

/-- Holds of an alteration that leaves a table's column of the name where it is. Of its
renames only those count that take place in the table. -/
def Migration.Block.Keeps (b : Migration.Block) (t : Table) (name : String) : Prop :=
  name ∉ b.dropped ∧ name ∉ (t.takenRenames b.renamed).map Prod.fst

/-- Holds of an alteration that brings the table a column of the name. -/
def Migration.Block.Brings (b : Migration.Block) (t : Table) (name : String) : Prop :=
  name ∈ b.columns.map Column.name ∨ name ∈ (t.takenRenames b.renamed).map Prod.snd

instance (b : Migration.Block) (t : Table) (name : String) : Decidable (b.Keeps t name) :=
  inferInstanceAs (Decidable (_ ∧ _))

instance (b : Migration.Block) (t : Table) (name : String) : Decidable (b.Brings t name) :=
  inferInstanceAs (Decidable (_ ∨ _))

/-- Holds of two columns that are the same but for their flags. -/
def Column.Like (c d : Column) : Prop :=
  c.name = d.name ∧ c.type = d.type ∧ c.nullable = d.nullable

namespace Table

/-- A table has a column of a name exactly if the name is among those of its columns. -/
theorem hasColumn_iff (t : Table) (name : String) :
    t.hasColumn name = true ↔ name ∈ t.columns.map Column.name := by
  rw [hasColumn, List.any_eq_true, List.mem_map]
  simp only [beq_iff_eq]

/-- A column can be renamed if it is there and the new name is free. Any other renaming is
passed over. -/
theorem canRename_iff (t : Table) (old new : String) :
    t.canRename old new = true
      ↔ old ∈ t.columns.map Column.name ∧ new ∉ t.columns.map Column.name := by
  rw [canRename, Bool.and_eq_true, Bool.not_eq_true', ← Bool.not_eq_true, hasColumn_iff,
    hasColumn_iff]

/-! ### Columns that stay -/

/-- What holds of a table and outlasts the renames that take place holds after all of
them. -/
theorem of_renameColumns {p : Table → Prop} {t : Table} {renames : List (String × String)}
    (ht : p t)
    (hstep : ∀ r ∈ t.takenRenames renames, ∀ u, p u → p (u.renameColumn r.1 r.2)) :
    p (t.renameColumns renames) := by
  induction renames generalizing t with
  | nil => exact ht
  | cons r renames ih =>
      show p ((t.renameColumn r.1 r.2).renameColumns renames)
      rw [takenRenames] at hstep
      split at hstep
      · exact ih (hstep r List.mem_cons_self t ht) fun d hd => hstep d (List.mem_cons_of_mem r hd)
      · rename_i hcan
        -- a rename that does not take place leaves the table as it is
        have hstays : t.renameColumn r.1 r.2 = t := if_neg hcan
        rw [hstays] at hstep ⊢
        exact ih ht hstep

section Stay

variable {t : Table} {c : Column}

/-- Renaming a column leaves every column of another name as it is. -/
theorem mem_columns_renameColumn (hc : c ∈ t.columns) {old new : String} (hold : c.name ≠ old) :
    c ∈ (t.renameColumn old new).columns := by
  rw [renameColumn]
  split
  · exact mem_updateColumn hc fun hname => absurd hname hold
  · exact hc

/-- Renaming columns one after another leaves a column as it is if none of the renamings
that take place starts from its name. -/
theorem mem_columns_renameColumns {renames : List (String × String)} (hc : c ∈ t.columns)
    (hrenames : c.name ∉ (t.takenRenames renames).map Prod.fst) :
    c ∈ (t.renameColumns renames).columns :=
  of_renameColumns (p := fun t => c ∈ t.columns) hc fun r hr _ hu =>
    mem_columns_renameColumn hu fun hname => hrenames (List.mem_map.mpr ⟨r, hr, hname.symm⟩)

/-- Taking columns away leaves every column of another name as it is. -/
theorem mem_columns_dropColumns {names : List String} (hc : c ∈ t.columns)
    (hnames : c.name ∉ names) :
    c ∈ (t.dropColumns names).columns :=
  List.mem_filter.mpr ⟨hc, by simpa using hnames⟩

end Stay

/-- Taking foreign keys away changes no more of the columns than their flags, so whatever
does not depend on the flag is as before. -/
theorem map_columns_dropForeignKeys {β : Type} {g : Column → β}
    (hg : ∀ c : Column, g { c with isForeign := false } = g c) (t : Table)
    (entries : List String) :
    (t.dropForeignKeys entries).columns.map g = t.columns.map g :=
  -- which columns the entries mean is settled before the first key goes
  apply_foldl (g := fun u : Table => u.columns.map g)
    (fun column _ u => map_updateColumn hg column u.columns) t

/-- Taking the foreign keys of some columns away takes them and the flags of the columns. -/
theorem foldl_dropForeignKey {t : Table} (hd : (t.columns.map Column.name).Nodup)
    (names : List String) :
    names.foldl dropForeignKey t
      = { t with
          columns := t.columns.map fun c => if c.name ∈ names then { c with isForeign := false }
            else c
          foreignKeys := t.foreignKeys.filter fun fk => !names.contains fk.column } := by
  -- the columns and the keys go their ways
  have hparts : ∀ u : Table, names.foldl dropForeignKey u
      = { u with
          columns := names.foldl
            (fun columns name =>
              updateColumn name (fun c => { c with isForeign := false }) columns) u.columns
          foreignKeys := u.foreignKeys.filter fun fk => !names.contains fk.column } := by
    induction names with
    | nil => simp
    | cons name names ih =>
        intro u
        rw [List.foldl_cons, ih, dropForeignKey, List.filter_filter]
        congr 1
        refine List.filter_congr fun fk _ => ?_
        rw [List.contains_cons, Bool.not_or, Bool.and_comm]
        rfl
  rw [hparts, foldl_updateColumn_of_nodup (f := fun c => { c with isForeign := false })
    (fun _ => rfl) (fun _ => rfl)
    names hd]

/-- A column that is not taken away, not renamed and not declared anew stays but
for its flags. -/
theorem exists_like_alter {t : Table} {b : Migration.Block} {c : Column} (hc : c ∈ t.columns)
    (hb : b.Keeps t c.name) (hdeclared : c.name ∉ b.columns.map Column.name) :
    ∃ d ∈ (t.alter b).columns, d.Like c := by
  have hkept := mem_columns_dropColumns (mem_columns_renameColumns hc hb.2) hb.1
  -- from here on it may lose its flag
  have hlike := List.mem_map_of_mem (f := fun c : Column => (c.name, c.type, c.nullable)) hkept
  rw [← map_columns_dropForeignKeys (fun _ => rfl) _ b.droppedForeign] at hlike
  obtain ⟨d, hd, heq⟩ := List.mem_map.mp hlike
  obtain ⟨hname, htype, hnullable⟩ : d.name = c.name ∧ d.type = c.type
    ∧ d.nullable = c.nullable := by
    simpa using heq
  have hstays : ∀ e ∈ b.columns, e.name = d.name → e = d := fun e he hed =>
    absurd (List.mem_map.mpr ⟨e, he, hed.trans hname⟩) hdeclared
  exact ⟨d, mem_foldl_putColumn_of_eq hd hstays, hname, htype, hnullable⟩

/-! ### Names -/

/-- Renaming columns leaves the table its own name. -/
theorem name_renameColumns (renames : List (String × String)) (t : Table) :
    (t.renameColumns renames).name = t.name := by
  refine of_renameColumns (p := fun u => u.name = t.name) rfl fun r _ u hu => ?_
  rw [renameColumn]
  split
  · exact hu
  · exact hu

/-- Taking foreign keys away leaves the table its own name. -/
theorem name_dropForeignKeys (entries : List String) (t : Table) :
    (t.dropForeignKeys entries).name = t.name :=
  apply_foldl (f := dropForeignKey) (g := Table.name) (fun _ _ _ => rfl) t

/-- An alteration leaves the table its own name, whatever it does to columns and keys. -/
theorem name_alter (t : Table) (b : Migration.Block) : (t.alter b).name = t.name := by
  show (dropForeignKeys _ b.droppedForeign).name = t.name
  rw [name_dropForeignKeys]
  exact name_renameColumns b.renamed t

/-- A column that is not taken away and not renamed stays, under its name, though it may be
declared anew. -/
theorem mem_names_alter_of_keeps {t : Table} {b : Migration.Block} {name : String}
    (hname : name ∈ t.columns.map Column.name) (hb : b.Keeps t name) :
    name ∈ (t.alter b).columns.map Column.name := by
  rw [alter, enter, mem_names_foldl_putColumn, map_columns_dropForeignKeys fun _ => rfl]
  obtain ⟨c, hc, rfl⟩ := List.mem_map.mp hname
  exact .inl (List.mem_map_of_mem
    (mem_columns_dropColumns (mem_columns_renameColumns hc hb.2) hb.1))

/-- A name after a renaming was there before, or is the new one. -/
theorem mem_names_renameColumn {t : Table} {old new name : String}
    (hname : name ∈ (t.renameColumn old new).columns.map Column.name) :
    name ∈ t.columns.map Column.name ∨ name = new := by
  rw [renameColumn] at hname
  split at hname
  · rcases mem_names_updateColumn hname with hm | ⟨c, -, hc⟩
    · exact .inl hm
    · exact .inr hc
  · exact .inl hname

/-- A name after some renamings was there before, or is the new one of a renaming that took
place. -/
theorem mem_names_renameColumns {t : Table} {renames : List (String × String)} {name : String}
    (hname : name ∈ (t.renameColumns renames).columns.map Column.name) :
    name ∈ t.columns.map Column.name ∨ name ∈ (t.takenRenames renames).map Prod.snd := by
  refine of_renameColumns (p := fun u => name ∈ u.columns.map Column.name →
    name ∈ t.columns.map Column.name ∨ name ∈ (t.takenRenames renames).map Prod.snd) .inl
    (fun r hr u hu hm => ?_) hname
  rcases mem_names_renameColumn hm with hm | rfl
  · exact hu hm
  · exact .inr (List.mem_map_of_mem hr)

/-- A name that comes into a table by an alteration is one of a declared column, or one that
a column got by a renaming. -/
theorem mem_names_alter {t : Table} {b : Migration.Block} {name : String}
    (hname : name ∈ (t.alter b).columns.map Column.name) :
    name ∈ t.columns.map Column.name ∨ b.Brings t name := by
  rw [alter, enter, mem_names_foldl_putColumn, map_columns_dropForeignKeys fun _ => rfl] at hname
  rcases hname with hname | hname
  · obtain ⟨c, hc, rfl⟩ := List.mem_map.mp hname
    rcases mem_names_renameColumns (List.mem_map_of_mem (List.mem_filter.mp hc).1) with hm | hm
    · exact .inl hm
    · exact .inr (.inr hm)
  · exact .inr (.inl hname)

/-- A column is renamed to a free name only, so no name stands twice if none did before. -/
theorem nodup_names_renameColumn {t : Table} (h : (t.columns.map Column.name).Nodup)
    (old new : String) :
    ((t.renameColumn old new).columns.map Column.name).Nodup := by
  rw [renameColumn]
  split
  · rename_i hrename
    exact nodup_names_updateColumn h ((canRename_iff t old new).mp hrename).2 fun _ => rfl
  · exact h

/-- No name stands twice after some renamings if none did before, as each single renaming
keeps this. -/
theorem nodup_names_renameColumns {t : Table} (h : (t.columns.map Column.name).Nodup)
    (renames : List (String × String)) :
    ((t.renameColumns renames).columns.map Column.name).Nodup :=
  of_renameColumns (p := fun u => (u.columns.map Column.name).Nodup) h fun r _ _ hu =>
    nodup_names_renameColumn hu r.1 r.2

/-- No name stands twice after columns were taken away if none did before. -/
theorem nodup_names_dropColumns {t : Table} (h : (t.columns.map Column.name).Nodup)
    (names : List String) :
    ((t.dropColumns names).columns.map Column.name).Nodup := by
  have hsublist : (t.dropColumns names).columns.Sublist t.columns := List.filter_sublist
  exact (hsublist.map Column.name).nodup h

/-- No name stands twice after an alteration if none did before: renamings take free names,
and a declaration takes the place of a column of its name. -/
theorem nodup_names_alter {t : Table} (h : (t.columns.map Column.name).Nodup)
    (b : Migration.Block) :
    ((t.alter b).columns.map Column.name).Nodup := by
  refine nodup_names_foldl_putColumn _ ?_
  rw [map_columns_dropForeignKeys fun _ => rfl]
  exact nodup_names_dropColumns (nodup_names_renameColumns h b.renamed) b.dropped

end Table

end SchemaAtlas
