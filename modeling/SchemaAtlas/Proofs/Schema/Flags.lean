import SchemaAtlas.Analysis
import SchemaAtlas.Proofs.Migration.Replay
import SchemaAtlas.Proofs.Session.Rewrite

/-!
# `SchemaAtlas.Proofs.Schema.Flags`: columns with a foreign key are flagged

A foreign key stands in a list of its own, and the column that it is on has a flag
for it (`Table.FlagsKeys`). A closure enters both together unless a later statement
of it declares the column again without the key (`flagsKeys_block_iff`). An alteration
keeps them together unless it declares a column with a key anew as a plain one, states
a key for a column that it does not declare, or gives a column a name that a key
without a column is on (`Block.KeepsFlags`, `Table.FlagsKeys.alter`).

Where no block does any of this, every column with a key is flagged in the schema of
the files (`flagsKeys_ofSources`).
-/

set_option autoImplicit false

namespace SchemaAtlas

open SchemaAtlas.Migration SchemaAtlas.Scan

/-- Holds of a table whose columns are flagged wherever a foreign key is on them. -/
def Table.FlagsKeys (t : Table) : Prop :=
  ∀ c ∈ t.columns, c.name ∈ t.foreignKeys.map ForeignKey.column → c.isForeign = true

instance (t : Table) : Decidable t.FlagsKeys :=
  inferInstanceAs (Decidable (∀ c ∈ t.columns, _))

/-! ### The statements of a closure -/

namespace Migration

/-- What the statements of a closure ask for, in order. -/
def Closure.requests (masked : List Char) (c : Closure) : List Request :=
  (statements (c.body masked) c.builder).flatMap Statement.requests

/-- Holds of requests that leave the flag of every column that is declared with a key:
a constraint is stated on it as well, or it is not the identifier and its last
declaration flags it. -/
def KeepsFlags (requests : List Request) : Prop :=
  ∀ fk ∈ requests.filterMap Request.referred?,
    fk.column ∈ (requests.filterMap Request.constrained?).map ForeignKey.column
      ∨ (requests.filterMap Request.identified?).getLast? ≠ some fk.column
        ∧ ∀ c ∈ (requests.filterMap Request.declared?).reverse.find?
          (fun c => c.name == fk.column),
          c.isForeign = true

instance (requests : List Request) : Decidable (KeepsFlags requests) :=
  inferInstanceAs (Decidable (∀ fk ∈ requests.filterMap Request.referred?, _))

/-- With one key entered, keys are on the columns they were on and on the column of that
key. -/
theorem mem_columns_putForeignKey (fk : ForeignKey) (fks : List ForeignKey) (column : String) :
    column ∈ (putForeignKey fk fks).map ForeignKey.column
      ↔ column ∈ fks.map ForeignKey.column ∨ column = fk.column := by
  rw [putForeignKey, List.map_append, List.mem_append, List.map_singleton, List.mem_singleton,
    List.mem_map, List.mem_map]
  constructor
  · rintro (⟨other, hother, rfl⟩ | rfl)
    · exact .inl ⟨other, (List.mem_filter.mp hother).1, rfl⟩
    · exact .inr rfl
  · rintro (⟨other, hother, rfl⟩ | rfl)
    · by_cases hsame : other.column = fk.column
      · exact .inr hsame
      · exact .inl ⟨other, List.mem_filter.mpr ⟨hother, by simpa using hsame⟩, rfl⟩
    · exact .inr rfl

/-- With some keys entered, keys are on the columns they were on and on the columns of those
keys. -/
theorem mem_columns_foldl_putForeignKey (new fks : List ForeignKey) (column : String) :
    column ∈ (new.foldl (fun fks fk => putForeignKey fk fks) fks).map ForeignKey.column
      ↔ column ∈ fks.map ForeignKey.column ∨ column ∈ new.map ForeignKey.column := by
  induction new generalizing fks with
  | nil => simp
  | cons fk new ih =>
      rw [List.foldl_cons, ih, mem_columns_putForeignKey, List.map_cons, List.mem_cons, or_assoc]

namespace Draft

/-- A column in its place is the identifier, or was declared under a name that the
identifier does not have. -/
theorem mem_orderedColumns_iff (d : Draft) (c : Column) :
    c ∈ d.orderedColumns
      ↔ (∃ name, d.identifier = some name ∧ c = identifierColumn name)
        ∨ c ∈ d.columns ∧ d.identifier ≠ some c.name := by
  rw [orderedColumns]
  cases d.identifier with
  | none => simp
  | some name =>
      rw [List.mem_cons, List.mem_filter, bne_iff_ne, ne_comm]
      simp

variable (statements : List Statement)

/-- Every column of a draft is in its place in the end, flagged if a constraint is on it and
otherwise as it was declared. -/
theorem finalColumns_eq_map :
    (ofStatements statements).finalColumns = (ofStatements statements).orderedColumns.map fun c =>
      if (ofStatements statements).constraints.any (fun fk => fk.column == c.name) then c.flagged
        else c :=
  foldl_flag_of_nodup _ _ (nodup_orderedColumns statements)

/-- The declared column of a name is the one that was declared last under that name. -/
theorem mem_columns_ofStatements_iff (c : Column) :
    c ∈ (ofStatements statements).columns
      ↔ ((statements.flatMap Statement.requests).filterMap Request.declared?).reverse.find?
          (fun d => d.name == c.name) = some c := by
  have hcolumns : (ofStatements statements).columns
      = ((statements.flatMap Statement.requests).filterMap Request.declared?).foldl
          (fun columns c => putColumn c columns) [] :=
    congrArg Draft.columns (foldl_add_eq _)
  have hd : ((ofStatements statements).columns.map Column.name).Nodup := by
    rw [hcolumns]
    exact nodup_names_foldl_putColumn _ List.nodup_nil
  have hlast := find?_foldl_putColumn
    ((statements.flatMap Statement.requests).filterMap Request.declared?) [] c.name
  rw [← hcolumns, List.find?_nil, Option.or_none] at hlast
  rw [← hlast]
  exact ⟨Table.column?_of_mem (t := ⟨"", (ofStatements statements).columns, []⟩) hd,
    List.mem_of_find?_eq_some⟩

/-- The keys that are entered are on columns that were declared with a key or
constrained. -/
theorem mem_columns_finalForeignKeys_iff (column : String) :
    column ∈ (ofStatements statements).finalForeignKeys.map ForeignKey.column
      ↔ column ∈ ((statements.flatMap Statement.requests).filterMap Request.referred?).map
        ForeignKey.column
        ∨ column ∈ (ofStatements statements).constraints.map ForeignKey.column := by
  have hkeys : (ofStatements statements).foreignKeys
      = ((statements.flatMap Statement.requests).filterMap Request.referred?).foldl
          (fun fks fk => putForeignKey fk fks) [] :=
    congrArg Draft.foreignKeys (foldl_add_eq _)
  rw [finalForeignKeys, mem_columns_foldl_putForeignKey, hkeys, mem_columns_foldl_putForeignKey]
  simp

/-- A draft flags the columns that its keys are on if those that were declared with a
key are constrained as well, or flagged in their place. -/
theorem flagsKeys_iff (table : String) :
    (⟨table, (ofStatements statements).finalColumns, (ofStatements statements).finalForeignKeys⟩ :
      Table).FlagsKeys
      ↔ ∀ c ∈ (ofStatements statements).orderedColumns,
        c.name ∈ ((statements.flatMap Statement.requests).filterMap Request.referred?).map
        ForeignKey.column →
          c.name ∈ (ofStatements statements).constraints.map ForeignKey.column
            ∨ c.isForeign = true := by
  have hany : ∀ c : Column,
      (ofStatements statements).constraints.any (fun fk => fk.column == c.name) = true
      ↔ c.name ∈ (ofStatements statements).constraints.map ForeignKey.column := by
    intro c
    rw [List.any_eq_true, List.mem_map]
    simp only [beq_iff_eq]
  rw [Table.FlagsKeys, finalColumns_eq_map, List.forall_mem_map]
  refine forall₂_congr fun c _ => ?_
  have hname : ∀ flag : Bool, (if flag = true then c.flagged else c).name = c.name := by
    intro flag
    split
    · rfl
    · rfl
  rw [hname, mem_columns_finalForeignKeys_iff]
  by_cases hconstrained : c.name ∈ (ofStatements statements).constraints.map ForeignKey.column
  · rw [if_pos ((hany c).mpr hconstrained)]
    simp [hconstrained, Column.flagged]
  · rw [if_neg (mt (hany c).mp hconstrained)]
    simp [hconstrained]

end Draft

/-- A block flags the columns that its keys are on if and only if its statements leave
their flags. -/
theorem flagsKeys_block_iff (masked : List Char) (down? : Option (Nat × Nat)) (c : Closure) :
    (History.made (c.block masked down?)).FlagsKeys ↔ KeepsFlags (c.requests masked) := by
  let sts := statements (c.body masked) c.builder
  have hidentifier : (Draft.ofStatements sts).identifier
      = ((c.requests masked).filterMap Request.identified?).getLast? :=
    congrArg Draft.identifier (Draft.foldl_add_eq _)
  have hconstraints : (Draft.ofStatements sts).constraints
      = (c.requests masked).filterMap Request.constrained? :=
    congrArg Draft.constraints (Draft.foldl_add_eq _)
  refine (Draft.flagsKeys_iff sts c.table).trans ?_
  rw [KeepsFlags, ← hidentifier, ← hconstraints]
  constructor
  · intro h fk hfk
    refine or_iff_not_imp_left.mpr fun hconstrained => ?_
    -- what has the name in its place is flagged, so it is not the identifier
    have hplace : ∀ x ∈ (Draft.ofStatements sts).orderedColumns, x.name = fk.column →
        x.isForeign = true := by
      intro x hx hname
      have hreferred := List.mem_map_of_mem (f := ForeignKey.column) hfk
      rw [← hname] at hconstrained hreferred
      exact (h x hx hreferred).resolve_left hconstrained
    have hid : (Draft.ofStatements sts).identifier ≠ some fk.column := by
      intro hid
      have hflag := hplace (Draft.identifierColumn fk.column)
        ((Draft.mem_orderedColumns_iff _ _).mpr (.inl ⟨_, hid, rfl⟩)) rfl
      cases hflag
    refine ⟨hid, fun x hx => ?_⟩
    have hname : x.name = fk.column :=
      beq_iff_eq.mp (List.find?_some (p := fun c : Column => c.name == fk.column) hx)
    rw [← hname] at hx hid
    exact hplace x ((Draft.mem_orderedColumns_iff _ x).mpr
      (.inr ⟨(Draft.mem_columns_ofStatements_iff sts x).mpr hx, hid⟩)) hname
  · intro h x hx hname
    obtain ⟨fk, hfk, hcolumn⟩ := List.mem_map.mp hname
    rcases h fk hfk with hm | ⟨hid, hdeclared⟩
    · exact .inl (hcolumn ▸ hm)
    · right
      rcases ((Draft.ofStatements sts).mem_orderedColumns_iff x).mp hx with
        ⟨name, hsome, rfl⟩ | ⟨hm, -⟩
      · exact absurd (hsome.trans (congrArg some hcolumn.symm)) hid
      · refine hdeclared x ?_
        rw [hcolumn]
        exact (Draft.mem_columns_ofStatements_iff sts x).mp hm

end Migration

/-! ### An alteration -/

namespace Table

/-- The table without what a block takes away, before the block enters its own. -/
def cleared (t : Table) (b : Block) : Table :=
  ((t.renameColumns b.renamed).dropColumns b.dropped).dropForeignKeys b.droppedForeign

/-- An alteration first takes away what it takes away, and then enters its columns and keys.
The flags are followed in these two steps. -/
theorem alter_eq_enter (t : Table) (b : Block) :
    t.alter b = (t.cleared b).enter b.columns b.foreignKeys :=
  rfl

end Table

/-- Holds of an alteration that leaves the flags of a table's columns with a key. -/
structure Migration.Block.KeepsFlags (b : Block) (t : Table) : Prop where
  /-- No column gets a name that a key without a column is on. -/
  renamed : ∀ r ∈ t.takenRenames b.renamed, r.2 ∈ t.foreignKeys.map ForeignKey.column →
    r.2 ∈ t.columns.map Column.name
  /-- A column that has a key is not declared anew without its flag. -/
  declared : ∀ c ∈ b.columns, c.name ∈ (t.cleared b).foreignKeys.map ForeignKey.column →
    c.isForeign = true
  /-- A key that is stated for a column which is not declared finds the flag there. -/
  stated : ∀ c ∈ (t.cleared b).columns, c.name ∈ b.foreignKeys.map ForeignKey.column →
    c.name ∉ b.columns.map Column.name → c.isForeign = true

instance (b : Block) (t : Table) : Decidable (b.KeepsFlags t) :=
  decidable_of_iff
    ((∀ r ∈ t.takenRenames b.renamed, r.2 ∈ t.foreignKeys.map ForeignKey.column →
        r.2 ∈ t.columns.map Column.name)
      ∧ (∀ c ∈ b.columns,
        c.name ∈ (t.cleared b).foreignKeys.map ForeignKey.column → c.isForeign = true)
      ∧ ∀ c ∈ (t.cleared b).columns, c.name ∈ b.foreignKeys.map ForeignKey.column →
        c.name ∉ b.columns.map Column.name → c.isForeign = true)
    ⟨fun ⟨hrenamed, hdeclared, hstated⟩ => ⟨hrenamed, hdeclared, hstated⟩,
      fun h => ⟨h.renamed, h.declared, h.stated⟩⟩

namespace Table

variable {t : Table}

section Rename

variable {old new : String}

/-- A rename puts a key on the column it renames under the new name, and leaves the keys on
other columns. -/
theorem mem_moveForeignKeys_iff {fks : List ForeignKey} {fk : ForeignKey} :
    fk ∈ moveForeignKeys old new fks
      ↔ (∃ other ∈ fks, other.column = old ∧ fk = { other with column := new })
        ∨ fk ∈ fks ∧ fk.column ≠ old := by
  rw [moveForeignKeys, List.mem_map]
  constructor
  · rintro ⟨other, hother, rfl⟩
    by_cases hold : other.column = old
    · rw [if_pos hold]
      exact .inl ⟨other, hother, hold, rfl⟩
    · rw [if_neg hold]
      exact .inr ⟨hother, hold⟩
  · rintro (⟨other, hother, hold, rfl⟩ | ⟨hfk, hold⟩)
    · exact ⟨other, hother, if_pos hold⟩
    · exact ⟨fk, hfk, if_neg hold⟩

/-- A rename to a name that no key is on leaves the flags: a key moves together with the
column that it is on. -/
theorem FlagsKeys.renameColumn (h : t.FlagsKeys) (hd : (t.columns.map Column.name).Nodup)
    (hnew : new ∉ t.foreignKeys.map ForeignKey.column) : (t.renameColumn old new).FlagsKeys := by
  rw [Table.renameColumn]
  split
  · rename_i hcan
    rw [canRename_iff] at hcan
    rw [FlagsKeys, updateColumn_eq_map hd, List.forall_mem_map]
    intro c hc hkey
    obtain ⟨fk, hfk, hcolumn⟩ := List.mem_map.mp hkey
    by_cases hold : c.name = old
    · -- the renamed column has the keys that were moved with it
      rw [if_pos hold] at hcolumn ⊢
      rcases mem_moveForeignKeys_iff.mp hfk with ⟨other, hother, hcol, -⟩ | ⟨hfk, -⟩
      · exact h c hc (List.mem_map.mpr ⟨other, hother, hcol.trans hold.symm⟩)
      · exact absurd (List.mem_map.mpr ⟨fk, hfk, hcolumn⟩) hnew
    · -- and no other has one of them, since the new name was free
      rw [if_neg hold] at hcolumn ⊢
      rcases mem_moveForeignKeys_iff.mp hfk with ⟨other, -, -, rfl⟩ | ⟨hfk, -⟩
      · exact absurd (List.mem_map.mpr ⟨c, hc, hcolumn.symm⟩) hcan.2
      · exact h c hc (List.mem_map.mpr ⟨fk, hfk, hcolumn⟩)
  · exact h

/-- Behind a rename a key is on a column, or it was there and was not on one. -/
theorem mem_foreignKeys_renameColumn (hd : (t.columns.map Column.name).Nodup) {fk : ForeignKey}
    (hfk : fk ∈ (t.renameColumn old new).foreignKeys) :
    fk.column ∈ (t.renameColumn old new).columns.map Column.name
      ∨ fk ∈ t.foreignKeys ∧ fk.column ∉ t.columns.map Column.name := by
  rw [Table.renameColumn] at hfk ⊢
  split at hfk
  · rename_i hcan
    rw [if_pos hcan]
    rw [canRename_iff] at hcan
    rw [updateColumn_eq_map hd]
    rcases mem_moveForeignKeys_iff.mp hfk with ⟨other, -, -, rfl⟩ | ⟨hfk, hne⟩
    · obtain ⟨c, hc, hname⟩ := List.mem_map.mp hcan.1
      left
      refine List.mem_map.mpr ⟨_, List.mem_map_of_mem hc, ?_⟩
      rw [if_pos hname]
    · refine or_iff_not_imp_right.mpr fun hnot => ?_
      obtain ⟨c, hc, hname⟩ := List.mem_map.mp (not_not.mp (not_and.mp hnot hfk))
      refine List.mem_map.mpr ⟨_, List.mem_map_of_mem hc, ?_⟩
      rw [if_neg (hname ▸ hne)]
      exact hname
  · rename_i hcan
    rw [if_neg hcan]
    exact (em _).imp_right fun hnot => ⟨hfk, hnot⟩

/-- Renames leave the flags if none gives a column a name that a key without a column is
on. -/
theorem FlagsKeys.renameColumns (h : t.FlagsKeys) (hd : (t.columns.map Column.name).Nodup)
    {renames : List (String × String)} (hfree : ∀ r ∈ t.takenRenames renames,
      r.2 ∈ t.foreignKeys.map ForeignKey.column → r.2 ∈ t.columns.map Column.name) :
    (t.renameColumns renames).FlagsKeys := by
  -- all the way, a key without a column is one that had none at first
  let p (u : Table) : Prop := u.FlagsKeys ∧ (u.columns.map Column.name).Nodup
    ∧ ∀ fk ∈ u.foreignKeys, fk.column ∈ u.columns.map Column.name
      ∨ fk ∈ t.foreignKeys ∧ fk.column ∉ t.columns.map Column.name
  have hp : p t := ⟨h, hd, fun fk hfk => (em _).imp_right fun hnot => ⟨hfk, hnot⟩⟩
  refine (of_renameColumns (p := p) hp fun r hr u ⟨hflags, hnodup, hkeys⟩ => ?_).1
  by_cases hcan : u.canRename r.1 r.2 = true
  · have hnew : r.2 ∉ u.foreignKeys.map ForeignKey.column := by
      intro hkey
      obtain ⟨fk, hfk, hcolumn⟩ := List.mem_map.mp hkey
      rw [canRename_iff, ← hcolumn] at hcan
      obtain ⟨hfkt, hnot⟩ := (hkeys fk hfk).resolve_left hcan.2
      rw [hcolumn] at hnot
      exact hnot (hfree r hr (List.mem_map.mpr ⟨fk, hfkt, hcolumn⟩))
    refine ⟨hflags.renameColumn hnodup hnew, nodup_names_renameColumn hnodup r.1 r.2,
      fun fk hfk => ?_⟩
    rcases mem_foreignKeys_renameColumn hnodup hfk with hname | ⟨hfku, hnot⟩
    · exact .inl hname
    · exact .inr ((hkeys fk hfku).resolve_left hnot)
  · have hstays : u.renameColumn r.1 r.2 = u := if_neg hcan
    rw [hstays]
    exact ⟨hflags, hnodup, hkeys⟩

end Rename

/-- Columns are dropped with their keys, so the columns and the keys that are left match as
before. -/
theorem FlagsKeys.dropColumns (h : t.FlagsKeys) (names : List String) :
    (t.dropColumns names).FlagsKeys := by
  intro c hc hkey
  obtain ⟨fk, hfk, hcolumn⟩ := List.mem_map.mp hkey
  exact h c (List.mem_filter.mp hc).1 (List.mem_map.mpr ⟨fk, (List.mem_filter.mp hfk).1, hcolumn⟩)

/-- Flags are taken away together with the keys on their columns, and other columns keep
both. -/
theorem FlagsKeys.dropForeignKeys (h : t.FlagsKeys) (hd : (t.columns.map Column.name).Nodup)
    (entries : List String) : (t.dropForeignKeys entries).FlagsKeys := by
  rw [FlagsKeys, Table.dropForeignKeys, foldl_dropForeignKey hd, List.forall_mem_map]
  intro c hc hkey
  obtain ⟨fk, hfk, hcolumn⟩ := List.mem_map.mp hkey
  obtain ⟨hfk, hother⟩ := List.mem_filter.mp hfk
  split at hcolumn
  · rename_i hdropped
    have hgone : c.name ∉ entries.filterMap t.droppedForeignColumn? := by
      simpa [hcolumn] using hother
    exact absurd hdropped hgone
  · rename_i hkept
    rw [if_neg hkept]
    exact h c hc (List.mem_map.mpr ⟨fk, hfk, hcolumn⟩)

/-- Distinct names stay distinct when a block takes away and renames, since a rename to a
taken name is not done. -/
theorem nodup_names_cleared (hd : (t.columns.map Column.name).Nodup) (b : Block) :
    ((t.cleared b).columns.map Column.name).Nodup := by
  rw [cleared, map_columns_dropForeignKeys fun _ => rfl]
  exact nodup_names_dropColumns (nodup_names_renameColumns hd b.renamed) b.dropped

/-- What a block takes away or renames leaves the flags of the rest, if no column gets a
name that a stray key is on. -/
theorem FlagsKeys.cleared (h : t.FlagsKeys) (hd : (t.columns.map Column.name).Nodup) {b : Block}
    (hb : b.KeepsFlags t) : (t.cleared b).FlagsKeys := by
  have hrenamed := h.renameColumns hd hb.renamed
  have hnodup := nodup_names_dropColumns (nodup_names_renameColumns hd b.renamed) b.dropped
  exact (hrenamed.dropColumns b.dropped).dropForeignKeys hnodup b.droppedForeign

/-- An alteration leaves the flags of columns with a key if what it declares is flagged so
as well. -/
theorem FlagsKeys.alter (h : t.FlagsKeys) (hd : (t.columns.map Column.name).Nodup) {b : Block}
    (hmade : (History.made b).FlagsKeys) (hb : b.KeepsFlags t) : (t.alter b).FlagsKeys := by
  intro c hc hkey
  rw [alter_eq_enter, enter] at hc hkey
  -- what is entered under the name of the column is the column, or nothing is
  have hnodup := nodup_names_foldl_putColumn b.columns (nodup_names_cleared hd b)
  have hfound : (b.columns.reverse.find? fun d => d.name == c.name).or
      ((t.cleared b).columns.find? fun d => d.name == c.name) = some c := by
    rw [← find?_foldl_putColumn]
    exact column?_of_mem
      (t := ⟨"", b.columns.foldl (fun columns c => putColumn c columns) (t.cleared b).columns,
        []⟩)
      hnodup hc
  rw [mem_columns_foldl_putForeignKey] at hkey
  cases hdeclared : b.columns.reverse.find? fun d => d.name == c.name with
  | some d =>
      -- the block declares the column: a key on it is its own or was there before
      rw [hdeclared, Option.some_or, Option.some.injEq] at hfound
      rw [hfound] at hdeclared
      have hcb : c ∈ b.columns := List.mem_reverse.mp (List.mem_of_find?_eq_some hdeclared)
      exact hkey.elim (hb.declared c hcb) (hmade c hcb)
  | none =>
      -- the column was there before, and so was its key, or the block states one
      rw [hdeclared, Option.none_or] at hfound
      have hcleared : c ∈ (t.cleared b).columns := List.mem_of_find?_eq_some hfound
      refine hkey.elim (h.cleared hd hb c hcleared) fun hkey =>
        hb.stated c hcleared hkey fun hname => ?_
      obtain ⟨d, hd, hdc⟩ := List.mem_map.mp hname
      exact List.find?_eq_none.mp hdeclared d (List.mem_reverse.mpr hd) (beq_iff_eq.mpr hdc)

end Table

/-! ### The whole story -/

namespace History

/-- Holds of blocks each of which leaves the flags, where each alteration works on what
the blocks before it make of the table. -/
def FlagsKept (table? : Option Table) (bs : List Block) : Prop :=
  Along (fun t b => b.KeepsFlags t) table? bs

instance (table? : Option Table) (bs : List Block) : Decidable (FlagsKept table? bs) :=
  inferInstanceAs (Decidable (Along _ table? bs))

/-- What blocks with flags make of a table has its flags, by induction over the blocks along
the table as it changes. -/
theorem flagsKeys_foldl_next {bs : List Block} {table? : Option Table}
    (ht : ∀ t ∈ table?, t.FlagsKeys ∧ (t.columns.map Column.name).Nodup)
    (hmade : ∀ b ∈ bs, (made b).FlagsKeys) (hnodup : ∀ b ∈ bs, (b.columns.map Column.name).Nodup)
    (hkept : FlagsKept table? bs) : ∀ t ∈ bs.foldl next table?, t.FlagsKeys := by
  have hboth :=
    of_foldl_next_of_along (p := fun t => t.FlagsKeys ∧ (t.columns.map Column.name).Nodup) ht
    (fun b hb _ => ⟨hmade b hb, hnodup b hb⟩)
    (fun b hb t ht hkeeps =>
      ⟨ht.1.alter ht.2 (hmade b hb) hkeeps, Table.nodup_names_alter ht.2 b⟩) hkept
  exact fun t hmem => (hboth t hmem).1

/-- Holds of the characters of a migration whose closures on the way forward state keys of
a table with their flags. -/
def StatesFlags (table : String) (cs : List Char) : Prop :=
  ∀ c ∈ closuresOfMasked (mask cs), c.table = table →
    (c.block (mask cs) (downSpan? (mask cs))).reverse = false →
    Migration.KeepsFlags (c.requests (mask cs))

instance (table : String) (cs : List Char) : Decidable (StatesFlags table cs) :=
  inferInstanceAs (Decidable (∀ c ∈ closuresOfMasked (mask cs), _))

/-- In the schema of some files, every column with a foreign key is flagged, if the
migrations state keys of the table with their flags and no alteration takes a flag
without its key. -/
theorem flagsKeys_ofSources {files : List SourceFile} {table : String} {t : Table}
    (ht : (Analysis.ofSources files).snapshot.tables.get? table = some t)
    (hstated : ∀ f ∈ files, f.kind = .migration → StatesFlags table f.content.toList)
    (hkept : FlagsKept none (story table files)) : t.FlagsKeys := by
  have hstory : ∀ b ∈ story table files, (made b).FlagsKeys
      ∧ (b.columns.map Column.name).Nodup := by
    intro b hb
    obtain ⟨hmem, hpart⟩ := List.mem_filter.mp hb
    obtain ⟨f, hf, hbf⟩ := List.mem_flatMap.mp hmem
    obtain ⟨hfiles, hkind⟩ := List.mem_filter.mp (List.mem_mergeSort.mp hf)
    obtain ⟨c, hc, rfl⟩ := List.mem_map.mp hbf
    rw [Bool.and_eq_true, Bool.not_eq_true', beq_iff_eq] at hpart
    have hkeeps := hstated f hfiles (beq_iff_eq.mp hkind) c hc hpart.2 hpart.1
    exact ⟨(flagsKeys_block_iff _ _ c).mpr hkeeps, nodup_columns_of_mem_blocks hbf⟩
  have hget : (ofMigrations files).snapshot.tables.get? table = some t := by
    rwa [Analysis.ofSources, snapshot_ofSources] at ht
  rw [get?_ofMigrations] at hget
  exact flagsKeys_foldl_next (fun _ hu => by cases hu) (fun b hb => (hstory b hb).1)
    (fun b hb => (hstory b hb).2) hkept t hget

/-- A migration that creates a table with a reference and gives the column of it another
name. -/
def authorMigration : SourceFile :=
  ⟨"1_posts.php", "1_posts.php",
    "Schema::create('posts',function(Blueprint $t)\x7b$t->id();$t->foreignId('user_id');\x7d);"
      ++ "Schema::table('posts',function(Blueprint $t)\x7b$t->renameColumn('user_id','author_id');\x7d);",
    .migration⟩

/-- The closure that creates the table. -/
def authorClosure : Closure := ⟨⟨.create, "posts", "t"⟩, 46, 80⟩

/-- In the example the posts are created with a reference to their user, which then gets the
name of an author. Key and flag have gone along with it. -/
theorem flagsKeys_ofSources_author :
    ∃ t : Table, (Analysis.ofSources [authorMigration]).snapshot.tables.get? "posts" = some t
      ∧ ⟨"author_id", "users"⟩ ∈ t.foreignKeys ∧ t.FlagsKeys := by
  let id : Column := { name := "id", type := .id, isPrimary := true }
  let author : Column := { name := "author_id", type := .foreignId, isForeign := true }
  let t : Table := ⟨"posts", [id, author], [⟨"author_id", "users"⟩]⟩
  have hdecided := of_ofList_append (t := authorMigration.content)
    (p := fun cs => Session.Makes cs t authorClosure ∧ StatesFlags "posts" cs
      ∧ decide (FlagsKept none (Session.blocksOf "posts" cs)) = true)
    rfl rfl rfl (by decide +kernel)
  obtain ⟨hmakes, hstated, hkept⟩ := hdecided
  have ht := Session.get?_ofSources_singleton rfl hmakes
  rw [← Session.story_singleton rfl] at hkept
  refine ⟨t, ht, List.mem_singleton_self _, flagsKeys_ofSources ht (fun f hf _ => ?_)
    (of_decide_eq_true hkept)⟩
  rw [List.mem_singleton.mp hf]
  exact hstated

/-- A migration that creates a table with a plain column and then states a key on it. -/
def plainMigration : SourceFile :=
  ⟨"1_posts.php", "1_posts.php",
    "Schema::create('posts',function(Blueprint $t)\x7b$t->id();$t->unsignedBigInteger('user_id');\x7d);"
      ++ "Schema::table('posts',function(Blueprint $t)\x7b$t->foreign('user_id')->references('id')->on('users');\x7d);",
    .migration⟩

/-- The closure that creates the table. -/
def plainClosure : Closure := ⟨⟨.create, "posts", "t"⟩, 46, 89⟩

/-- A key that is stated in an alteration does not flag the column that was there. -/
theorem not_flagsKeys_plain :
    ∃ t : Table, (Analysis.ofSources [plainMigration]).snapshot.tables.get? "posts" = some t
      ∧ ¬t.FlagsKeys := by
  let id : Column := { name := "id", type := .id, isPrimary := true }
  let user : Column := { name := "user_id", type := .unsignedBigInteger }
  let t : Table := ⟨"posts", [id, user], [⟨"user_id", "users"⟩]⟩
  have hmakes :=
    of_ofList_append (t := plainMigration.content)
    (p := fun cs => Session.Makes cs t plainClosure)
    rfl rfl rfl (by decide +kernel)
  exact ⟨t, Session.get?_ofSources_singleton rfl hmakes, by decide +kernel⟩

end History

end SchemaAtlas
