import SchemaAtlas.Proofs.List
import SchemaAtlas.Proofs.Migration.Stated

/-!
# `SchemaAtlas.Proofs.Migration.Settled`: what a table is after it was written and read

Writing a table as statements and reading them back does not give the same
table: an identifier comes first and is made up if there is none, the audit
columns have no place among the columns, flags follow from types and keys, and
some foreign keys cannot be stated. `Table.settled` is the table that comes
back, told in terms of the given one.

Names where names are expected, and distinct ones, are all that it takes to say
what comes back (`finalColumns_tableDraft_eq`, `finalForeignKeys_tableDraft_eq`):
of several identifiers the last one stays, and a reference without a stem is lost.
`Regular` tables have no such columns, and what comes back of them is settled.
-/

set_option autoImplicit false

namespace SchemaAtlas

open SchemaAtlas.Text SchemaAtlas.Migration

/-! ### The settled table -/

namespace Table

/-- What becomes of a column: both columns of a reference to any table's rows,
or the column itself with the flags that follow from its type and its key. -/
def settledColumn (t : Table) (c : Column) : List Column :=
  match t.morphStem? c with
  | some stem => morphColumns stem c.type c.nullable
  | none =>
    let carries := carriesKey c (t.keyOn? c)
    [{ c with
      isPrimary := (c.isPrimary && !carries) || (c.type = .uuid && c.name = Naming.identifier)
      isForeign := carries || (c.type ≠ .uuid && (t.keyOn? c).isSome) }]

/-- The identifier that comes back: the one that is stated last. -/
def rereadIdentifier (t : Table) : List Column :=
  t.identifierNames.getLast?.toList.map fun name =>
    { Draft.identifierColumn name with isForeign := t.statedKeys.any fun fk => fk.column == name }

/-- What comes back of a column; of a reference without a stem, nothing does. -/
def rereadColumn (t : Table) (c : Column) : List Column :=
  if t.morphStem? c = some "" then [] else t.settledColumn c

/-- The table that is read from the statements of a table. -/
def settled (t : Table) : Table where
  name := t.name
  columns := t.settledIdentifier ++ t.ownColumns.flatMap t.settledColumn
  foreignKeys := t.ownColumns.filterMap t.carriedKey? ++ t.ownColumns.filterMap t.statedKey?

/-- What it takes of a table to be settled. -/
structure Regular (t : Table) : Prop where
  named : Named t.columns t.foreignKeys
  distinct : (t.columns.map Column.name).Nodup
  noBareEnd : ∀ c ∈ t.columns, c.name ≠ Naming.referenceEnd
  oneIdentifier : (t.columns.filter fun c => c.type == .id).length ≤ 1

instance (t : Table) : Decidable t.Regular :=
  decidable_of_iff (Named t.columns t.foreignKeys ∧ (t.columns.map Column.name).Nodup
      ∧ (∀ c ∈ t.columns, c.name ≠ Naming.referenceEnd)
      ∧ (t.columns.filter fun c => c.type == .id).length ≤ 1)
    ⟨fun h => ⟨h.1, h.2.1, h.2.2.1, h.2.2.2⟩,
      fun h => ⟨h.named, h.distinct, h.noBareEnd, h.oneIdentifier⟩⟩

end Table

namespace Migration

section Reread

variable {t : Table}

/-! ### Distinct names -/

/-- The columns that the statement of a column declares. -/
def declaredColumns (t : Table) (c : Column) : List Column :=
  match t.morphStem? c with
  | some stem => morphColumns stem c.type c.nullable
  | none => [declaredColumn c (t.keyOn? c)]

/-- A declared column is called like the column it comes from, or like the type
column of its reference. -/
theorem name_of_mem_declaredColumns {c d : Column} (hd : d ∈ declaredColumns t c) :
    d.name = c.name ∨ ∃ stem, t.morphStem? c = some stem ∧ d.name = stem ++ morphTypeEnd := by
  rw [declaredColumns] at hd
  split at hd
  · rename_i stem hstem
    simp only [morphColumns, List.mem_cons, List.not_mem_nil, or_false] at hd
    rcases hd with rfl | rfl
    · exact .inl (of_morphStem? hstem).1.symm
    · exact .inr ⟨stem, hstem, rfl⟩
  · rw [List.mem_singleton.mp hd]
    exact .inl rfl

/-- The two endings differ, so the two columns of a reference are told apart by their
names. -/
theorem referenceEnd_ne (stem : String) : stem ++ Naming.referenceEnd ≠ stem ++ morphTypeEnd := by
  intro h
  have hlist := congrArg String.toList h
  rw [String.toList_append, String.toList_append] at hlist
  exact absurd (List.append_cancel_left hlist) (by decide)

/-- The columns that one statement declares have distinct names, be it one column or the two
of a reference. -/
theorem nodup_declaredColumns (c : Column) : ((declaredColumns t c).map Column.name).Nodup := by
  rw [declaredColumns]
  split
  · rename_i stem _
    simp only [morphColumns, List.map_cons, List.map_nil, List.nodup_cons, List.mem_singleton,
      List.not_mem_nil, not_false_eq_true, List.nodup_nil, and_true]
    exact referenceEnd_ne stem
  · simp

/-- No stated column bears the name of a type column, since type columns are left to the
statements of their references. -/
theorem name_ne_of_mem_statedColumns {c d : Column} (hc : c ∈ t.statedColumns)
    (hd : d ∈ t.columns)
    {stem : String} (hstem : t.morphStem? d = some stem) : c.name ≠ stem ++ morphTypeEnd := by
  intro he
  have hcond := (List.mem_filter.mp hc).2
  have htype : t.isMorphType c = true := by
    rw [Table.isMorphType, List.any_eq_true]
    exact ⟨d, hd, by rw [hstem, he]; exact beq_self_eq_true _⟩
  simp [htype] at hcond

/-- What is declared for a column bears the name of a column that is no identifier. -/
theorem exists_of_mem_declaredColumns {c d : Column} (hc : c ∈ t.ownColumns)
    (hd : d ∈ declaredColumns t c) : ∃ e ∈ t.columns, e.name = d.name ∧ e.type ≠ .id := by
  rcases name_of_mem_declaredColumns hd with hname | ⟨stem, hstem, hname⟩
  · exact ⟨c, mem_columns_of_mem_ownColumns hc, hname.symm, type_ne_of_mem_ownColumns hc⟩
  · obtain ⟨-, -, -, e, he, hen, hstring, -⟩ := of_morphStem? hstem
    exact ⟨e, he, by rw [hen, hname], by rw [hstring]; decide⟩

/-- The columns that are declared for a column, if its statement is read at all. -/
def spokenColumns (t : Table) (c : Column) : List Column :=
  if t.morphStem? c = some "" then [] else declaredColumns t c

/-- What is spoken for a column is declared for it. The two differ only for a reference
without a stem, whose statement is not read. -/
theorem mem_declaredColumns_of_mem_spokenColumns {c d : Column} (hd : d ∈ spokenColumns t c) :
    d ∈ declaredColumns t c := by
  rw [spokenColumns] at hd
  split at hd
  · cases hd
  · exact hd

/-- No two columns have declared columns of one name. The names differ in their stems or in
their endings. -/
theorem name_ne_of_mem_spokenColumns {c d x y : Column} (hc : c ∈ t.ownColumns)
    (hd : d ∈ t.ownColumns)
    (hne : c.name ≠ d.name) (hx : x ∈ spokenColumns t c) (hy : y ∈ spokenColumns t d) :
    x.name ≠ y.name := by
  intro hxy
  have hcStated := mem_statedColumns_of_mem_ownColumns hc
  have hdStated := mem_statedColumns_of_mem_ownColumns hd
  rcases name_of_mem_declaredColumns (mem_declaredColumns_of_mem_spokenColumns hx)
    with hxc | ⟨stem, hstem, hxs⟩
  · rcases name_of_mem_declaredColumns (mem_declaredColumns_of_mem_spokenColumns hy)
      with hyd | ⟨stem', hstem', hys⟩
    · exact hne (by rw [← hxc, ← hyd, hxy])
    · exact name_ne_of_mem_statedColumns hcStated (mem_columns_of_mem_ownColumns hd) hstem'
        (by rw [← hxc, hxy, hys])
  · rcases name_of_mem_declaredColumns (mem_declaredColumns_of_mem_spokenColumns hy)
      with hyd | ⟨stem', hstem', hys⟩
    · exact name_ne_of_mem_statedColumns hdStated (mem_columns_of_mem_ownColumns hc) hstem
        (by rw [← hyd, ← hxy, hxs])
    · -- type columns of one name are of one stem, and so are the identifiers
      have hsame : stem ++ morphTypeEnd = stem' ++ morphTypeEnd := by rw [← hxs, ← hys, hxy]
      have hstems : stem = stem' := by
        apply String.toList_injective
        have hlist := congrArg String.toList hsame
        rw [String.toList_append, String.toList_append] at hlist
        exact List.append_cancel_right hlist
      exact hne (by rw [(of_morphStem? hstem).1, (of_morphStem? hstem').1, hstems])

/-- If the names of the columns are distinct, then so are those of all columns that their
statements declare. -/
theorem nodup_flatMap_spokenColumns (hd : (t.columns.map Column.name).Nodup) :
    ((t.ownColumns.flatMap (spokenColumns t)).map Column.name).Nodup := by
  rw [List.map_flatMap, List.nodup_flatMap]
  have hdistinct : t.ownColumns.Pairwise fun c d => c.name ≠ d.name :=
    (List.pairwise_map.mp hd).sublist List.filter_sublist
  constructor
  · intro c _
    rw [spokenColumns]
    split
    · exact List.nodup_nil
    · exact nodup_declaredColumns c
  · refine hdistinct.imp_of_mem fun {c d} hc hd hne n hn hn' => ?_
    obtain ⟨x, hx, rfl⟩ := List.mem_map.mp hn
    obtain ⟨y, hy, hxy⟩ := List.mem_map.mp hn'
    exact name_ne_of_mem_spokenColumns hc hd hne hx hy hxy.symm

/-- What the identifier is called is the name of an identifier column, or the usual
name if there is no such column and the name is free. -/
theorem mem_identifierNames {n : String} (h : n ∈ t.identifierNames) :
    (∃ c ∈ t.columns, c.type = .id ∧ c.name = n)
      ∨ n = Naming.identifier ∧ (∀ c ∈ t.columns, c.type ≠ .id)
        ∧ n ∉ t.columns.map Column.name := by
  rcases List.mem_append.mp h with h | h
  · -- the one that is stated apart: the table's first identifier, or one that is made up
    obtain ⟨i, hi, rfl⟩ := List.mem_map.mp h
    rw [Table.settledIdentifier] at hi
    split at hi
    · rename_i c hc
      have hfound := List.find?_some hc
      rw [List.mem_singleton.mp hi]
      exact .inl ⟨c, List.mem_of_find?_eq_some hc, beq_iff_eq.mp hfound, rfl⟩
    · rename_i hnone
      split at hi
      · cases hi
      · rename_i hfree
        rw [List.mem_singleton.mp hi]
        refine .inr ⟨rfl, fun c hc hid => ?_, fun hm => hfree ?_⟩
        · exact List.find?_eq_none.mp hnone c hc (beq_iff_eq.mpr hid)
        · obtain ⟨c, hc, hname⟩ := List.mem_map.mp hm
          exact List.any_eq_true.mpr ⟨c, hc, beq_iff_eq.mpr hname⟩
  · obtain ⟨c, hc, rfl⟩ := List.mem_map.mp h
    obtain ⟨hc, hid⟩ := List.mem_filter.mp hc
    exact .inl ⟨c, mem_columns_of_mem_statedColumns hc, beq_iff_eq.mp hid, rfl⟩

/-- The identifier bears the name of no other declared column, and so it does not take the
place of any of them. -/
theorem name_ne_of_mem_identifierNames (hd : (t.columns.map Column.name).Nodup) {n : String}
    (hn : n ∈ t.identifierNames) {c d : Column} (hc : c ∈ t.ownColumns)
    (hdc : d ∈ declaredColumns t c) :
    d.name ≠ n := by
  obtain ⟨e, he, hname, htype⟩ := exists_of_mem_declaredColumns hc hdc
  rintro rfl
  rcases mem_identifierNames hn with ⟨x, hx, hid, hxn⟩ | ⟨-, -, hfree⟩
  · obtain rfl : x = e := List.inj_on_of_nodup_map hd hx he (by rw [hxn, hname])
    exact htype hid
  · exact hfree (List.mem_map.mpr ⟨e, he, hname⟩)

/-! ### The draft of a table -/

/-- References to any table's rows carry no foreign key, since a column with a key is not
half of such a reference. -/
theorem carriedKey?_of_morphStem? {c : Column} {stem : String} (h : t.morphStem? c = some stem) :
    t.carriedKey? c = none := by
  obtain ⟨-, htype, hkey, -⟩ := of_morphStem? h
  have hforeignId : c.type ≠ .foreignId := by
    rcases htype with htype | htype
    · simp [htype]
    · simp [htype]
  simp [Table.carriedKey?, carriesKey, hkey, hforeignId]

section Requests

variable (t) (c : Column)

/-- The columns that the statement of a column declares are gathered from its requests, in
their order. -/
theorem filterMap_declared? :
    (columnRequests? t c).filterMap Request.declared? = declaredColumns t c := by
  rw [columnRequests?, declaredColumns]
  cases t.morphStem? c with
  | some stem => simp [morphColumns, Request.declared?]
  | none => cases t.carriedKey? c <;> rfl

/-- The foreign key that a column carries is the only one that is gathered from the requests
of its statement. -/
theorem filterMap_referred? :
    (columnRequests? t c).filterMap Request.referred? = (t.carriedKey? c).toList := by
  rw [columnRequests?]
  split
  · rename_i stem hstem
    rw [carriedKey?_of_morphStem? hstem]
    simp [morphColumns, Request.referred?]
  · cases t.carriedKey? c <;> rfl

/-- A column asks for an identifier, for declared columns, or for the foreign key that it
carries, and for nothing else. -/
theorem mem_statedRequests {r : Request} (hr : r ∈ statedRequests t c) :
    (c.type = .id ∧ r = .identify c.name) ∨ (∃ d, r = .declare d) ∨ ∃ fk, r = .refer fk := by
  rw [statedRequests] at hr
  split at hr
  · rename_i hid
    exact .inl ⟨hid, List.mem_singleton.mp hr⟩
  · split at hr
    · cases hr
    · rw [columnRequests?] at hr
      split at hr
      · obtain ⟨d, -, rfl⟩ := List.mem_map.mp hr
        exact .inr (.inl ⟨d, rfl⟩)
      · rcases List.mem_append.mp hr with hr | hr
        · obtain ⟨fk, -, rfl⟩ := List.mem_map.mp hr
          exact .inr (.inr ⟨fk, rfl⟩)
        · exact .inr (.inl ⟨_, List.mem_singleton.mp hr⟩)

/-- A table asks for no more than its columns do and for foreign keys of its own: it drops
nothing and renames nothing. -/
theorem mem_tableRequests {r : Request} (hr : r ∈ tableRequests t) :
    (∃ n, r = .identify n) ∨ (∃ d, r = .declare d) ∨ (∃ fk, r = .refer fk) ∨ ∃ fk,
      r = .constrain fk := by
  rcases List.mem_append.mp hr with hr | hr
  · rcases List.mem_append.mp hr with hr | hr
    · obtain ⟨i, -, rfl⟩ := List.mem_map.mp hr
      exact .inl ⟨i.name, rfl⟩
    · obtain ⟨c, -, hc⟩ := List.mem_flatMap.mp hr
      rcases mem_statedRequests t c hc with ⟨-, rfl⟩ | ⟨d, rfl⟩ | ⟨fk, rfl⟩
      · exact .inl ⟨c.name, rfl⟩
      · exact .inr (.inl ⟨d, rfl⟩)
      · exact .inr (.inr (.inl ⟨fk, rfl⟩))
  · obtain ⟨fk, -, rfl⟩ := List.mem_map.mp hr
    exact .inr (.inr (.inr ⟨fk, rfl⟩))

/-- Going through the stated columns that are no identifiers, one by one, is going through
the columns of their own. -/
theorem flatMap_ownColumns {α : Type} (f : Column → List α) :
    t.statedColumns.flatMap (fun c => if c.type = .id then [] else f c)
      = t.ownColumns.flatMap f := by
  rw [← filter_statedColumns]
  induction t.statedColumns with
  | nil => rfl
  | cons c columns ih =>
      by_cases hid : c.type = .id
      · rw [List.flatMap_cons, if_pos hid, List.nil_append,
          List.filter_cons_of_neg (by simp [hid]), ih]
      · rw [List.flatMap_cons, if_neg hid, List.filter_cons_of_pos (by simpa using hid),
          List.flatMap_cons, ih]

/-- The columns that a table's statements declare are those of its own columns, one after
another. -/
theorem filterMap_declared?_tableRequests :
    (tableRequests t).filterMap Request.declared? = t.ownColumns.flatMap (spokenColumns t) := by
  have hstated : (t.statedColumns.flatMap (statedRequests t)).filterMap Request.declared?
      = t.ownColumns.flatMap (spokenColumns t) := by
    rw [List.filterMap_flatMap, ← flatMap_ownColumns]
    refine List.flatMap_congr fun c _ => ?_
    rw [statedRequests, spokenColumns]
    split
    · rfl
    · split
      · rfl
      · exact filterMap_declared? t c
  rw [tableRequests, List.filterMap_append, List.filterMap_append, hstated]
  simp [List.filterMap_map, Function.comp_def, Request.declared?]

/-- The foreign keys that a table's columns carry are those of its own columns, in the order
of the columns. -/
theorem filterMap_referred?_tableRequests :
    (tableRequests t).filterMap Request.referred? = t.ownColumns.filterMap t.carriedKey? := by
  have hstated : (t.statedColumns.flatMap (statedRequests t)).filterMap Request.referred?
      = t.ownColumns.filterMap t.carriedKey? := by
    rw [List.filterMap_flatMap, List.filterMap_eq_flatMap_toList, ← flatMap_ownColumns]
    refine List.flatMap_congr fun c _ => ?_
    rw [statedRequests]
    split
    · rfl
    · split
      · rename_i hstem
        rw [carriedKey?_of_morphStem? hstem]
        rfl
      · exact filterMap_referred? t c
  rw [tableRequests, List.filterMap_append, List.filterMap_append, hstated]
  simp [List.filterMap_map, Function.comp_def, Request.referred?]

/-- The identifiers that a table's statements ask for bear the table's identifier names, in
their order. -/
theorem filterMap_identified?_tableRequests :
    (tableRequests t).filterMap Request.identified? = t.identifierNames := by
  -- only the statement of an identifier asks for one
  have hone : ∀ c, (statedRequests t c).filterMap Request.identified? = if c.type = .id then
      [c.name] else [] := by
    intro c
    split
    · rename_i hid
      rw [statedRequests, if_pos hid]
      rfl
    · rename_i hid
      refine List.filterMap_eq_nil_iff.mpr fun r hr => ?_
      rcases mem_statedRequests t c hr with ⟨hid', -⟩ | ⟨d, rfl⟩ | ⟨fk, rfl⟩
      · exact absurd hid' hid
      · rfl
      · rfl
  have hstated : (t.statedColumns.flatMap (statedRequests t)).filterMap Request.identified?
      = (t.statedColumns.filter fun c => c.type == .id).map Column.name := by
    induction t.statedColumns with
    | nil => rfl
    | cons c columns ih =>
        rw [List.flatMap_cons, List.filterMap_append, ih, hone]
        by_cases hid : c.type = .id <;> simp [hid]
  rw [tableRequests, List.filterMap_append, List.filterMap_append, hstated, Table.identifierNames]
  simp [List.filterMap_map, Function.comp_def, Request.identified?]

/-- The foreign keys that a table states apart are its stated keys, in their order. -/
theorem filterMap_constrained?_tableRequests :
    (tableRequests t).filterMap Request.constrained? = t.statedKeys := by
  have hstated : (t.statedColumns.flatMap (statedRequests t)).filterMap Request.constrained?
      = [] := by
    refine List.filterMap_eq_nil_iff.mpr fun r hr => ?_
    obtain ⟨c, -, hc⟩ := List.mem_flatMap.mp hr
    rcases mem_statedRequests t c hc with ⟨-, rfl⟩ | ⟨d, rfl⟩ | ⟨fk, rfl⟩ <;> rfl
  rw [tableRequests, List.filterMap_append, List.filterMap_append, hstated]
  simp [List.filterMap_map, Function.comp_def, Request.constrained?]

end Requests

/-- A carried key is on the column that carries it, and that column is of one of the two
types that can. -/
theorem column_of_carriedKey? (c : Column) (fk : ForeignKey) (h : t.carriedKey? c = some fk) :
    fk.column = c.name ∧ (c.type = .foreignId ∨ c.type = .uuid) := by
  rw [Table.carriedKey?] at h
  split at h
  · rename_i hcarries
    obtain rfl := Option.some.inj h
    refine ⟨rfl, ?_⟩
    simp only [carriesKey, Bool.or_eq_true, Bool.and_eq_true, decide_eq_true_eq] at hcarries
    rcases hcarries with hid | ⟨⟨huuid, -⟩, -⟩
    · exact .inl hid
    · exact .inr huuid
  · cases h

/-- A stated key is on its column, too, and that column is of neither of those types. So no
key is both carried and stated. -/
theorem column_of_statedKey? (c : Column) (fk : ForeignKey) (h : t.statedKey? c = some fk) :
    fk.column = c.name ∧ ¬(c.type = .foreignId ∨ c.type = .uuid) := by
  rw [Table.statedKey?] at h
  split at h
  · cases h
  · rename_i htype
    exact ⟨beq_iff_eq.mp (mem_of_findLast?_eq_some h).2, htype⟩

/-- A column with a foreign key that comes with its declaration is one of its own. -/
theorem nodup_keys (hd : (t.columns.map Column.name).Nodup) :
    ((t.ownColumns.filterMap t.carriedKey? ++ t.statedKeys).map ForeignKey.column).Nodup := by
  have hown : (t.ownColumns.map Column.name).Nodup := hd.sublist (List.filter_sublist.map _)
  have hstated : (t.statedColumns.map Column.name).Nodup :=
    hd.sublist ((List.filter_sublist.trans List.eraseP_sublist).map _)
  rw [List.map_append, List.nodup_append]
  refine ⟨hown.sublist
    (sublist_map_filterMap fun c _ fk hfk => (column_of_carriedKey? c fk hfk).1),
    hstated.sublist (sublist_map_filterMap fun c _ fk hfk => (column_of_statedKey? c fk hfk).1),
    ?_⟩
  -- a carried key and a stated one are on columns of different types
  intro n hn m hm heq
  obtain ⟨fk, hfk, rfl⟩ := List.mem_map.mp hn
  obtain ⟨fk', hfk', rfl⟩ := List.mem_map.mp hm
  obtain ⟨c, hc, hcfk⟩ := List.mem_filterMap.mp hfk
  obtain ⟨d, hdm, hdfk⟩ := List.mem_filterMap.mp hfk'
  obtain ⟨hname, htype⟩ := column_of_carriedKey? c fk hcfk
  obtain ⟨hname', htype'⟩ := column_of_statedKey? d fk' hdfk
  have hsame : c = d :=
    List.inj_on_of_nodup_map hstated (mem_statedColumns_of_mem_ownColumns hc) hdm
    (by rw [← hname, ← hname', heq])
  exact htype' (hsame ▸ htype)

/-- The draft that is gathered from the statements of a table. -/
def tableDraft (t : Table) : Draft :=
  Draft.ofStatements ((tableCalls t.columns t.foreignKeys).map Call.statement)

/-- The draft of a table gathers what its calls ask for, since each call is read back as
what it was written for. -/
theorem tableDraft_eq_foldl (t : Table) : tableDraft t
    = ((tableCalls t.columns t.foreignKeys).flatMap Call.requests).foldl Draft.add {} := by
  rw [tableDraft, Draft.ofStatements, List.flatMap_map]
  rfl

/-- A table's statements state an identifier, columns and keys; nothing is dropped or
renamed. Of several identifiers the last one stays. -/
theorem tableDraft_eq (hn : Named t.columns t.foreignKeys)
    (hd : (t.columns.map Column.name).Nodup) :
    tableDraft t = { identifier := t.identifierNames.getLast?
                     columns := t.ownColumns.flatMap (spokenColumns t)
                     foreignKeys := t.ownColumns.filterMap t.carriedKey?
                     constraints := t.statedKeys } := by
  -- names stand once, so that entering one after another is putting into a row
  have hcolumns : (t.ownColumns.flatMap (spokenColumns t)).foldl
      (fun columns c => putColumn c columns) []
      = t.ownColumns.flatMap (spokenColumns t) :=
    foldl_putColumn_of_nodup _ [] (nodup_flatMap_spokenColumns hd)
  have hkeys : (t.ownColumns.filterMap t.carriedKey?).foldl
      (fun fks fk => putForeignKey fk fks) []
      = t.ownColumns.filterMap t.carriedKey? := by
    have hnodup := nodup_keys hd
    rw [List.map_append, List.nodup_append] at hnodup
    exact foldl_putForeignKey_of_nodup _ [] hnodup.1
  -- what a table's statements do not ask for is not gathered
  have hdropped : (tableRequests t).flatMap Request.droppedColumns = [] := by
    refine List.flatMap_eq_nil_iff.mpr fun r hr => ?_
    rcases mem_tableRequests t hr with ⟨_, rfl⟩ | ⟨_, rfl⟩ | ⟨_, rfl⟩ | ⟨_, rfl⟩ <;> rfl
  have hdroppedKeys : (tableRequests t).flatMap Request.droppedKeys = [] := by
    refine List.flatMap_eq_nil_iff.mpr fun r hr => ?_
    rcases mem_tableRequests t hr with ⟨_, rfl⟩ | ⟨_, rfl⟩ | ⟨_, rfl⟩ | ⟨_, rfl⟩ <;> rfl
  have hrenamed : (tableRequests t).filterMap Request.renamed? = [] := by
    refine List.filterMap_eq_nil_iff.mpr fun r hr => ?_
    rcases mem_tableRequests t hr with ⟨_, rfl⟩ | ⟨_, rfl⟩ | ⟨_, rfl⟩ | ⟨_, rfl⟩ <;> rfl
  rw [tableDraft_eq_foldl, requests_tableCalls hn hd, Draft.foldl_add_eq,
    filterMap_identified?_tableRequests, filterMap_declared?_tableRequests, hcolumns,
    filterMap_referred?_tableRequests, hkeys, filterMap_constrained?_tableRequests, hdropped,
    hdroppedKeys, hrenamed]

/-! ### Reading a table back -/

/-- A key is stated on the name of a column if it is stated for that column. -/
theorem any_statedKeys (hd : (t.columns.map Column.name).Nodup) {c : Column}
    (hc : c ∈ t.statedColumns) :
    (t.statedKeys.any fun fk => fk.column == c.name) = (t.statedKey? c).isSome := by
  rw [Bool.eq_iff_iff, List.any_eq_true]
  constructor
  · rintro ⟨fk, hfk, hname⟩
    obtain ⟨d, hdm, hdfk⟩ := List.mem_filterMap.mp hfk
    have hsame : d = c := List.inj_on_of_nodup_map hd (mem_columns_of_mem_statedColumns hdm)
      (mem_columns_of_mem_statedColumns hc)
      (by rw [← (column_of_statedKey? d fk hdfk).1, beq_iff_eq.mp hname])
    rw [← hsame, hdfk]
    rfl
  · intro hsome
    obtain ⟨fk, hfk⟩ := Option.isSome_iff_exists.mp hsome
    exact ⟨fk, List.mem_filterMap.mpr ⟨c, hc, hfk⟩,
      beq_iff_eq.mpr (column_of_statedKey? c fk hfk).1⟩

/-- No key is stated on a name that no stated column bears, in particular on that of a
made-up identifier. -/
theorem any_statedKeys_of_ne (name : String) (hname : ∀ c ∈ t.statedColumns, c.name ≠ name) :
    (t.statedKeys.any fun fk => fk.column == name) = false := by
  rw [Bool.eq_false_iff]
  intro hany
  obtain ⟨fk, hfk, heq⟩ := List.any_eq_true.mp hany
  obtain ⟨d, hd, hdfk⟩ := List.mem_filterMap.mp hfk
  exact hname d hd (by rw [← (column_of_statedKey? d fk hdfk).1, beq_iff_eq.mp heq])

/-- Flagging what has a stated key gives the columns that come back. The column of a
reference is flagged from the start. -/
theorem map_flag_spokenColumns (hd : (t.columns.map Column.name).Nodup) {c : Column}
    (hc : c ∈ t.ownColumns) :
    (spokenColumns t c).map (fun d =>
      if t.statedKeys.any (fun fk => fk.column == d.name) then d.flagged else d)
        = t.rereadColumn c := by
  have hstated := mem_statedColumns_of_mem_ownColumns hc
  rw [spokenColumns, Table.rereadColumn]
  split
  · rfl
  · rw [declaredColumns, Table.settledColumn]
    cases hstem : t.morphStem? c with
    | some stem =>
        -- a reference to any table's rows has no key, and neither has its type column
        obtain ⟨hname, -, hkey, -⟩ := of_morphStem? hstem
        have hid := any_statedKeys hd hstated
        rw [hname, Table.statedKey?, hkey, ite_self] at hid
        have htype := any_statedKeys_of_ne (t := t) (stem ++ morphTypeEnd) fun d hdm =>
          name_ne_of_mem_statedColumns hdm (mem_columns_of_mem_ownColumns hc) hstem
        simp only [morphColumns, List.map_cons, List.map_nil, hid, htype, Option.isSome_none,
          Bool.false_eq_true, if_false]
    | none =>
        have hany := any_statedKeys hd hstated
        have hdeclared : (declaredColumn c (t.keyOn? c)).name = c.name := rfl
        simp only [List.map_cons, List.map_nil, hdeclared, hany]
        by_cases htype : c.type = .foreignId ∨ c.type = .uuid
        · rw [Table.statedKey?, if_pos htype]
          rcases htype with htype | htype
          · simp [declaredColumn, carriesKey, htype]
          · simp [declaredColumn, htype]
        · have hcarries : carriesKey c (t.keyOn? c) = false := by
            rw [not_or] at htype
            simp [carriesKey, htype]
          rw [Table.statedKey?, if_neg htype]
          rw [not_or] at htype
          cases t.keyOn? c with
          | none => simp [declaredColumn]
          | some fk => simp [declaredColumn, htype, Column.flagged]

/-- The columns of a table's draft are the identifier and then the other columns, in the
order of the table. -/
theorem orderedColumns_tableDraft (hn : Named t.columns t.foreignKeys)
    (hd : (t.columns.map Column.name).Nodup) :
    (tableDraft t).orderedColumns
      = t.identifierNames.getLast?.toList.map Draft.identifierColumn
        ++ t.ownColumns.flatMap (spokenColumns t) := by
  rw [tableDraft_eq hn hd, Draft.orderedColumns]
  cases hlast : t.identifierNames.getLast? with
  | none => rfl
  | some n =>
      show Draft.identifierColumn n :: (t.ownColumns.flatMap (spokenColumns t)).filter
        (fun c => c.name != n) = _
      rw [List.filter_eq_self.mpr]
      · rfl
      · -- the identifier takes no other column's place
        intro d hdm
        obtain ⟨c, hc, hdc⟩ := List.mem_flatMap.mp hdm
        exact bne_iff_ne.mpr (name_ne_of_mem_identifierNames hd (List.mem_of_getLast? hlast) hc
          (mem_declaredColumns_of_mem_spokenColumns hdc))

/-- The names of the ordered columns are distinct, so no column of the draft takes the place
of another. -/
theorem nodup_orderedColumns (hd : (t.columns.map Column.name).Nodup) :
    ((t.identifierNames.getLast?.toList.map Draft.identifierColumn
      ++ t.ownColumns.flatMap (spokenColumns t)).map Column.name).Nodup := by
  rw [List.map_append, List.nodup_append]
  refine ⟨?_, nodup_flatMap_spokenColumns hd, ?_⟩
  · cases t.identifierNames.getLast? with
    | none => exact List.nodup_nil
    | some n => exact List.nodup_singleton _
  · intro n hnm m hm heq
    obtain ⟨i, hi, rfl⟩ := List.mem_map.mp hnm
    obtain ⟨name, hname, rfl⟩ := List.mem_map.mp hi
    obtain ⟨d, hdm, rfl⟩ := List.mem_map.mp hm
    obtain ⟨c, hc, hdc⟩ := List.mem_flatMap.mp hdm
    have hlast := List.mem_of_getLast? (Option.mem_toList.mp hname)
    exact name_ne_of_mem_identifierNames hd hlast hc
      (mem_declaredColumns_of_mem_spokenColumns hdc)
      heq.symm

/-- The columns that are read from the statements of a table with distinct names: the
identifier that was stated last, then what comes back of each other column. -/
theorem finalColumns_tableDraft_eq (hn : Named t.columns t.foreignKeys)
    (hd : (t.columns.map Column.name).Nodup) :
    (tableDraft t).finalColumns = t.rereadIdentifier ++ t.ownColumns.flatMap t.rereadColumn := by
  -- with distinct names, flagging one column after another flags each of them on its own
  have hfold := foldl_flag_of_nodup t.statedKeys _ (nodup_orderedColumns hd)
  have hidentifier : (t.identifierNames.getLast?.toList.map Draft.identifierColumn).map (fun d =>
      if t.statedKeys.any (fun fk => fk.column == d.name) then d.flagged else d)
      = t.rereadIdentifier := by
    rw [List.map_map, Table.rereadIdentifier]
    refine List.map_congr_left fun n _ => ?_
    show (if t.statedKeys.any (fun fk => fk.column == n) then (Draft.identifierColumn n).flagged
      else Draft.identifierColumn n) = _
    cases t.statedKeys.any fun fk => fk.column == n <;> rfl
  have hown : (t.ownColumns.flatMap (spokenColumns t)).map (fun d =>
      if t.statedKeys.any (fun fk => fk.column == d.name) then d.flagged else d)
      = t.ownColumns.flatMap t.rereadColumn := by
    rw [List.map_flatMap]
    exact List.flatMap_congr fun c hc => map_flag_spokenColumns hd hc
  calc (tableDraft t).finalColumns
      = t.statedKeys.foldl (fun columns fk => updateColumn fk.column Column.flagged columns)
          (tableDraft t).orderedColumns := by
        rw [Draft.finalColumns, tableDraft_eq hn hd]
        rfl
    _ = t.rereadIdentifier ++ t.ownColumns.flatMap t.rereadColumn := by
        rw [orderedColumns_tableDraft hn hd, hfold, List.map_append, hidentifier, hown]

/-- The keys that are read from the statements of a table with distinct names: those that
columns carry, and behind them those that are stated apart. -/
theorem finalForeignKeys_tableDraft_eq (hn : Named t.columns t.foreignKeys)
    (hd : (t.columns.map Column.name).Nodup) :
    (tableDraft t).finalForeignKeys = t.ownColumns.filterMap t.carriedKey? ++ t.statedKeys := by
  rw [Draft.finalForeignKeys, tableDraft_eq hn hd]
  exact foldl_putForeignKey_of_nodup _ _ (nodup_keys hd)

/-! ### Settled tables -/

/-- With one identifier at most, the stated columns are those of their own: the identifier
is written by a statement apart. -/
theorem statedColumns_eq (hid : (t.columns.filter fun c => c.type == .id).length ≤ 1) :
    t.statedColumns = t.ownColumns := by
  rw [Table.statedColumns, eraseP_eq_filter hid, List.filter_filter, Table.ownColumns]
  refine List.filter_congr fun c _ => ?_
  cases hid : c.type == ColumnType.id <;> simp [bne, hid]

/-- With one identifier at most, the settled identifier comes back, or the usual one where a
table has none. -/
theorem rereadIdentifier_eq (hd : (t.columns.map Column.name).Nodup)
    (hid : (t.columns.filter fun c => c.type == .id).length ≤ 1) :
    t.rereadIdentifier = t.settledIdentifier := by
  -- no column is stated as another identifier
  have hstated : t.statedColumns.filter (fun c => c.type == .id) = [] := by
    rw [statedColumns_eq hid]
    exact List.filter_eq_nil_iff.mpr fun c hc => by simpa using type_ne_of_mem_ownColumns hc
  have hnames : t.identifierNames = t.settledIdentifier.map Column.name := by
    rw [Table.identifierNames, hstated, List.map_nil, List.append_nil]
  have hshape : t.settledIdentifier = [] ∨ ∃ n,
      t.settledIdentifier = [Draft.identifierColumn n] := by
    rw [Table.settledIdentifier]
    split
    · exact .inr ⟨_, rfl⟩
    · split
      · exact .inl rfl
      · exact .inr ⟨_, rfl⟩
  rcases hshape with hi | ⟨n, hi⟩
  · rw [Table.rereadIdentifier, hnames, hi]
    rfl
  · have hn : n ∈ t.identifierNames := by
      rw [hnames, hi]
      exact List.mem_singleton_self n
    -- and no key is stated on the identifier, so nothing flags it
    have hnone := any_statedKeys_of_ne (t := t) n fun c hc => by
      rw [statedColumns_eq hid] at hc
      rcases mem_identifierNames hn with ⟨x, hx, hid, rfl⟩ | ⟨-, -, hfree⟩
      · intro hname
        obtain rfl := List.inj_on_of_nodup_map hd (mem_columns_of_mem_ownColumns hc) hx hname
        exact type_ne_of_mem_ownColumns hc hid
      · intro hname
        exact hfree (List.mem_map.mpr ⟨c, mem_columns_of_mem_ownColumns hc, hname⟩)
    rw [Table.rereadIdentifier, hnames, hi]
    show [{ Draft.identifierColumn n with isForeign := t.statedKeys.any fun fk =>
      fk.column == n }] = _
    rw [hnone]
    rfl

/-- The columns that are read from the statements of a table with one identifier at
most, in which no reference lacks a stem. -/
theorem finalColumns_tableDraft_eq_settled (hn : Named t.columns t.foreignKeys)
    (hd : (t.columns.map Column.name).Nodup)
    (hid : (t.columns.filter fun c => c.type == .id).length ≤ 1)
    (hstem : ∀ c ∈ t.ownColumns, t.morphStem? c ≠ some "") :
    (tableDraft t).finalColumns = t.settled.columns := by
  rw [finalColumns_tableDraft_eq hn hd, rereadIdentifier_eq hd hid]
  exact congrArg (t.settledIdentifier ++ ·) (List.flatMap_congr fun c hc => if_neg (hstem c hc))

/-- The keys that are read from the statements of a table with one identifier at most. -/
theorem finalForeignKeys_tableDraft_eq_settled (hn : Named t.columns t.foreignKeys)
    (hd : (t.columns.map Column.name).Nodup)
    (hid : (t.columns.filter fun c => c.type == .id).length ≤ 1) :
    (tableDraft t).finalForeignKeys = t.settled.foreignKeys := by
  rw [finalForeignKeys_tableDraft_eq hn hd, Table.statedKeys, statedColumns_eq hid]
  rfl

/-! ### Regular tables -/

/-- The columns that are read from the statements of a regular table are those of the
settled table. -/
theorem finalColumns_tableDraft (h : t.Regular) :
    (tableDraft t).finalColumns = t.settled.columns := by
  refine finalColumns_tableDraft_eq_settled h.named h.distinct h.oneIdentifier
    fun c hc hstem => ?_
  -- a column of that name would be called like the ending of a reference
  obtain ⟨hname, -, -, -⟩ := of_morphStem? hstem
  exact h.noBareEnd c (mem_columns_of_mem_ownColumns hc) (by rw [hname]; rfl)

/-- The keys that are read from the statements of a regular table are those of the settled
table. -/
theorem finalForeignKeys_tableDraft (h : t.Regular) :
    (tableDraft t).finalForeignKeys = t.settled.foreignKeys :=
  finalForeignKeys_tableDraft_eq_settled h.named h.distinct h.oneIdentifier

end Reread

end Migration

end SchemaAtlas
