import SchemaAtlas.Proofs.Migration.Alteration
import SchemaAtlas.Proofs.Migration.Extracted

/-!
# `SchemaAtlas.Proofs.Migration.Reread`: what becomes of a column that is written and read

A table is written as a whole, so a column that nobody meant to change is written
and read like any other. What comes back of it is `Table.returned`: under its own
name always, with its type and nullability (`like_returned`), and just as it was if
its flags and its key are such as a statement can express (`Table.Expresses`,
`returned_eq_self`). No other names come back, but for an identifier that a table
without one is given (`mem_names_extracted`).

The audit columns are not written, since they have a statement of their own which
names no columns. Of several identifiers, only the last one comes back.
-/

set_option autoImplicit false

namespace SchemaAtlas

open SchemaAtlas.Text SchemaAtlas.Migration

/-! ### What comes back of a column -/

namespace Table

/-- Holds of the last identifier among the columns of a table. -/
def LastIdentifier (t : Table) (c : Column) : Prop :=
  (t.columns.filter fun c => c.type == .id).getLast? = some c

instance (t : Table) (c : Column) : Decidable (t.LastIdentifier c) :=
  inferInstanceAs (Decidable (_ = some c))

/-- No identifier stands behind the last one. The columns are cut there, so that what is
behind it can be passed over. -/
theorem LastIdentifier.exists_cut {t : Table} {c : Column} (h : t.LastIdentifier c) :
    ∃ before after, t.columns = before ++ c :: after ∧ c.type = .id ∧ ∀ d ∈ after,
      d.type ≠ .id := by
  obtain ⟨others, hothers⟩ := List.getLast?_eq_some_iff.mp h
  obtain ⟨front, rest, hcut, -, hrest⟩ := List.filter_eq_append_iff.mp hothers
  obtain ⟨between, after, rfl, -, hid, hafter⟩ := List.filter_eq_cons_iff.mp hrest
  refine ⟨front ++ between, after, by rw [hcut, List.append_assoc], beq_iff_eq.mp hid,
    fun d hd => ?_⟩
  simpa using List.filter_eq_nil_iff.mp hafter d hd

/-- Holds of a column name that is written by a statement of its own and is more than
the ending of a reference. -/
def Spoken (name : String) : Prop :=
  name ∉ Naming.auditColumns ∧ name ≠ Naming.referenceEnd ∧ name ≠ morphTypeEnd

instance (name : String) : Decidable (Spoken name) :=
  inferInstanceAs (Decidable (_ ∧ _ ∧ _))

/-- What comes back of a column. -/
def returned (t : Table) (c : Column) : Column :=
  if c.type = .id then
    { Draft.identifierColumn c.name with isForeign := t.statedKeys.any fun fk =>
      fk.column == c.name }
  else if t.isMorphType c then { name := c.name, type := .string, nullable := c.nullable }
  else match t.morphStem? c with
    | some _ => { name := c.name, type := c.type, isForeign := true, nullable := c.nullable }
    | none =>
      let carries := carriesKey c (t.keyOn? c)
      { c with
        isPrimary := (c.isPrimary && !carries) || (c.type = .uuid && c.name = Naming.identifier)
        isForeign := carries || (c.type ≠ .uuid && (t.keyOn? c).isSome) }

/-- Holds of a column whose flags and key are such as its statement says. -/
structure Expresses (t : Table) (c : Column) : Prop where
  /-- An identifier is the last one, and it is primary, never null, and no reference. -/
  identifier : c.type = .id → c = Draft.identifierColumn c.name ∧ t.keyOn? c = none
    ∧ t.LastIdentifier c
  /-- Any other column is flagged just if it has a key or is half of a reference to any
  table's rows. -/
  flag : c.type ≠ .id → c.isForeign = ((t.keyOn? c).isSome || (t.morphStem? c).isSome)
  /-- A foreign identifier has a key. -/
  foreignId : c.type = .foreignId → (t.keyOn? c).isSome = true
  /-- The type column of such a reference has none, and is not primary. -/
  half : t.isMorphType c = true → t.keyOn? c = none ∧ c.isPrimary = false
  /-- No column is primary whose statement carries a key, or which is the other half. -/
  primary : c.isPrimary = true → (c.type = .uuid ∧ c.name = Naming.identifier)
    ∨ (carriesKey c (t.keyOn? c) = false ∧ t.morphStem? c = none)
  /-- But a universal identifier under the usual name is. -/
  universal : c.type = .uuid → c.name = Naming.identifier → c.isPrimary = true

instance (t : Table) (c : Column) : Decidable (t.Expresses c) :=
  decidable_of_iff
    ((c.type = .id → c = Draft.identifierColumn c.name ∧ t.keyOn? c = none ∧ t.LastIdentifier c)
      ∧ (c.type ≠ .id → c.isForeign = ((t.keyOn? c).isSome || (t.morphStem? c).isSome))
      ∧ (c.type = .foreignId → (t.keyOn? c).isSome = true)
      ∧ (t.isMorphType c = true → t.keyOn? c = none ∧ c.isPrimary = false)
      ∧ (c.isPrimary = true → (c.type = .uuid ∧ c.name = Naming.identifier)
        ∨ (carriesKey c (t.keyOn? c) = false ∧ t.morphStem? c = none))
      ∧ (c.type = .uuid → c.name = Naming.identifier → c.isPrimary = true))
    ⟨fun ⟨hidentifier, hflag, hforeignId, hhalf, hprimary, huniversal⟩ =>
      ⟨hidentifier, hflag, hforeignId, hhalf, hprimary, huniversal⟩,
      fun h => ⟨h.identifier, h.flag, h.foreignId, h.half, h.primary, h.universal⟩⟩

end Table

namespace Migration

variable {t : Table} {c : Column}

/-- The type column of a reference is a plain string, and it may be null just when the
identifier half of the reference may be. -/
theorem eq_of_isMorphType (hd : (t.columns.map Column.name).Nodup) (hc : c ∈ t.columns)
    (h : t.isMorphType c = true) :
    c.type = .string ∧ ∃ x ∈ t.columns, ∃ stem, t.morphStem? x = some stem
      ∧ c.name = stem ++ morphTypeEnd ∧ c.nullable = x.nullable := by
  obtain ⟨x, hx, hany⟩ := List.any_eq_true.mp h
  cases hstem : t.morphStem? x with
  | none =>
      rw [hstem] at hany
      cases hany
  | some stem =>
      rw [hstem] at hany
      have hname : stem ++ morphTypeEnd = c.name := beq_iff_eq.mp hany
      obtain ⟨-, -, -, d, hdm, hdn, hstring, hnullable⟩ := of_morphStem? hstem
      obtain rfl : d = c := List.inj_on_of_nodup_map hd hdm hc (by rw [hdn, hname])
      exact ⟨hstring, x, hx, stem, hstem, hdn, hnullable⟩

/-- The identifier half of a reference has a statement of its own, which speaks for the type
column as well. -/
theorem mem_ownColumns_of_morphStem? (hd : (t.columns.map Column.name).Nodup) (hc : c ∈ t.columns)
    {stem : String} (hstem : t.morphStem? c = some stem) : c ∈ t.ownColumns := by
  obtain ⟨hname, htype, -, -⟩ := of_morphStem? hstem
  have hid : c.type ≠ .id := by
    rcases htype with htype | htype
    · simp [htype]
    · simp [htype]
  -- its last character is that of no audit column and of no type column
  have hlast : c.name.toList.getLast? = some 'd' := by
    rw [hname, String.toList_append, List.getLast?_append]
    rfl
  have haudit : Naming.auditColumns.contains c.name = false := by
    rw [← Bool.not_eq_true, List.contains_iff_mem]
    intro hm
    have hends : ∀ n ∈ Naming.auditColumns, n.toList.getLast? = some 't' := by decide
    rw [hends c.name hm] at hlast
    cases hlast
  have hhalf : t.isMorphType c = false := by
    rw [← Bool.not_eq_true]
    intro h
    obtain ⟨-, x, -, stem', -, hname', -⟩ := eq_of_isMorphType hd hc h
    rw [hname', String.toList_append, List.getLast?_append] at hlast
    cases hlast
  refine List.mem_filter.mpr ⟨hc, ?_⟩
  rw [haudit, hhalf]
  simpa using hid

section Cut

variable {before after : List Column} (hcut : t.columns = before ++ c :: after)
    (hid : c.type = .id)
  (hnone : ∀ d ∈ after, ¬(d.type == ColumnType.id) = true)

include hcut hid hnone

/-- Behind another identifier, the last one has a statement of its own, and no identifier behind
it. -/
theorem getLast?_filter_statedColumns (hfirst : ∃ d ∈ before, (d.type == ColumnType.id) = true)
    (haudit : c.name ∉ Naming.auditColumns) (hhalf : t.isMorphType c = false) :
    (t.statedColumns.filter fun c => c.type == .id).getLast? = some c := by
  obtain ⟨d, hdm, hdid⟩ := hfirst
  have herase : (before ++ c :: after).eraseP (fun c => c.type == .id)
      = before.eraseP (fun c => c.type == .id) ++ c :: after :=
    List.eraseP_append_left (by simpa using hdid) (c :: after) hdm
  rw [Table.statedColumns, hcut, herase, List.filter_append, List.filter_append,
    List.filter_cons_of_pos (by simpa [hhalf] using haudit),
    List.filter_cons_of_pos (by simp [hid]), List.filter_eq_nil_iff.mpr fun d hdm =>
      hnone d (List.mem_filter.mp hdm).1, List.getLast?_concat]

/-- If no identifier stands before the last one, none has a statement among the other
columns. -/
theorem filter_statedColumns_eq_nil (hbefore : ∀ d ∈ before, ¬(d.type == ColumnType.id) = true) :
    (t.statedColumns.filter fun c => c.type == .id) = [] := by
  refine List.filter_eq_nil_iff.mpr fun d hdm => ?_
  rw [Table.statedColumns, hcut, List.eraseP_append_right _ hbefore,
    List.eraseP_cons_of_pos (by simp [hid])] at hdm
  rcases List.mem_append.mp (List.mem_filter.mp hdm).1 with hdm | hdm
  · exact hbefore d hdm
  · exact hnone d hdm

end Cut

/-- The last identifier is what the identifier is called in the end, since each statement of
an identifier takes the place of the one before. -/
theorem getLast?_identifierNames (hd : (t.columns.map Column.name).Nodup)
    (hlast : t.LastIdentifier c)
    (haudit : c.name ∉ Naming.auditColumns) : t.identifierNames.getLast? = some c.name := by
  obtain ⟨before, after, hcut, hid, hafter⟩ := hlast.exists_cut
  have hc : c ∈ t.columns := by
    rw [hcut]
    exact List.mem_append_right before List.mem_cons_self
  have hhalf : t.isMorphType c = false := by
    rw [← Bool.not_eq_true]
    intro h
    have hstring := (eq_of_isMorphType hd hc h).1
    rw [hid] at hstring
    cases hstring
  have hnone : ∀ d ∈ after, ¬(d.type == ColumnType.id) = true :=
    fun d hdm => by simpa using hafter d hdm
  -- the first identifier has a statement apart; the last one has another, or is the first
  by_cases hfirst : ∃ d ∈ before, (d.type == ColumnType.id) = true
  · have hstated := getLast?_filter_statedColumns hcut hid hnone hfirst haudit hhalf
    rw [Table.identifierNames, List.getLast?_append, List.getLast?_map, hstated]
    rfl
  · have hbefore : ∀ d ∈ before, ¬(d.type == ColumnType.id) = true :=
      fun d hdm hdid => hfirst ⟨d, hdm, hdid⟩
    have hfound : t.columns.find? (fun c => c.type == .id) = some c := by
      rw [hcut, List.find?_append, List.find?_eq_none.mpr hbefore, Option.none_or,
        List.find?_cons_of_pos (by simp [hid])]
    rw [Table.identifierNames, filter_statedColumns_eq_nil hcut hid hnone hbefore,
      Table.settledIdentifier, hfound]
    rfl

/-- A string is the identifier half of nothing, since identifiers are numbers or have a type
of their own. -/
theorem morphStem?_eq_none_of_string (h : c.type = .string) : t.morphStem? c = none := by
  cases hstem : t.morphStem? c with
  | none => rfl
  | some stem =>
      have htype := (of_morphStem? hstem).2.1
      simp [h] at htype

/-- A column without a foreign key has none stated on it, and so its flag stays unset. -/
theorem any_statedKeys_eq_false (hd : (t.columns.map Column.name).Nodup) (hc : c ∈ t.columns)
    (hkey : t.keyOn? c = none) : (t.statedKeys.any fun fk => fk.column == c.name) = false := by
  rw [Bool.eq_false_iff]
  intro hany
  obtain ⟨fk, hfk, hname⟩ := List.any_eq_true.mp hany
  obtain ⟨d, hdm, hdfk⟩ := List.mem_filterMap.mp hfk
  obtain ⟨hcolumn, -⟩ := column_of_statedKey? d fk hdfk
  obtain rfl : d = c := List.inj_on_of_nodup_map hd (mem_columns_of_mem_statedColumns hdm) hc
    (by rw [← hcolumn, beq_iff_eq.mp hname])
  rw [Table.statedKey?, hkey, ite_self] at hdfk
  cases hdfk

end Migration

namespace Table.Expresses

variable {t : Table} {c : Column}

/-! ### Flags that come back -/

/-- The identifier half of a reference is not primary, if its flags are such as its
statement can express. -/
theorem isPrimary_of_morphStem? (h : t.Expresses c) {stem : String}
    (hstem : t.morphStem? c = some stem) : c.isPrimary = false := by
  obtain ⟨hname, -, -, -⟩ := of_morphStem? hstem
  rw [← Bool.not_eq_true]
  intro hprimary
  rcases h.primary hprimary with ⟨-, hidname⟩ | ⟨-, hnone⟩
  · -- its name is longer than that of an identifier
    have hlength := congrArg (fun s : String => s.toList.length) (hname.symm.trans hidname)
    simp only [String.toList_append, List.length_append] at hlength
    have hend : Naming.referenceEnd.toList.length = 3 := rfl
    have hidentifier : Naming.identifier.toList.length = 2 := rfl
    omega
  · rw [hstem] at hnone
    cases hnone

/-- The flag of a plain column is read off its key. A column that can carry its key does,
and any other has it stated apart. -/
theorem isForeign_eq (h : t.Expresses c) (hid : c.type ≠ .id) (hstem : t.morphStem? c = none) :
    (carriesKey c (t.keyOn? c) || (c.type ≠ .uuid && (t.keyOn? c).isSome)) = c.isForeign := by
  have hflag := h.flag hid
  rw [hstem, Option.isSome_none, Bool.or_false] at hflag
  rw [hflag]
  by_cases hforeignId : c.type = .foreignId
  · simp [carriesKey, hforeignId, h.foreignId hforeignId]
  · by_cases huuid : c.type = .uuid
    · simp [carriesKey, huuid, hflag]
    · simp [carriesKey, hforeignId, huuid]

/-- A plain column is primary as it was. Only a universal identifier under the usual name is
primary without being told so. -/
theorem isPrimary_eq (h : t.Expresses c) :
    (c.isPrimary && !carriesKey c (t.keyOn? c) || (c.type = .uuid && c.name = Naming.identifier))
      = c.isPrimary := by
  cases hp : c.isPrimary with
  | false =>
      have hnot : ¬(c.type = .uuid ∧ c.name = Naming.identifier) := by
        intro hboth
        rw [h.universal hboth.1 hboth.2] at hp
        cases hp
      simpa using hnot
  | true =>
      rcases h.primary hp with ⟨huuid, hname⟩ | ⟨hcarries, -⟩
      · simp [huuid, hname]
      · simp [hcarries]

end Table.Expresses

namespace Migration

variable {t : Table} {c : Column}

/-! ### Columns that come back -/

section Written

variable (hn : Named t.columns t.foreignKeys) (hd : (t.columns.map Column.name).Nodup)

include hn hd

/-- What is to come back of a column does, unless it is an identifier before the
last. -/
theorem returned_mem_extracted (hc : c ∈ t.columns) (hspoken : Table.Spoken c.name)
    (hlast : c.type = .id → t.LastIdentifier c) : t.returned c ∈ (extracted t).columns := by
  show t.returned c ∈ (tableDraft t).finalColumns
  rw [finalColumns_tableDraft_eq hn hd, List.mem_append, Table.returned]
  by_cases hid : c.type = .id
  · rw [if_pos hid, Table.rereadIdentifier, getLast?_identifierNames hd (hlast hid) hspoken.1]
    exact .inl List.mem_cons_self
  · rw [if_neg hid]
    right
    cases hhalf : t.isMorphType c with
    | true =>
        -- it comes back with the other half
        obtain ⟨-, x, hx, stem, hstem, hname, hnullable⟩ := eq_of_isMorphType hd hc hhalf
        have hne : t.morphStem? x ≠ some "" := by
          rw [hstem]
          rintro ⟨⟩
          exact hspoken.2.2 hname
        refine List.mem_flatMap.mpr ⟨x, mem_ownColumns_of_morphStem? hd hx hstem, ?_⟩
        rw [if_pos rfl, Table.rereadColumn, if_neg hne, Table.settledColumn, hstem, hname,
          hnullable]
        exact List.mem_cons_of_mem _ List.mem_cons_self
    | false =>
        have hown : c ∈ t.ownColumns := by
          refine List.mem_filter.mpr ⟨hc, ?_⟩
          have haudit : Naming.auditColumns.contains c.name = false := by simpa using hspoken.1
          rw [hhalf, haudit]
          simpa using hid
        refine List.mem_flatMap.mpr ⟨c, hown, ?_⟩
        rw [if_neg Bool.false_ne_true, Table.rereadColumn, Table.settledColumn]
        cases hstem : t.morphStem? c with
        | none =>
            rw [if_neg (by simp)]
            exact List.mem_cons_self
        | some stem =>
            obtain ⟨hname, -, -, -⟩ := of_morphStem? hstem
            have hne : stem ≠ "" := by
              rintro rfl
              exact hspoken.2.1 hname
            rw [if_neg (by simpa using hne), hname]
            exact List.mem_cons_self

omit hn hd in
/-- What comes back of a column has its name, whatever becomes of its type and its flags. -/
theorem name_returned (t : Table) (c : Column) : (t.returned c).name = c.name := by
  rw [Table.returned]
  split
  · rfl
  · split
    · rfl
    · split
      · rfl
      · rfl

omit hn in
/-- What comes back of a column has its type and nullability as well, if an identifier is
one that is never null. -/
theorem like_returned (hc : c ∈ t.columns) (hid : c.type = .id → c.nullable = false) :
    (t.returned c).Like c := by
  rw [Table.returned]
  split
  · rename_i htype
    exact ⟨rfl, htype.symm, (hid htype).symm⟩
  · split
    · rename_i hhalf
      exact ⟨rfl, (eq_of_isMorphType hd hc hhalf).1.symm, rfl⟩
    · split
      · exact ⟨rfl, rfl, rfl⟩
      · exact ⟨rfl, rfl, rfl⟩

omit hn in
/-- And it is the column itself where the column is such as its statement says. -/
theorem returned_eq_self (hc : c ∈ t.columns) (h : t.Expresses c) : t.returned c = c := by
  rw [Table.returned]
  by_cases hid : c.type = .id
  · obtain ⟨hself, hkey, -⟩ := h.identifier hid
    rw [if_pos hid, any_statedKeys_eq_false hd hc hkey]
    exact hself.symm
  · rw [if_neg hid]
    have hflag := h.flag hid
    cases hhalf : t.isMorphType c with
    | true =>
        -- a string is no other column's identifier half, so it has no flag at all
        obtain ⟨hstring, -⟩ := eq_of_isMorphType hd hc hhalf
        obtain ⟨hkey, hprimary⟩ := h.half hhalf
        rw [hkey, morphStem?_eq_none_of_string hstring] at hflag
        have hforeign : c.isForeign = false := hflag
        rw [if_pos rfl]
        exact Column.ext rfl hstring.symm hprimary.symm hforeign.symm rfl
    | false =>
        rw [if_neg Bool.false_ne_true]
        cases hstem : t.morphStem? c with
        | some stem =>
            have hforeign : c.isForeign = true := by
              rw [hflag, hstem]
              exact Bool.or_true _
            exact Column.ext rfl rfl (h.isPrimary_of_morphStem? hstem).symm hforeign.symm rfl
        | none => exact Column.ext rfl rfl h.isPrimary_eq (h.isForeign_eq hid hstem) rfl

/-- The key of such a column comes back with it, carried by the column or stated on it. -/
theorem mem_foreignKeys_extracted (hc : c ∈ t.columns) (haudit : c.name ∉ Naming.auditColumns)
    (h : t.Expresses c) {fk : ForeignKey} (hfk : t.keyOn? c = some fk) :
    fk ∈ (extracted t).foreignKeys := by
  show fk ∈ (tableDraft t).finalForeignKeys
  have hid : c.type ≠ .id := by
    intro hid
    rw [(h.identifier hid).2.1] at hfk
    cases hfk
  have hhalf : t.isMorphType c = false := by
    rw [← Bool.not_eq_true]
    intro hhalf
    rw [(h.half hhalf).1] at hfk
    cases hfk
  have hown : c ∈ t.ownColumns := by
    refine List.mem_filter.mpr ⟨hc, ?_⟩
    have hcontains : Naming.auditColumns.contains c.name = false := by simpa using haudit
    rw [hhalf, hcontains]
    simpa using hid
  have hcolumn : fk.column = c.name := beq_iff_eq.mp (mem_of_findLast?_eq_some hfk).2
  have hforeign : c.isForeign = true := by
    rw [h.flag hid, hfk]
    rfl
  rw [finalForeignKeys_tableDraft_eq hn hd, List.mem_append]
  by_cases hcarries : carriesKey c (t.keyOn? c) = true
  · refine .inl (List.mem_filterMap.mpr ⟨c, hown, ?_⟩)
    rw [Table.carriedKey?, if_pos hcarries, hfk, ← hcolumn]
    rfl
  · -- a key that the column's statement does not carry is stated apart
    refine .inr (List.mem_filterMap.mpr ⟨c, mem_statedColumns_of_mem_ownColumns hown, ?_⟩)
    have htype : ¬(c.type = .foreignId ∨ c.type = .uuid) := by
      rintro (htype | htype)
      · exact hcarries (by simp [carriesKey, htype])
      · exact hcarries (by simp [carriesKey, htype, hforeign, hfk])
    rw [Table.statedKey?, if_neg htype, hfk]

/-- A name that comes back is one of the table, or that of an identifier which the
table was given. -/
theorem mem_names_extracted {n : String} (h : n ∈ (extracted t).columns.map Column.name) :
    n ∈ t.columns.map Column.name ∨ n = Naming.identifier ∧ ∀ c ∈ t.columns, c.type ≠ .id := by
  have hfinal : (extracted t).columns
      = t.rereadIdentifier ++ t.ownColumns.flatMap t.rereadColumn :=
    finalColumns_tableDraft_eq hn hd
  rw [hfinal, List.map_append, List.mem_append] at h
  rcases h with h | h
  · obtain ⟨d, hdm, rfl⟩ := List.mem_map.mp h
    obtain ⟨name, hname, rfl⟩ := List.mem_map.mp hdm
    have hlast := List.mem_of_getLast? (Option.mem_toList.mp hname)
    show name ∈ _ ∨ name = _ ∧ _
    rcases mem_identifierNames hlast with ⟨x, hx, -, hxn⟩ | ⟨hidentifier, hnone, -⟩
    · exact .inl (List.mem_map.mpr ⟨x, hx, hxn⟩)
    · exact .inr ⟨hidentifier, hnone⟩
  · left
    obtain ⟨d, hdm, rfl⟩ := List.mem_map.mp h
    obtain ⟨x, hx, hdx⟩ := List.mem_flatMap.mp hdm
    -- flags do not matter for names
    have hdeclared : d.name ∈ (declaredColumns t x).map Column.name := by
      rw [Table.rereadColumn] at hdx
      split at hdx
      · cases hdx
      · rw [Table.settledColumn] at hdx
        rw [declaredColumns]
        cases hstem : t.morphStem? x with
        | some stem =>
            rw [hstem] at hdx
            exact List.mem_map_of_mem hdx
        | none =>
            rw [hstem] at hdx
            rw [List.mem_singleton.mp hdx]
            exact List.mem_cons_self
    obtain ⟨e, he, hen⟩ := List.mem_map.mp hdeclared
    obtain ⟨f, hf, hfn, -⟩ := exists_of_mem_declaredColumns hx he
    exact List.mem_map.mpr ⟨f, hf, hfn.trans hen⟩

end Written

end Migration

end SchemaAtlas
