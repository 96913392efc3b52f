import Mathlib.Data.List.Nodup
import SchemaAtlas.Proofs.Migration.Draft
import SchemaAtlas.Proofs.Migration.Requests
import SchemaAtlas.Proofs.Schema.Table

/-!
# `SchemaAtlas.Proofs.Migration.Stated`: what the statements of a table ask for

A written table states its identifier, its columns and some of its foreign keys.
What is stated is told here in terms of the table, without the renderer's lists:
which columns have statements of their own, which are half of a reference to any
table's rows, and which keys come with a column or are stated apart. With names
where names are expected, and distinct ones, the statements ask for just that
(`requests_tableCalls`).
-/

set_option autoImplicit false

namespace SchemaAtlas

open SchemaAtlas.Text SchemaAtlas.Migration SchemaAtlas.Scan

/-! ### What a table states -/

namespace Table

/-- The key on a column: the last one, if there are several. -/
def keyOn? (t : Table) (c : Column) : Option ForeignKey :=
  foreignKeyFor? t.foreignKeys c

/-- The stem of the reference to any table's rows that a column is the
identifier of: the column is flagged, has no key, and there is a type column of
the same stem that may be null if and only if it may be null itself. -/
def morphStem? (t : Table) (c : Column) : Option String := do
  let stem ← beforeTail? Naming.referenceEnd c.name
  if c.isForeign && (t.keyOn? c).isNone && (c.type = .uuid || c.type = .unsignedBigInteger)
      && t.columns.any (fun d => d.name == stem ++ morphTypeEnd && d.type == .string
        && d.nullable == c.nullable) then
    some stem
  else none

/-- Holds of the type columns of references to any table's rows. -/
def isMorphType (t : Table) (c : Column) : Bool :=
  t.columns.any fun d => (t.morphStem? d).any fun stem => stem ++ morphTypeEnd == c.name

/-- The columns that have a place of their own in the settled table, behind its
identifier. -/
def ownColumns (t : Table) : List Column :=
  t.columns.filter fun c =>
    c.type != .id && !Naming.auditColumns.contains c.name && !t.isMorphType c

/-- The identifier: the one of the table, or one under the usual name unless
another column bears that name. -/
def settledIdentifier (t : Table) : List Column :=
  match t.columns.find? fun c => c.type == .id with
  | some c => [Draft.identifierColumn c.name]
  | none => if t.hasColumn Naming.identifier then []
      else [Draft.identifierColumn Naming.identifier]

/-- The key that comes with the declaration of a column. -/
def carriedKey? (t : Table) (c : Column) : Option ForeignKey :=
  if carriesKey c (t.keyOn? c) then some ⟨c.name, targetOf c (t.keyOn? c)⟩ else none

/-- The key on a column that is stated apart. -/
def statedKey? (t : Table) (c : Column) : Option ForeignKey :=
  if c.type = .foreignId ∨ c.type = .uuid then none else t.keyOn? c

/-- The columns with statements of their own: all but the first identifier, the audit
columns, and the type columns of references. -/
def statedColumns (t : Table) : List Column :=
  (t.columns.eraseP fun c => c.type == .id).filter fun c =>
    !Naming.auditColumns.contains c.name && !t.isMorphType c

/-- What the identifier is called, statement by statement. -/
def identifierNames (t : Table) : List String :=
  t.settledIdentifier.map Column.name
    ++ (t.statedColumns.filter fun c => c.type == .id).map Column.name

/-- The keys that are stated apart. -/
def statedKeys (t : Table) : List ForeignKey :=
  t.statedColumns.filterMap t.statedKey?

end Table

namespace Migration

/-! ### The renderer's view of references -/

/-- Elements that are told apart by a key are found by it, from the end as well as from the
beginning. -/
theorem findLast?_of_nodup {α : Type} {key : α → String} {l : List α} (h : (l.map key).Nodup)
    {a : α}
    (ha : a ∈ l) : findLast? (fun b => key b == key a) l = some a := by
  cases hf : findLast? (fun b => key b == key a) l with
  | none =>
      have hall := List.find?_eq_none.mp hf a (List.mem_reverse.mpr ha)
      simp at hall
  | some b =>
      obtain ⟨hb, hkey⟩ := mem_of_findLast?_eq_some hf
      rw [List.inj_on_of_nodup_map h hb ha (beq_iff_eq.mp hkey)]

/-- A column has no key if and only if none of the table's foreign keys is on its name. -/
theorem isNone_keyOn? (t : Table) (c : Column) :
    (t.keyOn? c).isNone = !t.foreignKeys.any fun fk => fk.column == c.name := by
  rw [Table.keyOn?, foreignKeyFor?, findLast?, ← Option.not_isSome, List.isSome_find?,
    List.any_reverse]

/-- The methods of references to any table's rows are those of two identifier types, with
null values or without. -/
theorem morphMethod?_isSome (type : ColumnType) (nullable : Bool) :
    (morphMethod? type nullable).isSome
      = (type = .uuid || type = .unsignedBigInteger : Bool) := by
  cases nullable <;> cases type <;> rfl

section Stated

variable {t : Table}

/-- With distinct names, the renderer finds the references that `Table.morphStem?`
describes, each with its method. -/
theorem morphOf?_eq (hd : (t.columns.map Column.name).Nodup) (c : Column) :
    morphOf? t.columns t.foreignKeys c = (t.morphStem? c).bind fun stem =>
      (morphMethod? c.type c.nullable).map fun method => (stem, method) := by
  rw [morphOf?, Table.morphStem?, isNone_keyOn?, ← morphMethod?_isSome c.type c.nullable]
  cases beforeTail? Naming.referenceEnd c.name with
  | none => rfl
  | some stem =>
      -- the renderer takes the last column of the name, and there is only one
      have hany : (t.columns.any fun d => d.name == stem ++ morphTypeEnd && d.type == .string
          && d.nullable == c.nullable)
          = (findLast? (fun d => d.name == stem ++ morphTypeEnd) t.columns).any fun d =>
              d.type == .string && d.nullable == c.nullable := by
        rw [Bool.eq_iff_iff, List.any_eq_true, Option.any_eq_true_iff_get]
        constructor
        · rintro ⟨d, hmem, hcond⟩
          simp only [Bool.and_eq_true, beq_iff_eq] at hcond
          have hfind := findLast?_of_nodup hd hmem
          rw [hcond.1.1] at hfind
          simp [hfind, hcond.1.2, hcond.2]
        · rintro ⟨hsome, hcond⟩
          obtain ⟨d, hfind⟩ := Option.isSome_iff_exists.mp hsome
          obtain ⟨hmem, hname⟩ := mem_of_findLast?_eq_some hfind
          simp only [hfind, Option.get_some] at hcond
          exact ⟨d, hmem, by simp only [hname, Bool.true_and]; exact hcond⟩
      simp only [Option.bind_eq_bind, Option.bind_some, hany]
      cases findLast? (fun d => d.name == stem ++ morphTypeEnd) t.columns with
      | none => simp
      | some d =>
          cases hm : morphMethod? c.type c.nullable with
          | none => simp
          | some method =>
              by_cases hcond : d.type = .string ∧ d.nullable = c.nullable
              · cases c.isForeign <;> cases (t.foreignKeys.any fun fk => fk.column == c.name) <;>
                  simp [hcond]
              · cases c.isForeign <;> cases (t.foreignKeys.any fun fk => fk.column == c.name) <;>
                  simp [hcond]

/-- A reference has a method, since the identifier half is of one of the types that have
one. -/
theorem exists_method_of_morphStem? {c : Column} {stem : String}
    (h : t.morphStem? c = some stem) :
    ∃ method, morphMethod? c.type c.nullable = some method := by
  simp only [Table.morphStem?, Option.bind_eq_bind, Option.bind_eq_some_iff] at h
  obtain ⟨stem', -, h⟩ := h
  split at h
  · rename_i hcond
    simp only [Bool.and_eq_true] at hcond
    refine Option.isSome_iff_exists.mp ?_
    rw [morphMethod?_isSome]
    exact hcond.1.2
  · cases h

/-- The renderer's list of references, looked up by the name of a column, gives the
reference of that column. -/
theorem findLast?_morphs (hd : (t.columns.map Column.name).Nodup) {c : Column}
    (hc : c ∈ t.columns) :
    findLast? (fun m => m.1 == c.name) (morphs t.columns t.foreignKeys)
      = (morphOf? t.columns t.foreignKeys c).map fun m => (c.name, m) := by
  -- whatever is listed under the name of the column was listed for this column
  have hmem : ∀ m, m ∈ morphs t.columns t.foreignKeys → m.1 = c.name →
      (morphOf? t.columns t.foreignKeys c).map (fun m => (c.name, m)) = some m := by
    intro m hm hname
    simp only [morphs, List.mem_filterMap] at hm
    obtain ⟨d, hd', hmd⟩ := hm
    obtain ⟨p, hp, rfl⟩ := Option.map_eq_some_iff.mp hmd
    obtain rfl := List.inj_on_of_nodup_map hd hd' hc hname
    rw [hp]
    rfl
  cases hf : findLast? (fun m => m.1 == c.name) (morphs t.columns t.foreignKeys) with
  | some m =>
      obtain ⟨hm, hname⟩ := mem_of_findLast?_eq_some hf
      rw [hmem m hm (beq_iff_eq.mp hname)]
  | none =>
      cases ho : morphOf? t.columns t.foreignKeys c with
      | none => rfl
      | some p =>
          have hin : (c.name, p) ∈ morphs t.columns t.foreignKeys := by
            rw [morphs, List.mem_filterMap]
            exact ⟨c, hc, by rw [ho]; rfl⟩
          have hno := List.find?_eq_none.mp hf _ (List.mem_reverse.mpr hin)
          simp at hno

/-- The type columns of the renderer's references are those that `Table.isMorphType`
describes. -/
theorem any_morphs (hd : (t.columns.map Column.name).Nodup) (c : Column) :
    ((morphs t.columns t.foreignKeys).any fun m => m.2.1 ++ morphTypeEnd == c.name)
      = t.isMorphType c := by
  rw [Table.isMorphType, morphs, Bool.eq_iff_iff]
  simp only [List.any_eq_true, List.mem_filterMap]
  constructor
  · rintro ⟨m, ⟨d, hmem, hmd⟩, hname⟩
    obtain ⟨p, hp, rfl⟩ := Option.map_eq_some_iff.mp hmd
    rw [morphOf?_eq hd, Option.bind_eq_some_iff] at hp
    obtain ⟨stem, hstem, hp⟩ := hp
    obtain ⟨method, -, rfl⟩ := Option.map_eq_some_iff.mp hp
    exact ⟨d, hmem, by rw [hstem]; exact hname⟩
  · rintro ⟨d, hmem, hany⟩
    cases hstem : t.morphStem? d with
    | none =>
        rw [hstem] at hany
        cases hany
    | some stem =>
        rw [hstem] at hany
        obtain ⟨method, hmethod⟩ := exists_method_of_morphStem? hstem
        refine ⟨(d.name, stem, method), ⟨d, hmem, ?_⟩, hany⟩
        rw [morphOf?_eq hd, hstem, Option.bind_some, hmethod]
        rfl

/-- With one identifier at most, taking the first one away takes all of them away. This
holds of any predicate. -/
theorem eraseP_eq_filter {α : Type} {p : α → Bool} {l : List α} (h : (l.filter p).length ≤ 1) :
    l.eraseP p = l.filter fun a => !p a := by
  induction l with
  | nil => rfl
  | cons a l ih =>
      cases hp : p a with
      | true =>
          rw [List.filter_cons_of_pos hp, List.length_cons] at h
          have hnone : ∀ b ∈ l, (!p b) = true := by
            have hnil : l.filter p = [] := List.length_eq_zero_iff.mp (by omega)
            intro b hb
            simpa using List.filter_eq_nil_iff.mp hnil b hb
          rw [List.eraseP_cons_of_pos hp, List.filter_cons_of_neg (by simp [hp]),
            List.filter_eq_self.mpr hnone]
      | false =>
          rw [List.filter_cons_of_neg (by simp [hp])] at h
          rw [List.eraseP_cons_of_neg (by simp [hp]),
            List.filter_cons_of_pos (by simp [hp]), ih h]

/-- The columns that the renderer gives statements of their own are the stated columns of
the table. -/
theorem bodyColumns_eq (hd : (t.columns.map Column.name).Nodup) :
    bodyColumns t.columns (morphs t.columns t.foreignKeys) = t.statedColumns := by
  rw [bodyColumns, Table.statedColumns]
  exact List.filter_congr fun c _ => by rw [any_morphs hd c]

/-- A stated column is a column of the table, so whatever is so of the table's columns is so
of it. -/
theorem mem_columns_of_mem_statedColumns {c : Column} (hc : c ∈ t.statedColumns) :
    c ∈ t.columns :=
  List.mem_of_mem_eraseP (List.mem_filter.mp hc).1

/-- A column of its own is a column of the table as well, since it is a stated one. -/
theorem mem_columns_of_mem_ownColumns {c : Column} (hc : c ∈ t.ownColumns) : c ∈ t.columns :=
  (List.mem_filter.mp hc).1

/-- A column of its own is no identifier. Identifiers are kept apart because the last of
them counts. -/
theorem type_ne_of_mem_ownColumns {c : Column} (hc : c ∈ t.ownColumns) : c.type ≠ .id := by
  have hcond := (List.mem_filter.mp hc).2
  simp only [Bool.and_eq_true, bne_iff_ne] at hcond
  exact hcond.1.1

/-- Without identifiers, the stated columns are those of their own, in the order of the
table. -/
theorem filter_statedColumns (t : Table) :
    (t.statedColumns.filter fun c => c.type != .id) = t.ownColumns := by
  have herase : ∀ columns : List Column,
      ((columns.eraseP fun c => c.type == .id).filter fun c => c.type != .id)
        = columns.filter fun c => c.type != .id := by
    intro columns
    induction columns with
    | nil => rfl
    | cons c columns ih =>
        by_cases hid : c.type = .id
        · rw [List.eraseP_cons_of_pos (by simpa using hid),
            List.filter_cons_of_neg (by simp [hid])]
        · rw [List.eraseP_cons_of_neg (by simpa using hid),
            List.filter_cons_of_pos (by simpa using hid),
            List.filter_cons_of_pos (by simpa using hid), ih]
  -- erasing the first identifier makes no difference once no identifier is left
  have hcomm : (t.statedColumns.filter fun c => c.type != .id)
      = ((t.columns.eraseP fun c => c.type == .id).filter fun c => c.type != .id).filter fun c =>
          !Naming.auditColumns.contains c.name && !t.isMorphType c := by
    rw [Table.statedColumns, List.filter_filter, List.filter_filter]
    exact List.filter_congr fun c _ => Bool.and_comm _ _
  rw [hcomm, herase, List.filter_filter, Table.ownColumns]
  refine List.filter_congr fun c _ => ?_
  rw [Bool.and_comm, Bool.and_assoc]

/-- A column of its own has a statement among the others, whether or not there is an
identifier. -/
theorem mem_statedColumns_of_mem_ownColumns {c : Column} (hc : c ∈ t.ownColumns) :
    c ∈ t.statedColumns := by
  rw [← filter_statedColumns] at hc
  exact (List.mem_filter.mp hc).1

/-! ### Names of references -/

/-- What the two halves of a reference are called and what they are: an identifier without a
key, and a string that may be null just when the identifier may. -/
theorem of_morphStem? {c : Column} {stem : String} (h : t.morphStem? c = some stem) :
    c.name = stem ++ Naming.referenceEnd ∧ (c.type = .uuid ∨ c.type = .unsignedBigInteger)
      ∧ t.keyOn? c = none
      ∧ ∃ d ∈ t.columns, d.name = stem ++ morphTypeEnd ∧ d.type = .string
        ∧ d.nullable = c.nullable := by
  simp only [Table.morphStem?, Option.bind_eq_bind, Option.bind_eq_some_iff] at h
  obtain ⟨stem', hstem, h⟩ := h
  split at h
  · rename_i hcond
    obtain rfl := Option.some.inj h
    simp only [Bool.and_eq_true, List.any_eq_true, beq_iff_eq, Bool.or_eq_true, decide_eq_true_eq,
      Option.isNone_iff_eq_none] at hcond
    obtain ⟨⟨⟨-, hkey⟩, htype⟩, d, hd, ⟨hname, hstring⟩, hnullable⟩ := hcond
    exact ⟨(Naming.beforeTail?_eq_some_iff _ _ _).mp hstem, htype, hkey, d, hd, hname, hstring,
      hnullable⟩
  · cases h

/-- The stem of a reference is a name unless it is empty, since it is the beginning of
one. -/
theorem isName_stem {c : Column} (hc : isName c.name = true) {stem : String}
    (hstem : t.morphStem? c = some stem) (hne : stem ≠ "") : isName stem = true := by
  obtain ⟨hname, -, -, -⟩ := of_morphStem? hstem
  rw [isName_iff]
  refine ⟨by simpa using hne, fun d hd => ((isName_iff c.name).mp hc).2 d ?_⟩
  rw [hname, String.toList_append]
  exact List.mem_append_left _ hd

/-! ### The requests of a table -/

/-- What the statement of a column asks for. -/
def columnRequests? (t : Table) (c : Column) : List Request :=
  match t.morphStem? c with
  | some stem => (morphColumns stem c.type c.nullable).map .declare
  | none =>
    (t.carriedKey? c).toList.map .refer ++ [.declare (declaredColumn c (t.keyOn? c))]

/-- The foreign keys of a table lead to names, so the targets that are written are read
back. -/
theorem isName_target (hn : Named t.columns t.foreignKeys) (c : Column) :
    ∀ fk ∈ t.keyOn? c, isName fk.target = true :=
  fun _ hfk => hn.targets _ (mem_of_findLast?_eq_some hfk).1

/-- What the statement of a column asks for, be it an identifier, a reference
without a stem, or any other. -/
def statedRequests (t : Table) (c : Column) : List Request :=
  if c.type = .id then [.identify c.name]
  else if t.morphStem? c = some "" then []
  else columnRequests? t c

/-- What the statement of a column asks for is what `statedRequests` says: an identifier, a
reference, or a column with its key. -/
theorem requests_bodyCall (hn : Named t.columns t.foreignKeys)
    (hd : (t.columns.map Column.name).Nodup) {c : Column} (hc : c ∈ t.columns) :
    (bodyCall t.foreignKeys (morphs t.columns t.foreignKeys) c).requests
      = statedRequests t c := by
  rw [bodyCall, findLast?_morphs hd hc, morphOf?_eq hd, statedRequests, columnRequests?]
  cases hstem : t.morphStem? c with
  | some stem =>
      obtain ⟨method, hmethod⟩ := exists_method_of_morphStem? hstem
      have hid : c.type ≠ .id := by
        rcases (of_morphStem? hstem).2.1 with htype | htype
        · simp [htype]
        · simp [htype]
      rw [Option.bind_some, hmethod, if_neg hid]
      by_cases hempty : stem = ""
      · rw [if_pos (by rw [hempty])]
        show (Call.mk method (some stem) []).requests = []
        rw [hempty]
        exact requests_morphCall_empty hmethod
      · rw [if_neg (by simpa using hempty)]
        exact requests_morphCall hmethod (isName_stem (hn.columns c hc) hstem hempty)
  | none =>
      rw [Option.bind_none]
      show (columnCall c (t.keyOn? c)).requests = _
      by_cases hid : c.type = .id
      · rw [columnCall, if_pos hid, if_pos hid]
        exact requests_identifierCall (hn.columns c hc)
      · rw [if_neg hid, if_neg (by simp),
          requests_columnCall (hn.columns c hc) (isName_target hn c) hid, Table.carriedKey?]
        cases carriesKey c (t.keyOn? c) <;> rfl

/-- The statement that a foreign key may have apart from its column asks for that key and
for nothing else. -/
theorem requests_constraintCall? (hn : Named t.columns t.foreignKeys)
    (hd : (t.columns.map Column.name).Nodup) {c : Column} (hc : c ∈ t.columns) :
    (constraintCall? t.foreignKeys (morphs t.columns t.foreignKeys) c).toList.flatMap
    Call.requests
      = (t.statedKey? c).toList.map .constrain := by
  have hlast : (findLast? (fun m => m.1 == c.name) (morphs t.columns t.foreignKeys)).isSome
      = (morphs t.columns t.foreignKeys).any fun m => m.1 == c.name := by
    rw [findLast?, List.isSome_find?, List.any_reverse]
  rw [constraintCall?, ← hlast, findLast?_morphs hd hc, morphOf?_eq hd]
  cases hstem : t.morphStem? c with
  | some stem =>
      obtain ⟨method, hmethod⟩ := exists_method_of_morphStem? hstem
      obtain ⟨-, -, hkey, -⟩ := of_morphStem? hstem
      rw [Option.bind_some, hmethod, Table.statedKey?, hkey]
      simp
  | none =>
      have hlast : foreignKeyFor? t.foreignKeys c = t.keyOn? c := rfl
      rw [Option.bind_none, Option.map_none, Option.isSome_none, if_neg Bool.false_ne_true, hlast]
      rw [Table.statedKey?]
      cases hkey : t.keyOn? c with
      | none => simp
      | some fk =>
          -- columns of these two types carry their keys themselves
          by_cases htype : c.type = .foreignId ∨ c.type = .uuid
          · simp [htype]
          · have hcolumn : fk.column = c.name := beq_iff_eq.mp (mem_of_findLast?_eq_some hkey).2
            have hrequests : (constraintCall c.name fk.target).requests = [.constrain fk] := by
              rw [requests_constraintCall (hn.columns c hc) (isName_target hn c fk hkey),
                ← hcolumn]
            simp [htype, hrequests]

/-- The statements of identifiers ask for the settled identifier, or for the usual one where
a table has none. -/
theorem requests_identifierCalls (hn : Named t.columns t.foreignKeys) :
    (identifierCalls t.columns).flatMap Call.requests
      = t.settledIdentifier.map fun c => .identify c.name := by
  rw [identifierCalls, Table.settledIdentifier, Table.hasColumn]
  cases hf : t.columns.find? fun c => c.type == .id with
  | some c =>
      have htype : c.type = .id := by
        have hfound := List.find?_some hf
        simpa using hfound
      have hrequests := requests_identifierCall (hn.columns c (List.mem_of_find?_eq_some hf))
      simp [columnCall, htype, hrequests, Draft.identifierColumn]
  | none =>
      by_cases hany : (t.columns.any fun c => c.name == Naming.identifier) = true
      · simp [hany]
      · have hrequests := @requests_identifierCall Naming.identifier (by decide)
        simp [hany, hrequests, Draft.identifierColumn]

/-- The requests of a whole table: its identifier, its columns with the keys they carry,
and the keys that are stated apart. -/
def tableRequests (t : Table) : List Request :=
  t.settledIdentifier.map (fun c => .identify c.name) ++ t.statedColumns.flatMap
    (statedRequests t)
    ++ t.statedKeys.map .constrain

/-- What the statements of a table ask for, all together: its identifier, its columns with
their keys, and the keys apart. -/
theorem requests_tableCalls (hn : Named t.columns t.foreignKeys)
    (hd : (t.columns.map Column.name).Nodup) :
    (tableCalls t.columns t.foreignKeys).flatMap Call.requests = tableRequests t := by
  have hmem := fun c hc => mem_columns_of_mem_statedColumns (t := t) (c := c) hc
  have hbody : t.statedColumns.flatMap (fun c =>
      (bodyCall t.foreignKeys (morphs t.columns t.foreignKeys) c).requests)
      = t.statedColumns.flatMap (statedRequests t) :=
    List.flatMap_congr fun c hc => requests_bodyCall hn hd (hmem c hc)
  have hconstraints :
      (t.statedColumns.filterMap
        (constraintCall? t.foreignKeys (morphs t.columns t.foreignKeys))).flatMap
        Call.requests = t.statedKeys.map .constrain := by
    rw [Table.statedKeys, List.filterMap_eq_flatMap_toList, List.filterMap_eq_flatMap_toList,
      List.flatMap_assoc, List.map_flatMap]
    exact List.flatMap_congr fun c hc => requests_constraintCall? hn hd (hmem c hc)
  rw [tableCalls, bodyColumns_eq hd, tableRequests]
  simp only [List.flatMap_append, List.flatMap_map, requests_identifierCalls hn, hbody,
    hconstraints, List.flatMap_cons, requests_auditCall, List.flatMap_nil, List.append_nil]

end Stated

end Migration

end SchemaAtlas
