import SchemaAtlas.Proofs.Catalog
import SchemaAtlas.Proofs.List
import SchemaAtlas.Proofs.Naming
import SchemaAtlas.Relation.Resolve

/-!
# `SchemaAtlas.Proofs.Relation.Target`: the table that a column refers to

A column refers to a table by its name first: what comes before `_id` is spelled in
the plural, in the singular and as it is, and the first spelling that reads like any
table is for the last such table (`NamedBy`). A foreign key counts only where the
name says nothing (`RefersTo`). The search for a column's target finds just this
(`target?_eq_some_iff`), and each edge that could be made has its ends among the
tables (`known_of_mem_candidates`).
-/

set_option autoImplicit false

namespace SchemaAtlas.Relation

open SchemaAtlas.Text

/-! ### Targets by name -/

/-- Holds of the last of some names that reads `small` in small letters. -/
def LastLike (names : List String) (small name : String) : Prop :=
  ∃ before after, names = before ++ name :: after ∧ lower name = small
    ∧ ∀ other ∈ after, lower other ≠ small

/-- What a table may read like that is meant by `base`, in the order in which it is
looked for. -/
def spellings (base : String) : List String :=
  [Naming.pluralize (lower base), Naming.singularize (lower base), lower base]

/-- Holds of the table that is meant by `base`: the last one that reads like the first
spelling that any table reads like. -/
def NamedBy (names : List String) (base name : String) : Prop :=
  ∃ before small after, spellings base = before ++ small :: after
    ∧ (∀ other ∈ before, ∀ n ∈ names, lower n ≠ other) ∧ LastLike names small name

/-- The search for a table by its small letters finds the last one, and nothing else than
that. -/
theorem lastLike?_eq_some_iff (names : List String) (small name : String) :
    lastLike? names small = some name ↔ LastLike names small name := by
  rw [lastLike?, find?_reverse_eq_some_iff, LastLike, beq_iff_eq]
  simp only [beq_eq_false_iff_ne]
  constructor
  · rintro ⟨hname, before, after, hnames, hafter⟩
    exact ⟨before, after, hnames, hname, hafter⟩
  · rintro ⟨before, after, hnames, hname, hafter⟩
    exact ⟨hname, before, after, hnames, hafter⟩

/-- The search finds nothing if and only if no table reads like that in small letters. -/
theorem lastLike?_eq_none_iff (names : List String) (small : String) :
    lastLike? names small = none ↔ ∀ name ∈ names, lower name ≠ small := by
  rw [lastLike?, List.find?_eq_none]
  simp

/-- The last table that reads in some way is one of the tables. -/
theorem mem_of_lastLike {names : List String} {small name : String}
    (h : LastLike names small name) :
    name ∈ names := by
  obtain ⟨before, after, rfl, -, -⟩ := h
  exact List.mem_append_right _ List.mem_cons_self

/-- The search by the base of a column's name finds the table that is meant: of the three
spellings, the first one that any table has decides. -/
theorem targetByName?_eq_some_iff (names : List String) (base name : String) :
    targetByName? names base = some name ↔ NamedBy names base name := by
  rw [targetByName?, List.findSome?_eq_some_iff, NamedBy]
  constructor
  · rintro ⟨before, small, after, hspellings, hfound, hbefore⟩
    exact ⟨before, small, after, hspellings,
      fun other hother => (lastLike?_eq_none_iff names other).mp (hbefore other hother),
      (lastLike?_eq_some_iff names small name).mp hfound⟩
  · rintro ⟨before, small, after, hspellings, hbefore, hlast⟩
    exact ⟨before, small, after, hspellings, (lastLike?_eq_some_iff names small name).mpr hlast,
      fun other hother => (lastLike?_eq_none_iff names other).mpr (hbefore other hother)⟩

/-! ### Targets of columns -/

/-- Holds of the table that a column of a table refers to. -/
inductive RefersTo (names : List String) (table : Table) (c : Column) : String → Prop
  | byName {base target : String} (hname : c.name = base ++ Naming.referenceEnd)
      (htarget : NamedBy names base target) : RefersTo names table c target
  | byKey {fk : ForeignKey}
      (hunnamed : ∀ base, c.name = base ++ Naming.referenceEnd → ∀ name, ¬NamedBy names base name)
      (hkey : table.foreignKeyOn? c.name = some fk) (hknown : fk.target ∈ names) :
      RefersTo names table c fk.target

/-- The base of a column's name is what stands before `_id`. The name `id` has none, since
it is shorter than that. -/
theorem referenceBase?_eq_some_iff (c : Column) (base : String) :
    referenceBase? c = some base ↔ c.name = base ++ Naming.referenceEnd := by
  rw [referenceBase?]
  split
  · rename_i hname
    constructor
    · intro h
      cases h
    · intro h
      have hlength := congrArg (fun s : String => s.toList.length) (hname.symm.trans h)
      simp only [String.toList_append, List.length_append] at hlength
      have hid : Naming.identifier.toList.length = 2 := rfl
      have hend : Naming.referenceEnd.toList.length = 3 := rfl
      omega
  · exact Naming.beforeTail?_eq_some_iff _ _ _

/-- The search by a column's name finds what its base means, and nothing for a name without
a base. -/
theorem bind_referenceBase?_eq_some_iff (names : List String) (c : Column) (target : String) :
    (referenceBase? c).bind (targetByName? names) = some target
      ↔ ∃ base, c.name = base ++ Naming.referenceEnd ∧ NamedBy names base target := by
  rw [Option.bind_eq_some_iff]
  simp only [referenceBase?_eq_some_iff, targetByName?_eq_some_iff]

/-- The search by a column's foreign key finds the key's target, if there is such a
table. -/
theorem targetByKey?_eq_some_iff (names : List String) (table : Table) (c : Column)
    (target : String) :
    targetByKey? names table c = some target
      ↔ ∃ fk, table.foreignKeyOn? c.name = some fk ∧ fk.target ∈ names ∧ fk.target = target := by
  rw [targetByKey?]
  cases table.foreignKeyOn? c.name with
  | none => simp
  | some fk => simp

/-- The table that is found for a column is the one that it refers to. -/
theorem target?_eq_some_iff (names : List String) (table : Table) (c : Column) (target : String) :
    target? names table c = some target ↔ RefersTo names table c target := by
  rw [target?, Option.or_eq_some_iff, bind_referenceBase?_eq_some_iff, targetByKey?_eq_some_iff]
  constructor
  · intro h
    rcases h with ⟨base, hname, htarget⟩ | ⟨hnone, fk, hkey, hknown, rfl⟩
    · exact .byName hname htarget
    · refine .byKey (fun base hname name hnamed => ?_) hkey hknown
      have hsome := (bind_referenceBase?_eq_some_iff names c name).mpr ⟨base, hname, hnamed⟩
      rw [hnone] at hsome
      cases hsome
  · intro h
    cases h with
    | byName hname htarget => exact .inl ⟨_, hname, htarget⟩
    | byKey hunnamed hkey hknown =>
      refine .inr ⟨?_, _, hkey, hknown, rfl⟩
      rw [Option.eq_none_iff_forall_ne_some]
      intro name hsome
      obtain ⟨base, hname, hnamed⟩ := (bind_referenceBase?_eq_some_iff names c name).mp hsome
      exact hunnamed base hname name hnamed

/-- A column refers to one of the tables, whichever of the two searches has found it. -/
theorem RefersTo.known {names : List String} {table : Table} {c : Column} {target : String}
    (h : RefersTo names table c target) : target ∈ names := by
  cases h with
  | byName hname htarget =>
      obtain ⟨_, _, _, _, _, hlast⟩ := htarget
      exact mem_of_lastLike hlast
  | byKey hunnamed hkey hknown => exact hknown

/-- A column gives an edge if and only if it refers to a table, and then it is one from its
own table to that one. -/
theorem columnEdge?_eq_some_iff (names : List String) (table : Table) (c : Column) (e : Edge) :
    columnEdge? names table c = some e
      ↔ ∃ target, RefersTo names table c target
        ∧ e = ⟨table.name, target, .belongsTo, some c.name⟩ := by
  rw [columnEdge?, Option.map_eq_some_iff]
  simp only [target?_eq_some_iff]
  exact exists_congr fun target => and_congr_right fun _ => eq_comm

/-! ### Tables of classes -/

/-- A class stands for a table that is there, be it bound to the class or found by the
class's name. -/
theorem known_of_tableOfModel? {tables : Catalog Table} {bindings : Catalog String}
    {className name : String} (h : tableOfModel? tables bindings className = some name) :
    name ∈ tables.names := by
  -- what is called by a name is a table that is there
  have hcalled : ∀ {keys : List String},
      (keys.findSome? fun key => (calledNames tables).lookup key) = some name →
      name ∈ tables.names := by
    intro keys hfound
    obtain ⟨-, key, -, -, hkey, -⟩ := List.findSome?_eq_some_iff.mp hfound
    have hmem := Catalog.mem_of_lookup hkey
    rw [calledNames, List.mem_append, List.mem_map, List.mem_map] at hmem
    rcases hmem with ⟨n, hn, heq⟩ | ⟨n, hn, heq⟩
    · exact (Prod.mk.inj heq).2 ▸ hn
    · exact (Prod.mk.inj heq).2 ▸ hn
  have hbyName : ([lower className, Naming.snakeCase className].findSome? fun candidate =>
      [Naming.pluralize candidate, candidate].findSome? fun key =>
        (calledNames tables).lookup key)
        = some name → name ∈ tables.names := by
    intro hfound
    obtain ⟨-, candidate, -, -, hkeys, -⟩ := List.findSome?_eq_some_iff.mp hfound
    exact hcalled hkeys
  rw [tableOfModel?] at h
  split at h
  · split at h
    · rename_i hbound
      obtain rfl := Option.some.inj h
      simpa [Catalog.contains] using hbound
    · exact hbyName h
  · exact hbyName h

/-- A declared relation gives an edge if and only if both of its classes stand for tables,
and then between these. -/
theorem declaredEdge?_eq_some_iff (tables : Catalog Table) (bindings : Catalog String)
    (r : DeclaredRelation) (e : Edge) :
    declaredEdge? tables bindings r = some e
      ↔ ∃ source target, tableOfModel? tables bindings r.fromModel = some source
        ∧ tableOfModel? tables bindings r.toModel = some target
        ∧ e = ⟨source, target, r.kind, none⟩ := by
  simp only [declaredEdge?, Option.bind_eq_bind, Option.bind_eq_some_iff, Option.pure_def,
    Option.some.injEq]
  constructor
  · rintro ⟨source, hsource, target, htarget, rfl⟩
    exact ⟨source, target, hsource, htarget, rfl⟩
  · rintro ⟨source, target, hsource, htarget, rfl⟩
    exact ⟨source, hsource, target, htarget, rfl⟩

/-! ### Candidates -/

/-- Holds of tables that go by their own names. -/
def Keyed (tables : Catalog Table) : Prop :=
  ∀ entry ∈ tables.entries, entry.2.name = entry.1

instance (tables : Catalog Table) : Decidable (Keyed tables) :=
  inferInstanceAs (Decidable (∀ entry ∈ tables.entries, _))

/-- All edges there could be lead from tables to tables, since either end is looked for
among them. -/
theorem known_of_mem_candidates {tables : Catalog Table} (hkeyed : Keyed tables)
    {declared : List DeclaredRelation} {bindings : Catalog String} {e : Edge}
    (he : e ∈ candidates tables declared bindings) :
    e.source ∈ tables.names ∧ e.target ∈ tables.names := by
  rcases List.mem_append.mp he with he | he
  · obtain ⟨table, htable, he⟩ := List.mem_flatMap.mp he
    obtain ⟨c, -, he⟩ := List.mem_filterMap.mp he
    obtain ⟨target, hrefers, rfl⟩ := (columnEdge?_eq_some_iff _ _ _ _).mp he
    obtain ⟨entry, hentry, rfl⟩ := List.mem_map.mp htable
    refine ⟨?_, hrefers.known⟩
    show entry.2.name ∈ tables.names
    rw [hkeyed entry hentry]
    exact List.mem_map_of_mem hentry
  · obtain ⟨r, -, he⟩ := List.mem_filterMap.mp he
    obtain ⟨source, target, hsource, htarget, rfl⟩ := (declaredEdge?_eq_some_iff _ _ _ _).mp he
    exact ⟨known_of_tableOfModel? hsource, known_of_tableOfModel? htarget⟩

end SchemaAtlas.Relation
