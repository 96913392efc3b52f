import Mathlib.Data.List.Chain
import Mathlib.Data.List.Perm.Subperm
import Mathlib.Logic.Relation
import SchemaAtlas.Proofs.Export.Order
import SchemaAtlas.Proofs.Relation.Target

/-!
# `SchemaAtlas.Proofs.Export.Precedence`: a table comes after those it refers to

While a table has its turn it is under way: it is begun and not done. What the
recursion keeps is that each table under way leads, by foreign keys, to every table
that it goes on to. So when a table is done, those it refers to are done before it,
or they are still under way and lead back to it (`Run.placed`).

In a schema without cycles nothing leads back, and every table comes after all that
it refers to (`precedes_ordered`). How deep the recursion goes can be seen in the
schema: that many tables stand in a trail, of which each refers to the next
(`Run.exists_trail`). A schema that is nothing but one long trail shows the limit: it
has an order up to the limit and none beyond it (`ordered_row`).
-/

set_option autoImplicit false

namespace SchemaAtlas.Export

/-- Holds when the table of one name has a foreign key to the table of another. -/
def Refers (tables : Catalog Table) (name target : String) : Prop :=
  ∃ t, tables.get? name = some t ∧ target ∈ t.foreignKeys.map ForeignKey.target
    ∧ target ∈ tables.names

/-- Holds of tables in a row of which each comes after those it refers to, apart from
those that lead back to it. -/
inductive Placed (tables : Catalog Table) : List String → Prop
  | nil : Placed tables []
  | append {done : List String} {name : String} (hdone : Placed tables done)
      (hrefers : ∀ target, Refers tables name target → target ≠ name →
        target ∈ done ∨ Relation.TransGen (Refers tables) target name) :
      Placed tables (done ++ [name])

/-- Holds of tables in a row, none of them twice, each of which refers to the next. -/
structure Trail (tables : Catalog Table) (trail : List String) : Prop where
  refers : trail.IsChain (Refers tables)
  nodup : trail.Nodup
  known : ∀ name ∈ trail, name ∈ tables.names

/-- A trail has no more tables than the schema, because none of its tables comes twice. -/
theorem Trail.length_le {tables : Catalog Table} {trail : List String} (h : Trail tables trail) :
    trail.length ≤ tables.size := by
  have hsub : trail.length ≤ tables.names.length :=
    (List.subperm_of_subset h.nodup h.known).length_le
  rwa [Catalog.names, List.length_map] at hsub

/-- A table under way is begun and not done. -/
def Visits.Underway (v : Visits) (name : String) : Prop :=
  name ∈ v.begun ∧ name ∉ v.done

section Placed

variable {tables : Catalog Table} {v w : Visits} {name target : String} {depth : Nat}
  {names : List String}

/-- In such a row a table comes after each it refers to that does not lead back. -/
theorem Placed.sublist {done : List String} (h : Placed tables done) (hname : name ∈ done)
    (hrefers : Refers tables name target) (hne : target ≠ name) :
    [target, name].Sublist done ∨ Relation.TransGen (Refers tables) target name := by
  induction h with
  | nil => cases hname
  | @append done last _ hlast ih =>
      rcases List.mem_append.mp hname with hname | hname
      · exact (ih hname).imp_left fun h => h.trans (List.sublist_append_left done [last])
      · obtain rfl := List.mem_singleton.mp hname
        refine (hlast target hrefers hne).imp_left fun hdone => ?_
        exact (List.singleton_sublist.mpr hdone).append (List.Sublist.refl [name])

/-- The references of a table by name are the other tables it refers to. A table that refers
to itself need not wait for itself. -/
theorem mem_references (hkeyed : Relation.Keyed tables) {t : Table}
    (ht : tables.get? name = some t) :
    target ∈ references t ↔ target ∈ t.foreignKeys.map ForeignKey.target ∧ target ≠ name := by
  have hname : t.name = name := hkeyed (name, t) ((tables.get?_eq_some_iff name t).mp ht)
  rw [references, List.mem_mergeSort, List.mem_eraseDups, List.mem_filter, hname, bne_iff_ne]

/-- What is under way after a run was under way before, as the run finishes all that it
begins. -/
theorem Run.underway (h : Run tables depth v names w) (hname : w.Underway name) :
    v.Underway name := by
  obtain ⟨added, hgrows⟩ := h.exists_grows
  obtain ⟨hbegun, hdone⟩ := hname
  rw [hgrows.done, List.mem_append, not_or] at hdone
  exact ⟨((hgrows.begun name).mp hbegun).resolve_right hdone.2, hdone.1⟩

/-- Beginning a table puts no other under way: apart from this one, what is under way then
was so before. -/
theorem Visits.Underway.of_begin {other : String} (h : (v.begin name).Underway other)
    (hne : other ≠ name) : v.Underway other :=
  ⟨(List.mem_cons.mp h.1).resolve_left hne, h.2⟩

/-- What is under way once a table is done was so before, and is another table. -/
theorem Visits.Underway.of_finish {other : String} (h : (v.finish name).Underway other) :
    v.Underway other ∧ other ≠ name := by
  have hnot : other ∉ v.done ++ [name] := h.2
  rw [List.mem_append, List.mem_singleton, not_or] at hnot
  exact ⟨⟨h.1, hnot.1⟩, hnot.2⟩

/-- A reference of a table to another one by name is one by foreign key. -/
theorem refers_of_mem_references (hkeyed : Relation.Keyed tables) {t : Table}
    (ht : tables.get? name = some t) (htarget : target ∈ references t)
    (hknown : target ∈ tables.names) : Refers tables name target :=
  ⟨t, ht, ((mem_references hkeyed ht).mp htarget).1, hknown⟩

/-- A run keeps the row, if all that is under way leads to the tables it goes through. -/
theorem Run.placed (hkeyed : Relation.Keyed tables) (h : Run tables depth v names w)
    (hplaced : Placed tables v.done)
    (hleads : ∀ other, v.Underway other → ∀ name ∈ names, name ∈ tables.names →
      Relation.TransGen (Refers tables) other name) :
    Placed tables w.done := by
  induction h with
  | nil => exact hplaced
  | pass _ _ ih =>
      exact ih hplaced fun other hother n hn => hleads other hother n (List.mem_cons_of_mem _ hn)
  | @turn _ _ v u w name rest t ht hnew hreferences hrest ihReferences ihRest =>
      have hmem : name ∈ tables.names := Catalog.mem_names_of_get? ht
      -- beside the table itself, what is under way within its turn was so before
      have hwithin : Placed tables u.done := by
        refine ihReferences hplaced fun other hother n hn hin => ?_
        have hrefers := refers_of_mem_references hkeyed ht hn hin
        by_cases hname : other = name
        · rw [hname]
          exact .single hrefers
        · exact (hleads other (hother.of_begin hname) name List.mem_cons_self hmem).tail hrefers
      -- and a reference that is still under way then leads back to it
      have hturn : Placed tables (u.finish name).done := by
        refine .append hwithin fun target htarget hne => ?_
        obtain ⟨t', ht', hkey, hin⟩ := htarget
        obtain rfl := Option.some.inj (ht.symm.trans ht')
        have hbegun := hreferences.mem_begun ((mem_references hkeyed ht).mpr ⟨hkey, hne⟩) hin
        by_cases hdone : target ∈ u.done
        · exact .inl hdone
        · have hbefore := (hreferences.underway ⟨hbegun, hdone⟩).of_begin hne
          exact .inr (hleads target hbefore name List.mem_cons_self hmem)
      refine ihRest hturn fun other hother n hn hin => ?_
      have hbefore := (hreferences.underway hother.of_finish.1).of_begin hother.of_finish.2
      exact hleads other hbefore n (List.mem_cons_of_mem name hn) hin

/-- As deep as a run goes, so long is a trail of tables that it begins, from one of the
tables it goes through on. -/
theorem Run.exists_trail (hkeyed : Relation.Keyed tables) (h : Run tables depth v names w) :
    ∃ trail, Trail tables trail ∧ trail.length = depth ∧ (∀ name ∈ trail, name ∉ v.begun)
      ∧ ∀ first ∈ trail.head?, first ∈ names := by
  induction h with
  | nil => exact ⟨[], ⟨.nil, List.nodup_nil, by simp⟩, rfl, by simp, by simp⟩
  | pass _ _ ih =>
      obtain ⟨trail, htrail, hlength, hfresh, hfirst⟩ := ih
      exact ⟨trail, htrail, hlength, hfresh,
        fun first h => List.mem_cons_of_mem _ (hfirst first h)⟩
  | @turn inner later v u w name rest t ht hnew hreferences _ ihReferences ihRest =>
      rcases Nat.le_total later (inner + 1) with hdeeper | hdeeper
      · -- the trail through the references goes on from the table itself
        obtain ⟨trail, htrail, hlength, hfresh, hfirst⟩ := ihReferences
        have hnot : name ∉ trail := fun hname => hfresh name hname List.mem_cons_self
        have hmem := Catalog.mem_names_of_get? ht
        refine ⟨name :: trail,
          ⟨htrail.refers.cons fun first h => ?_, List.nodup_cons.mpr ⟨hnot, htrail.nodup⟩,
          List.forall_mem_cons.mpr ⟨hmem, htrail.known⟩⟩, ?_, ?_, ?_⟩
        · exact refers_of_mem_references hkeyed ht (hfirst first h)
            (htrail.known first (List.mem_of_mem_head? h))
        · rw [List.length_cons, hlength, Nat.max_eq_left hdeeper]
        · exact List.forall_mem_cons.mpr
            ⟨hnew, fun other hother hbegun => hfresh other hother (List.mem_cons_of_mem _ hbegun)⟩
        · intro first h
          obtain rfl := Option.some.inj h
          exact List.mem_cons_self
      · obtain ⟨trail, htrail, hlength, hfresh, hfirst⟩ := ihRest
        have hbegun : v.begun ⊆ (u.finish name).begun := fun other hother =>
          hreferences.begun_subset (List.mem_cons_of_mem name hother)
        exact ⟨trail, htrail, hlength.trans (Nat.max_eq_right hdeeper).symm,
          fun other hother hin => hfresh other hother (hbegun hin),
          fun first h => List.mem_cons_of_mem name (hfirst first h)⟩

/-- All tables have their place in the row by the end of a run through all of them. -/
theorem Run.placed_names (hkeyed : Relation.Keyed tables)
    (h : Run tables depth {} tables.names w) :
    Placed tables w.done ∧ ∀ name ∈ tables.names, name ∈ w.done := by
  obtain ⟨added, hgrows⟩ := h.exists_grows
  refine ⟨h.placed hkeyed .nil fun _ hother => absurd hother.1 List.not_mem_nil,
    fun name hname => ?_⟩
  rw [hgrows.done]
  have hbegun := (hgrows.begun name).mp (h.mem_begun hname hname)
  exact List.mem_append_right _ (hbegun.resolve_left List.not_mem_nil)

end Placed

section Tables

variable {s : Snapshot} {a b : Table}

/-- A table is found by its own name, because the tables of a keyed schema stand under their
names. -/
theorem get?_name (hkeyed : Relation.Keyed s.tables) (ha : a ∈ s.tables.values) :
    s.tables.get? a.name = some a := by
  obtain ⟨entry, hentry, rfl⟩ := List.mem_map.mp ha
  rw [hkeyed entry hentry]
  exact (s.tables.get?_eq_some_iff _ _).mpr hentry

/-- The name of a table is one of those that the schema has tables under. -/
theorem name_mem_names (hkeyed : Relation.Keyed s.tables) (ha : a ∈ s.tables.values) :
    a.name ∈ s.tables.names :=
  Catalog.mem_names_of_get? (get?_name hkeyed ha)

/-- A foreign key from one table of a schema to another makes the first refer to the second
by name. -/
theorem refers_of_mem (hkeyed : Relation.Keyed s.tables) (ha : a ∈ s.tables.values)
    (hb : b ∈ s.tables.values) (hkey : b.name ∈ a.foreignKeys.map ForeignKey.target) :
    Refers s.tables a.name b.name :=
  ⟨a, get?_name hkeyed ha, hkey, name_mem_names hkeyed hb⟩

/-- In what a run through all tables has done, a table comes after another that it refers
to, or that one leads back to it. -/
theorem Run.sublist_done {depth : Nat} {w : Visits} (h : Run s.tables depth {} s.tables.names w)
    (hkeyed : Relation.Keyed s.tables) (ha : a ∈ s.tables.values) (hb : b ∈ s.tables.values)
    (hkey : b.name ∈ a.foreignKeys.map ForeignKey.target) (hne : b.name ≠ a.name) :
    [b, a].Sublist (w.done.filterMap s.tables.get?)
      ∨ Relation.TransGen (Refers s.tables) b.name a.name := by
  obtain ⟨hplaced, hdone⟩ := h.placed_names hkeyed
  have hrefers := refers_of_mem hkeyed ha hb hkey
  refine (hplaced.sublist (hdone _ (name_mem_names hkeyed ha)) hrefers hne).imp_left
    fun hsub => ?_
  have htables := hsub.filterMap s.tables.get?
  rwa [List.filterMap_cons_some (get?_name hkeyed hb),
    List.filterMap_cons_some (get?_name hkeyed ha), List.filterMap_nil] at htables

end Tables

/-- With the tables under their own names, the recursion through all of them comes to an
end, with one depth and one outcome, and as many tables as it is deep stand in a trail of
the schema. What it has done is the order, if it stays within the limit; if it goes deeper
there is none. In what it has done every table stands once, and before a table stands each
other that it refers to, unless that one leads back to it by foreign keys. So without
cycles every table comes after all others that it refers to. -/
theorem precedes_ordered (s : Snapshot) (hkeyed : Relation.Keyed s.tables) :
    ∃ depth w sorted,
      (∀ depth' w', Run s.tables depth' {} s.tables.names w' ↔ depth' = depth ∧ w' = w)
      ∧ (∃ trail, Trail s.tables trail ∧ trail.length = depth)
      ∧ sorted = w.done.filterMap s.tables.get?
      ∧ ordered s = (if depth ≤ deepestTurn then .ok sorted else .error .tooDeep)
      ∧ sorted.Perm s.tables.values
      ∧ (∀ a ∈ s.tables.values, ∀ b ∈ s.tables.values,
        b.name ∈ a.foreignKeys.map ForeignKey.target → b.name ≠ a.name →
          [b, a].Sublist sorted ∨ Relation.TransGen (Refers s.tables) b.name a.name)
      ∧ ((∀ name, ¬Relation.TransGen (Refers s.tables) name name) →
        ∀ a ∈ s.tables.values, ∀ b ∈ s.tables.values,
          b.name ∈ a.foreignKeys.map ForeignKey.target → [b, a].Sublist sorted) := by
  obtain ⟨depth, -, w, hrun⟩ := exists_run_names s
  obtain ⟨trail, htrail, hlength, -⟩ := hrun.exists_trail hkeyed
  refine ⟨depth, w, _, fun depth' w' => ⟨fun h => h.unique hrun, ?_⟩,
    ⟨trail, htrail, hlength⟩, rfl,
    hrun.ordered_eq, hrun.perm_values, fun a ha b hb => hrun.sublist_done hkeyed ha hb,
    fun hacyclic a ha b hb hkey => ?_⟩
  · rintro ⟨rfl, rfl⟩
    exact hrun
  · have hrefers := refers_of_mem hkeyed ha hb hkey
    have hne : b.name ≠ a.name := fun heq => hacyclic a.name (.single (heq ▸ hrefers))
    refine (hrun.sublist_done hkeyed ha hb hkey hne).resolve_right fun hback => ?_
    exact hacyclic b.name (hback.tail hrefers)

/-! ### Users and their teams -/

/-- Each user is in a team. -/
def users : Table := { name := "users", foreignKeys := [⟨"team_id", "teams"⟩] }

/-- Each team has a user who owns it. -/
def teams : Table := { name := "teams", foreignKeys := [⟨"owner_id", "users"⟩] }

/-- A post may reply to another post, has a user, and has a tag, for which there is no
table. -/
def posts : Table :=
  { name := "posts",
    foreignKeys := [⟨"reply_id", "posts"⟩, ⟨"user_id", "users"⟩, ⟨"tag_id", "tags"⟩] }

/-- Users and teams that refer to each other, and posts that refer to themselves, to users
and to a table that is not there. -/
def forum : Snapshot := .ofTables [posts, users, teams]

/-- Users and teams lead nowhere else, however many foreign keys are followed from users
on. -/
theorem mem_of_leads_users {target : String}
    (h : Relation.TransGen (Refers forum.tables) "users" target) :
    target ∈ ["users", "teams"] := by
  have hstep : ∀ name ∈ ["users", "teams"], ∀ t, forum.tables.get? name = some t →
      ∀ target ∈ t.foreignKeys.map ForeignKey.target, target ∈ ["users", "teams"] := by
    decide +kernel
  induction h with
  | single hrefers =>
      obtain ⟨t, ht, hkey, -⟩ := hrefers
      exact hstep "users" List.mem_cons_self t ht _ hkey
  | tail _ hrefers ih =>
      obtain ⟨t, ht, hkey, -⟩ := hrefers
      exact hstep _ ih t ht _ hkey

/-- Posts come after users in the order of the forum. Users lead to teams and back but never
to posts, and three tables are far from the limit. -/
theorem precedes_ordered_forum :
    Relation.Keyed forum.tables
      ∧ ∃ sorted, ordered forum = .ok sorted ∧ [users, posts].Sublist sorted := by
  have hkeyed : Relation.Keyed forum.tables := by decide +kernel
  obtain ⟨depth, -, sorted, -, ⟨trail, htrail, rfl⟩, -, hordered, -, hplaces, -⟩ :=
    precedes_ordered forum hkeyed
  -- three tables cannot go deeper than the limit
  have hdepth : trail.length ≤ deepestTurn := Nat.le_trans htrail.length_le (by decide +kernel)
  have hplace := hplaces posts (by decide +kernel) users (by decide +kernel) (by decide +kernel)
    (by decide +kernel)
  refine ⟨hkeyed, sorted, hordered.trans (if_pos hdepth), hplace.resolve_right fun hback => ?_⟩
  exact absurd (mem_of_leads_users hback) (by decide +kernel)

/-! ### Tables in one long trail -/

/-- Tables of which each refers to the next, by their names. -/
def rowTables : List String → List Table
  | [] => []
  | name :: rest =>
    { name, foreignKeys := (rest.head?.map fun next => ⟨"next_id", next⟩).toList }
      :: rowTables rest

/-- The schema of such tables. -/
def row (names : List String) : Snapshot := .ofTables (rowTables names)

section Row

variable {tables : Catalog Table} {v : Visits} {names : List String}

/-- Names that were all begun are passed over, and nothing changes. -/
theorem Run.of_forall_mem_begun (h : ∀ name ∈ names, name ∈ v.begun) :
    Run tables 0 v names v := by
  induction names with
  | nil => exact .nil v
  | cons name rest ih =>
      obtain ⟨hname, hrest⟩ := List.forall_mem_cons.mp h
      exact .pass (.inr hname) (ih hrest)

/-- The tables of a row have the names that it was made from, in order. -/
theorem map_name_rowTables (names : List String) : (rowTables names).map Table.name = names := by
  induction names with
  | nil => rfl
  | cons name rest ih => rw [rowTables, List.map_cons, ih]

/-- The table of a row refers to the next one and to nothing else, and the last one to
nothing. -/
theorem references_rowTable (name : String) (next? : Option String) (h : next? ≠ some name) :
    references { name, foreignKeys := (next?.map fun next => ⟨"next_id", next⟩).toList }
      = next?.toList := by
  cases next? with
  | none => simp [references]
  | some next =>
      have hne : (next != name) = true := bne_iff_ne.mpr fun heq => h (heq ▸ rfl)
      simp [references, hne, List.eraseDups_cons]

/-- The turn of a table in the row holds the turns of all that come behind it. What is gone
through later has had its turn by then. -/
theorem exists_run_row {name : String} {rest later : List String} (hnodup : (name :: rest).Nodup)
    (htables : ∀ t ∈ rowTables (name :: rest), tables.get? t.name = some t)
    (hnew : ∀ n ∈ name :: rest, n ∉ v.begun) (hlater : later ⊆ name :: rest) :
    ∃ w, Run tables (rest.length + 1) v (name :: later) w ∧ (∀ n ∈ name :: rest, n ∈ w.begun)
      ∧ w.done = v.done ++ (name :: rest).reverse := by
  induction rest generalizing name v later with
  | nil =>
      have hbegun : ∀ n ∈ [name], n ∈ (v.begin name).begun := by simp [Visits.begin]
      have hreferences := references_rowTable name none (Option.some_ne_none name).symm
      refine ⟨(v.begin name).finish name, ?_, hbegun, rfl⟩
      refine .turn (u := v.begin name) (htables _ List.mem_cons_self)
        (hnew name List.mem_cons_self) ?_ (.of_forall_mem_begun fun n hn => hbegun n (hlater hn))
      exact hreferences ▸ .nil _
  | cons next rest ih =>
      obtain ⟨hnot, hrest⟩ := List.nodup_cons.mp hnodup
      have hwithin : ∀ n ∈ next :: rest, n ∉ (v.begin name).begun := by
        intro n hn hbegun
        rcases List.mem_cons.mp hbegun with rfl | hbegun
        · exact hnot hn
        · exact hnew n (List.mem_cons_of_mem name hn) hbegun
      -- the turn of the next table holds all the others, and nothing is left for later
      obtain ⟨u, hrun, hbegun, hdone⟩ := ih hrest
        (fun t ht => htables t (List.mem_cons_of_mem _ ht)) hwithin (List.nil_subset _)
      have hall : ∀ n ∈ name :: next :: rest, n ∈ u.begun :=
        List.forall_mem_cons.mpr ⟨hrun.begun_subset List.mem_cons_self, hbegun⟩
      have hreferences := references_rowTable name (some next) fun h =>
        hnot (Option.some.inj h ▸ List.mem_cons_self)
      refine ⟨u.finish name, ?_, hall, ?_⟩
      · refine .turn (htables _ List.mem_cons_self) (hnew name List.mem_cons_self) ?_
          (.of_forall_mem_begun fun n hn => hall n (hlater hn))
        exact hreferences ▸ hrun
      · rw [List.reverse_cons, ← List.append_assoc]
        exact congrArg (· ++ [name]) hdone

/-- The tables of a row stand in its schema as they are given, if their names are
distinct. -/
theorem entries_row (h : names.Nodup) :
    (row names).tables.entries = (rowTables names).map fun t => (t.name, t) := by
  have hnames : ((rowTables names).map fun t => (t.name, t)).map Prod.fst = names := by
    rw [List.map_map]
    exact map_name_rowTables names
  exact Catalog.entries_ofList (hnames.symm ▸ h)

/-- The tables of a row go by their own names. -/
theorem keyed_row (h : names.Nodup) : Relation.Keyed (row names).tables := by
  intro entry hentry
  rw [entries_row h] at hentry
  obtain ⟨t, -, rfl⟩ := List.mem_map.mp hentry
  rfl

/-- The schema of a row has just the names that the row was made from, in order. -/
theorem names_row (h : names.Nodup) : (row names).tables.names = names := by
  rw [Catalog.names, entries_row h, List.map_map]
  exact map_name_rowTables names

/-- The schema of a row has just the tables of the row, in order. -/
theorem values_row (h : names.Nodup) : (row names).tables.values = rowTables names := by
  rw [Catalog.values, entries_row h, List.map_map]
  exact List.map_id _

/-- Tables in one long trail have an order, from the last to the first, if there are no more
of them than may have their turn within one another, and none else. -/
theorem ordered_row (h : names.Nodup) :
    ordered (row names)
      = if names.length ≤ deepestTurn then .ok (rowTables names).reverse
        else .error .tooDeep := by
  have hnames := names_row h
  have htables : ∀ t ∈ rowTables names, (row names).tables.get? t.name = some t := fun t ht =>
    get?_name (keyed_row h) (values_row h ▸ ht)
  have hrun : ∃ w, Run (row names).tables names.length {} (row names).tables.names w
      ∧ w.done = names.reverse := by
    rw [hnames]
    cases names with
    | nil => exact ⟨{}, .nil _, rfl⟩
    | cons name rest =>
        obtain ⟨w, hrun, -, hdone⟩ := exists_run_row (v := {}) h htables
          (fun _ _ => List.not_mem_nil) (List.subset_cons_self name rest)
        exact ⟨w, hrun, hdone⟩
  obtain ⟨w, hrun, hdone⟩ := hrun
  have hsorted : w.done.filterMap (row names).tables.get? = (rowTables names).reverse := by
    rw [hdone, List.filterMap_reverse, ← values_row h, ← Catalog.filterMap_get?_names, hnames]
  rw [hrun.ordered_eq, hsorted]

end Row

/-- A thousand tables, of which each refers to the next. -/
def thousand : Snapshot := row ((List.range 1000).map fun i => "t" ++ toString i)

/-- They go by their own names and none of them leads back, but there is no order of them. -/
theorem not_ordered_thousand :
    Relation.Keyed thousand.tables ∧ ordered thousand = .error .tooDeep := by
  have hnodup : ((List.range 1000).map fun i => "t" ++ toString i).Nodup := by
    refine List.nodup_range.map fun i j h => ?_
    have htexts : (toString i).toList = (toString j).toList :=
      congrArg String.toList ((String.append_right_inj "t").mp h)
    -- a number can be read off its digits
    have hnumbers := congrArg (fun digits => Nat.ofDigitChars 10 digits 0) htexts
    simpa [Nat.toString_eq_repr] using hnumbers
  refine ⟨keyed_row hnodup, (ordered_row hnodup).trans (if_neg ?_)⟩
  rw [List.length_map, List.length_range]
  decide

end SchemaAtlas.Export
