import Mathlib.Data.List.Nodup
import SchemaAtlas.Export.Order
import SchemaAtlas.Proofs.Catalog

/-!
# `SchemaAtlas.Proofs.Export.Order`: every table has its turn once

A visit begins tables and finishes them. `Run` is the recursion as it is meant, without
a limit on its depth, and it tells how deep it goes: how many turns lie within one
another. What it says of visits is proved by its rules.

A run through any names comes to an end and goes no deeper than there are tables that
were not begun (`exists_run`), since every step into a reference begins a table; and
there is one run only (`Run.unique`). The visits that are computed have a limit. They
are the run if it stays within the limit, and fail if it goes deeper (`Run.foldlM_visit`).
So a schema can be put in order exactly if the run through all its tables stays within
the limit (`Orderable`, `orderable_iff`).

`Visits.Grows` says what any number of visits does: the finished tables are those
finished before and some more, the tables that were begun meanwhile are exactly these,
and none of them was begun before. It is kept by a run (`Run.exists_grows`), and a run
through all names finishes every table once (`Run.perm_values`).
-/

set_option autoImplicit false

namespace SchemaAtlas.Export

/-! ### What visits add -/

/-- What visits add: `added` is what they finished, one after another. -/
structure Visits.Grows (tables : Catalog Table) (v w : Visits) (added : List String) : Prop where
  done : w.done = v.done ++ added
  begun : ∀ name, name ∈ w.begun ↔ name ∈ v.begun ∨ name ∈ added
  nodup : added.Nodup
  fresh : ∀ name ∈ added, name ∉ v.begun ∧ name ∈ tables.names

section Visits

variable {tables : Catalog Table} {u v w : Visits}

/-- Where nothing happens, nothing is finished. -/
theorem Visits.Grows.refl : v.Grows tables v [] where
  done := (List.append_nil _).symm
  begun := by simp
  nodup := List.nodup_nil
  fresh := fun _ hname => absurd hname List.not_mem_nil

/-- What two runs one after the other finish is what the first one does, followed by what
the second does. -/
theorem Visits.Grows.trans {added added' : List String} (h : u.Grows tables v added)
    (h' : v.Grows tables w added') : u.Grows tables w (added ++ added') where
  done := by rw [h'.done, h.done, List.append_assoc]
  begun := by
    intro name
    rw [h'.begun, h.begun, List.mem_append, or_assoc]
  nodup := by
    refine List.nodup_append.mpr ⟨h.nodup, h'.nodup, ?_⟩
    rintro name hname _ hname' rfl
    exact (h'.fresh name hname').1 ((h.begun name).mpr (.inr hname))
  fresh := by
    intro name hname
    rcases List.mem_append.mp hname with hname | hname
    · exact h.fresh name hname
    · have hnot := (h'.fresh name hname).1
      rw [h.begun, not_or] at hnot
      exact ⟨hnot.1, (h'.fresh name hname).2⟩

/-- The visits with a table begun. -/
def Visits.begin (v : Visits) (name : String) : Visits :=
  { v with begun := name :: v.begun }

/-- The visits with a table done. -/
def Visits.finish (v : Visits) (name : String) : Visits :=
  { v with done := v.done ++ [name] }

/-- A table is finished behind all that was begun after it. Until then it counts as begun
and not as finished. -/
theorem Visits.Grows.finish {name : String} {added : List String} (hnew : name ∉ v.begun)
    (hmem : name ∈ tables.names) (h : (v.begin name).Grows tables w added) :
    v.Grows tables (w.finish name) (added ++ [name]) where
  done := by
    show w.done ++ [name] = _
    rw [h.done, List.append_assoc]
    rfl
  begun := by
    intro n
    show n ∈ w.begun ↔ _
    rw [h.begun, Visits.begin, List.mem_cons, List.mem_append, List.mem_singleton]
    constructor
    · rintro ((hn | hn) | hn)
      · exact .inr (.inr hn)
      · exact .inl hn
      · exact .inr (.inl hn)
    · rintro (hn | hn | hn)
      · exact .inl (.inr hn)
      · exact .inr hn
      · exact .inl (.inl hn)
  nodup := by
    -- all that was added began when the table itself had begun already
    have hname : name ∉ added := fun hm => (h.fresh name hm).1 List.mem_cons_self
    refine List.nodup_append.mpr ⟨h.nodup, List.nodup_singleton _, ?_⟩
    rintro n hn _ hm rfl
    exact hname (List.mem_singleton.mp hm ▸ hn)
  fresh := by
    intro n hn
    rcases List.mem_append.mp hn with hn | hn
    · obtain ⟨hfresh, hin⟩ := h.fresh n hn
      exact ⟨fun hm => hfresh (List.mem_cons_of_mem name hm), hin⟩
    · rw [List.mem_singleton.mp hn]
      exact ⟨hnew, hmem⟩

/-! ### The recursion -/

/-- The recursion through some names, one after another: a name without a table and a
table that was begun are passed over, and any other table is begun, the tables it refers
to have their turn, and it is done. The number is the most turns that lie within one
another on the way. -/
inductive Run (tables : Catalog Table) : Nat → Visits → List String → Visits → Prop
  | nil (v : Visits) : Run tables 0 v [] v
  | pass {depth : Nat} {v w : Visits} {name : String} {rest : List String}
      (hpass : tables.get? name = none ∨ name ∈ v.begun) (hrest : Run tables depth v rest w) :
      Run tables depth v (name :: rest) w
  | turn {inner later : Nat} {v u w : Visits} {name : String} {rest : List String} {t : Table}
      (ht : tables.get? name = some t) (hnew : name ∉ v.begun)
      (hreferences : Run tables inner (v.begin name) (references t) u)
      (hrest : Run tables later (u.finish name) rest w) :
      Run tables (max (inner + 1) later) v (name :: rest) w

variable {depth : Nat} {names : List String}

/-- A name that has its turn is not passed over: it has a table, and this was not begun. -/
theorem not_passed {name : String} {t : Table} (ht : tables.get? name = some t)
    (hnew : name ∉ v.begun) : ¬(tables.get? name = none ∨ name ∈ v.begun) :=
  not_or.mpr ⟨by simp [ht], hnew⟩

/-- A run has one depth and one outcome, since each name is either passed over or has its
turn, and which of the two is settled by what was begun. -/
theorem Run.unique {other : Nat} (h : Run tables depth u names v)
    (h' : Run tables other u names w) : depth = other ∧ v = w := by
  induction h generalizing other w with
  | nil =>
      cases h'
      exact ⟨rfl, rfl⟩
  -- passed over in one run, a name cannot have its turn in the other
  | pass hpass _ ih =>
      cases h' with
      | pass _ hrest => exact ih hrest
      | turn ht hnew => exact absurd hpass (not_passed ht hnew)
  | turn ht hnew _ _ ihReferences ihRest =>
      cases h' with
      | pass hpass => exact absurd hpass (not_passed ht hnew)
      | turn ht' _ hreferences hrest =>
          obtain rfl := Option.some.inj (ht.symm.trans ht')
          obtain ⟨rfl, rfl⟩ := ihReferences hreferences
          obtain ⟨rfl, rfl⟩ := ihRest hrest
          exact ⟨rfl, rfl⟩

/-- A run adds the tables that it finishes: each of them is new, and at the end of the run
no table is begun that was not finished or begun before. -/
theorem Run.exists_grows (h : Run tables depth v names w) : ∃ added, v.Grows tables w added := by
  induction h with
  | nil v => exact ⟨[], .refl⟩
  | pass _ _ ih => exact ih
  | turn ht hnew _ _ ihReferences ihRest =>
      obtain ⟨added, hreferences⟩ := ihReferences
      obtain ⟨added', hrest⟩ := ihRest
      have hmem := Catalog.mem_names_of_get? ht
      exact ⟨_, (hreferences.finish hnew hmem).trans hrest⟩

/-- What was begun stays so, all through a run. -/
theorem Run.begun_subset (h : Run tables depth v names w) : v.begun ⊆ w.begun := by
  obtain ⟨added, hgrows⟩ := h.exists_grows
  exact fun name hname => (hgrows.begun name).mpr (.inl hname)

/-- A run begins all tables that it goes through, unless they were begun before. Names
without a table are left out. -/
theorem Run.mem_begun (h : Run tables depth v names w) {name : String} (hname : name ∈ names)
    (hmem : name ∈ tables.names) : name ∈ w.begun := by
  induction h with
  | nil => cases hname
  | pass hpass hrest ih =>
      rcases List.mem_cons.mp hname with rfl | hname
      · rcases hpass with hnone | hbegun
        · exact absurd hmem ((tables.get?_eq_none_iff name).mp hnone)
        · exact hrest.begun_subset hbegun
      · exact ih hname
  | turn _ _ hreferences hrest _ ihRest =>
      rcases List.mem_cons.mp hname with rfl | hname
      · exact hrest.begun_subset (hreferences.begun_subset List.mem_cons_self)
      · exact ihRest hname

/-- A run through all tables from the start finishes each of them once. Cycles make no
difference: a table that is met again is passed over. -/
theorem Run.perm_values (h : Run tables depth {} tables.names w) :
    (w.done.filterMap tables.get?).Perm tables.values := by
  obtain ⟨added, hgrows⟩ := h.exists_grows
  have hmem : ∀ name, name ∈ added ↔ name ∈ tables.names := by
    intro name
    constructor
    · exact fun hname => (hgrows.fresh name hname).2
    · intro hname
      have hbegun := (hgrows.begun name).mp (h.mem_begun hname hname)
      exact hbegun.resolve_left List.not_mem_nil
  have hperm : added.Perm tables.names :=
    (List.perm_ext_iff_of_nodup hgrows.nodup tables.nodup).mpr hmem
  rw [hgrows.done, ← tables.filterMap_get?_names]
  exact hperm.filterMap _

/-! ### It comes to an end -/

/-- The tables that are still to be begun. -/
def Visits.ahead (tables : Catalog Table) (v : Visits) : List String :=
  tables.names.filter fun name => !v.begun.contains name

/-- The more was begun, the less is ahead. So what is ahead never grows in the course of a
run. -/
theorem length_ahead_le (h : v.begun ⊆ w.begun) :
    (w.ahead tables).length ≤ (v.ahead tables).length := by
  rw [Visits.ahead, Visits.ahead, ← List.countP_eq_length_filter, ← List.countP_eq_length_filter]
  refine List.countP_mono_left fun name _ hname => ?_
  simp only [Bool.not_eq_true', ← Bool.not_eq_true, List.contains_iff_mem] at hname ⊢
  exact fun hbegun => hname (h hbegun)

/-- A table that is begun is no more ahead, which is why a turn within a turn has less ahead
than the outer one. -/
theorem length_ahead_begin_lt {name : String} (hmem : name ∈ tables.names)
    (hnew : name ∉ v.begun) : ((v.begin name).ahead tables).length < (v.ahead tables).length := by
  have hsub : ((v.begin name).ahead tables).Sublist (v.ahead tables) := by
    refine List.monotone_filter_right _ fun n hn => ?_
    simp only [Visits.begin, Bool.not_eq_true', ← Bool.not_eq_true, List.contains_iff_mem,
      List.mem_cons, not_or] at hn ⊢
    exact hn.2
  refine Nat.lt_of_le_of_ne hsub.length_le fun heq => ?_
  have hahead : name ∈ v.ahead tables := List.mem_filter.mpr ⟨hmem, by simpa using hnew⟩
  rw [← hsub.eq_of_length heq, Visits.ahead, List.mem_filter] at hahead
  simp [Visits.begin] at hahead

/-- A run through any names comes to an end, and goes no deeper than there are tables
ahead of it. -/
theorem exists_run {bound : Nat} (v : Visits) (names : List String)
    (hbound : (v.ahead tables).length ≤ bound) :
    ∃ depth ≤ bound, ∃ w, Run tables depth v names w := by
  -- within a turn there is one table less ahead, and behind it there are fewer names
  induction bound using Nat.strongRecOn generalizing v names with
  | ind bound ihBound =>
    induction names generalizing v with
    | nil => exact ⟨0, Nat.zero_le bound, v, .nil v⟩
    | cons name rest ihRest =>
        by_cases hpass : tables.get? name = none ∨ name ∈ v.begun
        · obtain ⟨depth, hdepth, w, hrest⟩ := ihRest v hbound
          exact ⟨depth, hdepth, w, .pass hpass hrest⟩
        · obtain ⟨hsome, hnew⟩ := not_or.mp hpass
          obtain ⟨t, ht⟩ := Option.ne_none_iff_exists'.mp hsome
          have hless := length_ahead_begin_lt (Catalog.mem_names_of_get? ht) hnew
          obtain ⟨inner, hinner, u, hreferences⟩ :=
            ihBound _ (Nat.lt_of_lt_of_le hless hbound) (v.begin name) (references t)
              (Nat.le_refl _)
          have hbegun : v.begun ⊆ (u.finish name).begun := fun other hother =>
            hreferences.begun_subset (List.mem_cons_of_mem name hother)
          obtain ⟨later, hlater, w, hrest⟩ :=
            ihRest (u.finish name) (Nat.le_trans (length_ahead_le hbegun) hbound)
          exact ⟨max (inner + 1) later, by omega, w, .turn ht hnew hreferences hrest⟩

/-! ### The limit on its depth -/

/-- A name that is passed over takes no room: the visit gives back what it was given, also
with no room left. -/
theorem visit_of_pass {name : String} (h : tables.get? name = none ∨ name ∈ v.begun)
    (room : Nat) :
    visit tables room v name = .ok v := by
  rw [visit.eq_def]
  split
  · rfl
  · rename_i t ht
    have hbegun : name ∈ v.begun := h.resolve_left (by simp [ht])
    rw [if_pos (List.contains_iff_mem.mpr hbegun)]

/-- Without room no table can have its turn, and the visit fails. -/
theorem visit_zero {name : String} {t : Table} (ht : tables.get? name = some t)
    (hnew : name ∉ v.begun) : visit tables 0 v name = .error .tooDeep := by
  rw [visit.eq_def, ht]
  dsimp only
  rw [if_neg (by simpa using hnew)]

/-- A turn takes room for its table, and the turns of the references lie in what is left. -/
theorem visit_succ {name : String} {t : Table} (ht : tables.get? name = some t)
    (hnew : name ∉ v.begun) (room : Nat) :
    visit tables (room + 1) v name
      = ((references t).foldlM (visit tables room) (v.begin name)).map (·.finish name) := by
  rw [visit.eq_def, ht]
  dsimp only
  rw [if_neg (by simpa using hnew)]
  rfl

/-- Visits with some room are the run if it goes no deeper, and fail if it does. -/
theorem Run.foldlM_visit (h : Run tables depth v names w) (room : Nat) :
    names.foldlM (visit tables room) v = if depth ≤ room then .ok w else .error .tooDeep := by
  induction h generalizing room with
  | nil => rfl
  | pass hpass _ ih =>
      rw [List.foldlM_cons, visit_of_pass hpass]
      exact ih room
  | @turn inner later v u w name rest t ht hnew _ _ ihReferences ihRest =>
      rw [List.foldlM_cons]
      cases room with
      | zero =>
          rw [visit_zero ht hnew, if_neg (by omega)]
          rfl
      | succ room =>
          rw [visit_succ ht hnew, ihReferences]
          by_cases hinner : inner ≤ room
          · rw [if_pos hinner]
            show rest.foldlM (visit tables (room + 1)) (u.finish name) = _
            have hiff : max (inner + 1) later ≤ room + 1 ↔ later ≤ room + 1 := by omega
            rw [ihRest, if_congr hiff rfl rfl]
          · rw [if_neg hinner, if_neg (by omega)]
            rfl

end Visits

/-! ### The order -/

section Ordered

variable {s : Snapshot}

/-- Holds of a schema whose tables can be put in order: no more of them have their turn
within one another than may. -/
def Orderable (s : Snapshot) : Prop :=
  ∃ depth ≤ deepestTurn, ∃ w, Run s.tables depth {} s.tables.names w

/-- The recursion through all tables comes to an end, and goes no deeper than there are
tables. -/
theorem exists_run_names (s : Snapshot) :
    ∃ depth ≤ s.tables.size, ∃ w, Run s.tables depth {} s.tables.names w := by
  have hnames : s.tables.names.length = s.tables.size := List.length_map _
  exact exists_run {} s.tables.names (hnames ▸ List.length_filter_le _ _)

/-- It is the depth of the one run through all tables that decides whether the schema can be
put in order. -/
theorem Run.orderable_iff {depth : Nat} {w : Visits}
    (h : Run s.tables depth {} s.tables.names w) :
    Orderable s ↔ depth ≤ deepestTurn := by
  constructor
  · rintro ⟨depth', hdepth, w', h'⟩
    exact (h.unique h').1 ▸ hdepth
  · exact fun hdepth => ⟨depth, hdepth, w, h⟩

/-- The order is what the run through all tables has done, if it stays within the limit.
Otherwise there is none. -/
theorem Run.ordered_eq {depth : Nat} {w : Visits} (h : Run s.tables depth {} s.tables.names w) :
    ordered s = if depth ≤ deepestTurn then .ok (w.done.filterMap s.tables.get?)
      else .error .tooDeep := by
  rw [ordered, h.foldlM_visit]
  split
  · rfl
  · rfl

/-- A schema can be put in order exactly if an order is computed, so the question is decided
by computing it. -/
theorem orderable_iff (s : Snapshot) : Orderable s ↔ (ordered s).isOk = true := by
  obtain ⟨depth, -, w, hrun⟩ := exists_run_names s
  rw [hrun.orderable_iff, hrun.ordered_eq]
  split
  · rename_i hdepth
    exact ⟨fun _ => rfl, fun _ => hdepth⟩
  · rename_i hdepth
    exact ⟨fun h => absurd h hdepth, fun h => by cases h⟩

instance decidableOrderable (s : Snapshot) : Decidable (Orderable s) :=
  decidable_of_iff _ (orderable_iff s).symm

/-- The order of a schema that can be put in one goes through every table once. -/
theorem exists_ordered (s : Snapshot) :
    ∃ tables, ordered s = (if Orderable s then .ok tables else .error .tooDeep)
      ∧ tables.Perm s.tables.values := by
  obtain ⟨depth, -, w, hrun⟩ := exists_run_names s
  exact ⟨_, hrun.ordered_eq.trans (if_congr hrun.orderable_iff.symm rfl rfl), hrun.perm_values⟩

/-- An order that is computed has every table of the schema once. -/
theorem perm_of_ordered {tables : List Table} (h : ordered s = .ok tables) :
    tables.Perm s.tables.values := by
  obtain ⟨tables', hordered, hperm⟩ := exists_ordered s
  rw [hordered] at h
  split at h
  · exact Except.ok.inj h ▸ hperm
  · cases h

end Ordered

end SchemaAtlas.Export
