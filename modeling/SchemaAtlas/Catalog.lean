/-!
# `SchemaAtlas.Catalog`: values by name, in order of first entry

A catalog holds one value for each of its names. Its names stand in the order in which they were
first entered; entering a name again replaces the value and keeps the place. The order is part
of what listings and exports show.
-/

set_option autoImplicit false

namespace SchemaAtlas

/-- Values by name; no name stands twice. -/
structure Catalog (α : Type) where
  entries : List (String × α)
  nodup : (entries.map Prod.fst).Nodup

namespace Catalog

variable {α β : Type}

/-- The catalog without entries. -/
def empty : Catalog α := ⟨[], List.nodup_nil⟩

instance : Inhabited (Catalog α) := ⟨empty⟩

instance [DecidableEq α] : DecidableEq (Catalog α) := fun a b =>
  if h : a.entries = b.entries then
    .isTrue (by cases a; cases b; cases h; rfl)
  else
    .isFalse fun e => h (e ▸ rfl)

/-- The names, in order of first entry. -/
def names (c : Catalog α) : List String := c.entries.map Prod.fst

/-- The values, in the order of their names. -/
def values (c : Catalog α) : List α := c.entries.map Prod.snd

/-- The number of entries. -/
def size (c : Catalog α) : Nat := c.entries.length

/-- The value entered under a name. -/
def get? (c : Catalog α) (name : String) : Option α := c.entries.lookup name

/-- Holds when the name has an entry. -/
def contains (c : Catalog α) (name : String) : Bool := c.names.contains name

/-- Entries with `name` set to `a`: in its place if it has one, else at the end. -/
def setEntry (name : String) (a : α) : List (String × α) → List (String × α)
  | [] => [(name, a)]
  | e :: r => if e.1 = name then (name, a) :: r else e :: setEntry name a r

theorem map_fst_setEntry (name : String) (a : α) (l : List (String × α)) :
    (setEntry name a l).map Prod.fst =
      if name ∈ l.map Prod.fst then l.map Prod.fst else l.map Prod.fst ++ [name] := by
  induction l with
  | nil => simp [setEntry]
  | cons e r ih =>
    by_cases h : e.1 = name
    · simp [setEntry, h]
    · have h' : ¬name = e.1 := fun q => h q.symm
      by_cases hm : name ∈ r.map Prod.fst
      · rw [if_pos hm] at ih
        simp only [setEntry, if_neg h, List.map_cons, ih]
        rw [if_pos (List.mem_cons_of_mem _ hm)]
      · rw [if_neg hm] at ih
        simp only [setEntry, if_neg h, List.map_cons, ih]
        rw [if_neg (by simp only [List.mem_cons, not_or]; exact ⟨h', hm⟩), List.cons_append]

theorem nodup_setEntry (name : String) (a : α) (l : List (String × α))
    (h : (l.map Prod.fst).Nodup) : ((setEntry name a l).map Prod.fst).Nodup := by
  rw [map_fst_setEntry]
  split
  · exact h
  · rename_i hm
    rw [List.nodup_append]
    exact ⟨h, by simp, fun x hx y hy => by
      rw [List.mem_singleton] at hy
      subst hy
      exact fun q => hm (q ▸ hx)⟩

theorem lookup_setEntry (name key : String) (a : α) (l : List (String × α)) :
    (setEntry name a l).lookup key = if key = name then some a else l.lookup key := by
  induction l with
  | nil =>
    by_cases h : key = name
    · simp [setEntry, h]
    · simp [setEntry, List.lookup_cons, beq_eq_false_iff_ne.mpr h, h]
  | cons e r ih =>
    obtain ⟨first, b⟩ := e
    by_cases he : first = name
    · subst he
      by_cases h : key = first
      · simp [setEntry, h]
      · simp [setEntry, List.lookup_cons, beq_eq_false_iff_ne.mpr h, h]
    · by_cases h : key = first
      · subst h
        simp [setEntry, he]
      · simp [setEntry, List.lookup_cons, beq_eq_false_iff_ne.mpr h, he, ih]

/-- The catalog with a value entered under a name. -/
def insert (c : Catalog α) (name : String) (a : α) : Catalog α :=
  ⟨setEntry name a c.entries, nodup_setEntry name a c.entries c.nodup⟩

/-- A new name goes to the end; a name that is there keeps its place. -/
theorem names_insert (c : Catalog α) (name : String) (a : α) :
    (c.insert name a).names = if name ∈ c.names then c.names else c.names ++ [name] :=
  map_fst_setEntry name a c.entries

/-- The value that was entered is found under its name, and all others as before. -/
theorem get?_insert (c : Catalog α) (name key : String) (a : α) :
    (c.insert name a).get? key = if key = name then some a else c.get? key :=
  lookup_setEntry name key a c.entries

/-- Entries one after another; of several under one name the first gives the place and the last
the value. -/
def ofList (entries : List (String × α)) : Catalog α :=
  entries.foldl (fun c e => c.insert e.1 e.2) empty

/-- The values through `f`, under the same names. -/
def map (f : α → β) (c : Catalog α) : Catalog β :=
  ⟨c.entries.map fun e => (e.1, f e.2), by simpa [Function.comp_def] using c.nodup⟩

end Catalog

end SchemaAtlas
