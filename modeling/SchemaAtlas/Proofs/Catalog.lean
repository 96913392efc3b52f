import SchemaAtlas.Catalog
import SchemaAtlas.Proofs.List

/-!
# `SchemaAtlas.Proofs.Catalog`: looking things up in a catalog

No name stands twice in a catalog, so an entry is found by its name, and going
through the names gives the values (`filterMap_get?_names`). Entries that are made one
after another are all there in the end if their names are distinct (`size_ofList_eq_iff`).
-/

set_option autoImplicit false

namespace SchemaAtlas.Catalog

variable {α : Type}

/-- A catalog is its entries: two catalogs with the same entries in the same order are one,
as the proof that names are distinct carries no data. -/
theorem eq_of_entries {c d : Catalog α} (h : c.entries = d.entries) : c = d := by
  cases c
  cases d
  cases h
  rfl

/-- Among entries with distinct names, each is found by its name. Were there two of one
name, the first alone would be found. -/
theorem lookup_of_mem {l : List (String × α)} (h : (l.map Prod.fst).Nodup) {e : String × α}
    (he : e ∈ l) : l.lookup e.1 = some e.2 := by
  induction l with
  | nil => cases he
  | cons d l ih =>
      obtain ⟨name, a⟩ := d
      rw [List.map_cons, List.nodup_cons] at h
      rcases List.mem_cons.mp he with rfl | he
      · simp
      · have hne : e.1 ≠ name := fun heq => h.1 (List.mem_map.mpr ⟨e, he, heq⟩)
        rw [List.lookup_cons, beq_eq_false_iff_ne.mpr hne]
        exact ih h.2 he

/-- What a name is found with is one of the entries, and it stands there under this very
name. -/
theorem mem_of_lookup {l : List (String × α)} {name : String} {a : α}
    (h : l.lookup name = some a) :
    (name, a) ∈ l := by
  induction l with
  | nil => cases h
  | cons d l ih =>
      obtain ⟨first, b⟩ := d
      by_cases hname : name = first
      · subst hname
        obtain rfl : b = a := by simpa using h
        exact List.mem_cons_self
      · rw [List.lookup_cons, beq_eq_false_iff_ne.mpr hname] at h
        exact List.mem_cons_of_mem _ (ih h)

/-- An entry is found by its name, and nothing else is: looking a name up and being an entry
of that name are the same. -/
theorem get?_eq_some_iff (c : Catalog α) (name : String) (a : α) :
    c.get? name = some a ↔ (name, a) ∈ c.entries :=
  ⟨mem_of_lookup, fun h => lookup_of_mem c.nodup h⟩

/-- The names of a catalog are those that something is found under, so membership can be
decided by looking the name up. -/
theorem mem_names_iff (c : Catalog α) (name : String) :
    name ∈ c.names ↔ (c.get? name).isSome := by
  rw [Option.isSome_iff_exists, names, List.mem_map]
  constructor
  · rintro ⟨e, he, rfl⟩
    exact ⟨e.2, (c.get?_eq_some_iff e.1 e.2).mpr he⟩
  · rintro ⟨a, ha⟩
    exact ⟨(name, a), (c.get?_eq_some_iff name a).mp ha, rfl⟩

/-- A name that something is found under is one of the names of the catalog. -/
theorem mem_names_of_get? {c : Catalog α} {name : String} {a : α} (h : c.get? name = some a) :
    name ∈ c.names :=
  (c.mem_names_iff name).mpr (by rw [h]; rfl)

/-- Nothing is found under a name exactly if the catalog does not have this name. -/
theorem get?_eq_none_iff (c : Catalog α) (name : String) :
    c.get? name = none ↔ name ∉ c.names := by
  rw [mem_names_iff, Option.not_isSome_iff_eq_none]

/-- Entering a value adds its name to those that are there, and takes none away. -/
theorem mem_names_insert (c : Catalog α) (name key : String) (a : α) :
    key ∈ (c.insert name a).names ↔ key = name ∨ key ∈ c.names := by
  rw [mem_names_iff, get?_insert, mem_names_iff]
  split
  · rename_i hkey
    simp [hkey]
  · rename_i hkey
    simp [hkey]

/-- An entry under a new name goes to the end, and all entries before it keep their
places. -/
theorem setEntry_of_notMem {name : String} {l : List (String × α)} (h : name ∉ l.map Prod.fst)
    (a : α) : setEntry name a l = l ++ [(name, a)] := by
  induction l with
  | nil => rfl
  | cons e l ih =>
      rw [List.map_cons, List.mem_cons, not_or] at h
      rw [setEntry, if_neg (Ne.symm h.1), ih h.2, List.cons_append]

/-- A new name goes to the end, with its value. This is the case in which entering a value
does not write over another. -/
theorem entries_insert_of_notMem {c : Catalog α} {name : String} (h : name ∉ c.names) (a : α) :
    (c.insert name a).entries = c.entries ++ [(name, a)] :=
  setEntry_of_notMem h a

/-- Entries under distinct names stand in their catalog just as they are given. With a name
twice, the first would give the place and the last the value. -/
theorem entries_ofList {entries : List (String × α)} (h : (entries.map Prod.fst).Nodup) :
    (ofList entries).entries = entries := by
  have hfold : (ofList entries).entries = entries.foldl (fun l e => setEntry e.1 e.2 l) [] :=
    (List.foldl_hom Catalog.entries fun _ _ => rfl).symm
  rw [hfold, foldl_eq_append_of_nodup (fun _ e he => setEntry_of_notMem he e.2) h,
    List.nil_append]

/-- Going through the names and looking each one up gives the values, in the order of the
entries and each of them once. -/
theorem filterMap_get?_names (c : Catalog α) : c.names.filterMap c.get? = c.values := by
  have hfound : ∀ e ∈ c.entries, c.get? e.1 = some e.2 := fun e he => lookup_of_mem c.nodup he
  rw [names, values, List.filterMap_map]
  generalize c.entries = l at hfound
  induction l with
  | nil => rfl
  | cons e l ih =>
      have hfirst : (c.get? ∘ Prod.fst) e = some e.2 := hfound e List.mem_cons_self
      rw [List.filterMap_cons_some hfirst, List.map_cons,
        ih fun d hd => hfound d (List.mem_cons_of_mem e hd)]

/-- Entries one after another give as many names as there are entries if none of the names comes
twice or is there already, and fewer else. -/
theorem size_foldl_insert (c : Catalog α) (entries : List (String × α)) :
    (entries.foldl (fun c e => c.insert e.1 e.2) c).size ≤ c.size + entries.length
    ∧ ((entries.foldl (fun c e => c.insert e.1 e.2) c).size = c.size + entries.length
      ↔ (c.names ++ entries.map Prod.fst).Nodup) := by
  induction entries generalizing c with
  | nil => simp [c.nodup, names]
  | cons e entries ih =>
      obtain ⟨hle, hiff⟩ := ih (c.insert e.1 e.2)
      have hsize : ∀ d : Catalog α, d.size = d.names.length := fun d => (List.length_map ..).symm
      have hnames := c.names_insert e.1 e.2
      rw [List.foldl_cons, List.length_cons, List.map_cons]
      by_cases hmem : e.1 ∈ c.names
      · -- the name keeps its place, so there is one name less
        rw [if_pos hmem] at hnames
        have hsame : (c.insert e.1 e.2).size = c.size := by rw [hsize, hsize, hnames]
        rw [hsame] at hle
        refine ⟨by omega, ?_⟩
        constructor
        · intro h
          omega
        · intro h
          exact absurd rfl ((List.nodup_append.mp h).2.2 _ hmem _ List.mem_cons_self)
      · rw [if_neg hmem] at hnames
        have hmore : (c.insert e.1 e.2).size = c.size + 1 := by
          rw [hsize, hsize, hnames, List.length_append, List.length_singleton]
        rw [hnames, List.append_assoc, List.singleton_append, hmore] at hiff
        rw [hmore] at hle
        refine ⟨by omega, ?_⟩
        rw [← hiff]
        constructor <;> intro h <;> omega

/-- Of entries under distinct names, and only of these, all are there in the end. -/
theorem size_ofList_eq_iff (entries : List (String × α)) :
    (ofList entries).size = entries.length ↔ (entries.map Prod.fst).Nodup := by
  have h := (size_foldl_insert empty entries).2
  have hempty : (empty : Catalog α).size = 0 := rfl
  rw [hempty, Nat.zero_add] at h
  exact h

end SchemaAtlas.Catalog
