import SchemaAtlas.Proofs.Relation.Target

/-!
# `SchemaAtlas.Proofs.Relation.Selection`: one edge between two tables

Of all edges there could be, the first one between two tables is kept, whichever way
it runs, and edges from a table to itself are left out (`firstPerPair`). Whether two
tables are joined already is told by texts that are made of their names; names are
made of word characters, so the texts say no more and no less than the names
(`pairKey_eq_iff`, `samePair_of_id_eq`). One step of the selection is therefore a step
by pairs (`addEdge_eq`), and a run of it selects the first of each pair
(`foldl_addEdge_eq`).
-/

set_option autoImplicit false

namespace SchemaAtlas.Relation

open SchemaAtlas.Text

/-! ### Pairs of tables -/

/-- Holds of two edges between the same two tables, whichever way they run. -/
def SamePair (d e : Edge) : Prop :=
  d.source = e.source ∧ d.target = e.target ∨ d.source = e.target ∧ d.target = e.source

instance (d e : Edge) : Decidable (SamePair d e) :=
  inferInstanceAs (Decidable (_ ∨ _))

/-- Being between the same two tables goes both ways, whichever of the two edges leads from
where. -/
theorem SamePair.symm {d e : Edge} (h : SamePair d e) : SamePair e d :=
  h.imp (fun h => ⟨h.1.symm, h.2.symm⟩) fun h => ⟨h.2.symm, h.1.symm⟩

/-- Being between the same two tables carries over from one edge to the next, so it divides
the edges into classes. -/
theorem SamePair.trans {d e f : Edge} (hde : SamePair d e) (hef : SamePair e f) :
    SamePair d f := by
  rcases hde with hde | hde
  · rcases hef with hef | hef
    · exact .inl ⟨hde.1.trans hef.1, hde.2.trans hef.2⟩
    · exact .inr ⟨hde.1.trans hef.1, hde.2.trans hef.2⟩
  · rcases hef with hef | hef
    · exact .inr ⟨hde.1.trans hef.2, hde.2.trans hef.1⟩
    · exact .inl ⟨hde.1.trans hef.2, hde.2.trans hef.1⟩

/-- Holds of an edge between tables whose names are made of word characters. -/
structure Worded (e : Edge) : Prop where
  source : ∀ ch ∈ e.source.toList, isWord ch = true
  target : ∀ ch ∈ e.target.toList, isWord ch = true

/-- Where a mark is in none of two words, the words before the mark are told by the
text, and so is what comes behind it. -/
theorem eq_of_append_mark_eq {a b x y : String} {mark : String} {ch : Char}
    (hmark : mark.toList = [ch])
    (ha : ch ∉ a.toList) (hb : ch ∉ b.toList) (h : a ++ mark ++ x = b ++ mark ++ y) :
    a = b ∧ x = y := by
  have hchars : a.toList ++ ch :: x.toList = b.toList ++ ch :: y.toList := by
    have hlists := congrArg String.toList h
    simpa only [String.toList_append, hmark, List.append_assoc,
      List.singleton_append] using hlists
  -- the shorter word ends where the longer one would have to hold the mark
  have hlist : ∀ {u v r s : List Char}, ch ∉ u → ch ∉ v → u ++ ch :: r = v ++ ch :: s →
      u = v ∧ r = s := by
    intro u
    induction u with
    | nil =>
        intro v r s _ hv heq
        cases v with
        | nil => exact ⟨rfl, (List.cons.inj heq).2⟩
        | cons d v =>
            have hd : ch = d := (List.cons.inj heq).1
            exact absurd (hd ▸ List.mem_cons_self) hv
    | cons c u ih =>
        intro v r s hu hv heq
        cases v with
        | nil =>
            have hc : c = ch := (List.cons.inj heq).1
            exact absurd (hc ▸ List.mem_cons_self) hu
        | cons d v =>
            obtain ⟨rfl, hrest⟩ := List.cons.inj heq
            obtain ⟨rfl, rfl⟩ := ih (fun hm => hu (List.mem_cons_of_mem c hm))
              (fun hm => hv (List.mem_cons_of_mem c hm)) hrest
            exact ⟨rfl, rfl⟩
  obtain ⟨hword, hrest⟩ := hlist ha hb hchars
  exact ⟨String.toList_injective hword, String.toList_injective hrest⟩

/-- No mark is among word characters, so the name of an edge can be cut where its marks
are. -/
theorem notMem_of_words {ch : Char} (hch : isWord ch = false) {name : String}
    (h : ∀ c ∈ name.toList, isWord c = true) : ch ∉ name.toList := by
  intro hm
  have hword := h ch hm
  rw [hch] at hword
  cases hword

/-- Edges have one name for their pair of tables just if they have the same two
tables. -/
theorem pairKey_eq_iff {d e : Edge} (hd : Worded d) (he : Worded e) :
    d.pairKey = e.pairKey ↔ SamePair d e := by
  have hcolon : isWord ':' = false := by decide
  have hsplit : ∀ {a b x y : String}, (∀ c ∈ a.toList, isWord c = true) →
      (∀ c ∈ b.toList, isWord c = true) → a ++ ":" ++ x = b ++ ":" ++ y → a = b ∧ x = y := by
    intro a b x y ha hb heq
    exact eq_of_append_mark_eq rfl (notMem_of_words hcolon ha) (notMem_of_words hcolon hb) heq
  rw [Edge.pairKey, Edge.pairKey]
  constructor
  · intro h
    split at h
    · split at h
      · exact .inl (hsplit hd.target he.target h).symm
      · exact .inr (hsplit hd.target he.source h).symm
    · split at h
      · exact .inr (hsplit hd.source he.target h)
      · exact .inl (hsplit hd.source he.source h)
  · rintro (⟨hsource, htarget⟩ | ⟨hsource, htarget⟩)
    · rw [hsource, htarget]
    · rw [hsource, htarget]
      -- the smaller name comes first in both, and of equal names it does not matter which
      by_cases hlt : e.source < e.target
      · rw [if_pos hlt, if_neg (String.lt_asymm hlt)]
      · rw [if_neg hlt]
        split
        · rfl
        · rename_i hgt
          rw [String.le_antisymm (String.not_lt.mp hgt) (String.not_lt.mp hlt)]

/-- Edges of one name have the same two tables, since the two marks in the name separate
what it is made of. -/
theorem samePair_of_id_eq {d e : Edge} (hd : Worded d) (he : Worded e) (h : d.id = e.id) :
    SamePair d e := by
  have hdash : isWord '-' = false := by decide
  have hid : ∀ f : Edge, f.id = f.source ++ "-" ++ (f.target ++ "-" ++ f.label) := by
    intro f
    rw [Edge.id]
    simp only [String.append_assoc]
  rw [hid, hid] at h
  obtain ⟨hsource, hrest⟩ := eq_of_append_mark_eq rfl (notMem_of_words hdash hd.source)
    (notMem_of_words hdash he.source) h
  obtain ⟨htarget, -⟩ := eq_of_append_mark_eq rfl (notMem_of_words hdash hd.target)
    (notMem_of_words hdash he.target) hrest
  exact .inl ⟨hsource, htarget⟩

/-! ### The first edge of each pair -/

/-- The edges without those from a table to itself, and of those between the same two
tables only the first. -/
def firstPerPair : List Edge → List Edge
  | [] => []
  | e :: rest =>
    if e.source = e.target then firstPerPair rest
    else e :: (firstPerPair rest).filter fun d => !SamePair d e

/-- The edges that are kept are some of the edges, in the same order. -/
theorem firstPerPair_sublist (edges : List Edge) : (firstPerPair edges).Sublist edges := by
  induction edges with
  | nil => exact .slnil
  | cons e rest ih =>
      rw [firstPerPair]
      split
      · exact ih.cons e
      · exact (List.filter_sublist.trans ih).cons_cons e

/-- No two of the edges kept are between the same two tables, in either direction. -/
theorem pairwise_firstPerPair (edges : List Edge) :
    (firstPerPair edges).Pairwise fun d e => ¬SamePair d e := by
  induction edges with
  | nil => exact .nil
  | cons e rest ih =>
      rw [firstPerPair]
      split
      · exact ih
      · refine List.pairwise_cons.mpr ⟨fun d hd hpair => ?_, ih.filter _⟩
        have hother := (List.mem_filter.mp hd).2
        simp [hpair.symm] at hother

/-- No edge kept is from a table to itself, since such an edge is passed over from the
start. -/
theorem ne_of_mem_firstPerPair {edges : List Edge} {e : Edge} (he : e ∈ firstPerPair edges) :
    e.source ≠ e.target := by
  induction edges with
  | nil => cases he
  | cons d rest ih =>
      rw [firstPerPair] at he
      split at he
      · exact ih he
      · rename_i hne
        rcases List.mem_cons.mp he with rfl | he
        · exact hne
        · exact ih (List.mem_filter.mp he).1

/-- Two tables that some edge joins are joined by an edge that is kept, unless they are the
same table. -/
theorem exists_samePair_firstPerPair {edges : List Edge} {e : Edge} (he : e ∈ edges)
    (hne : e.source ≠ e.target) : ∃ d ∈ firstPerPair edges, SamePair d e := by
  induction edges with
  | nil => cases he
  | cons first rest ih =>
      rw [firstPerPair]
      rcases List.mem_cons.mp he with rfl | he
      · rw [if_neg hne]
        exact ⟨e, List.mem_cons_self, .inl ⟨rfl, rfl⟩⟩
      · obtain ⟨d, hd, hpair⟩ := ih he
        split
        · exact ⟨d, hd, hpair⟩
        · by_cases hfirst : SamePair first e
          · exact ⟨first, List.mem_cons_self, hfirst⟩
          · refine ⟨d, List.mem_cons_of_mem first (List.mem_filter.mpr ⟨hd, ?_⟩), hpair⟩
            have hother : ¬SamePair d first := fun hsame => hfirst (hsame.symm.trans hpair)
            simp [hother]

/-! ### The selection -/

/-- One more edge is kept if its tables differ and no edge joins them yet. -/
theorem addEdge_eq {edges : List Edge} {e : Edge} (hedges : ∀ d ∈ edges, Worded d)
    (he : Worded e) :
    addEdge edges e
      = if e.source = e.target ∨ ∃ d ∈ edges, SamePair d e then edges else edges ++ [e] := by
  have hany : (edges.any fun d => d.pairKey == e.pairKey || d.id == e.id) = true
      ↔ ∃ d ∈ edges, SamePair d e := by
    rw [List.any_eq_true]
    refine exists_congr fun d => and_congr_right fun hd => ?_
    rw [Bool.or_eq_true, beq_iff_eq, beq_iff_eq, pairKey_eq_iff (hedges d hd) he]
    exact ⟨fun h => h.elim id (samePair_of_id_eq (hedges d hd) he), .inl⟩
  rw [addEdge]
  by_cases hloop : e.source = e.target
  · rw [if_pos hloop, if_pos (.inl hloop)]
  · rw [if_neg hloop]
    by_cases hjoined : ∃ d ∈ edges, SamePair d e
    · rw [if_pos (hany.mpr hjoined), if_pos (.inr hjoined)]
    · rw [if_neg (mt hany.mp hjoined), if_neg (not_or.mpr ⟨hloop, hjoined⟩)]

/-- What a kept edge leaves out is left out already if an edge that stands for it is there. -/
theorem filter_joined_of_samePair {edges : List Edge} {d e : Edge} (hd : d ∈ edges)
    (hpair : SamePair d e)
    (later : List Edge) :
    later.filter (fun f => (!edges.any fun d => SamePair d f) && !decide (SamePair f e))
      = later.filter fun f => !edges.any fun d => SamePair d f := by
  refine List.filter_congr fun f _ => ?_
  by_cases hf : SamePair f e
  · have hjoined : (edges.any fun d => SamePair d f) = true :=
      List.any_eq_true.mpr ⟨d, hd, decide_eq_true (hpair.trans hf.symm)⟩
    simp [hjoined]
  · simp [hf]

/-- What one more kept edge leaves out is left out because of that edge, and the rest as
before. -/
theorem filter_joined_concat (edges later : List Edge) (e : Edge) :
    later.filter (fun f => (!edges.any fun d => SamePair d f) && !decide (SamePair f e))
      = later.filter fun f => !(edges ++ [e]).any fun d => SamePair d f := by
  refine List.filter_congr fun f _ => ?_
  have hcomm : decide (SamePair e f) = decide (SamePair f e) := by
    rw [decide_eq_decide]
    exact ⟨SamePair.symm, SamePair.symm⟩
  simp [hcomm]

/-- A run of the selection keeps the first edge of each pair that was not joined
before. -/
theorem foldl_addEdge_eq {later : List Edge} (hlater : ∀ e ∈ later, Worded e) {edges : List Edge}
    (hedges : ∀ d ∈ edges, Worded d) :
    later.foldl addEdge edges
      = edges ++ (firstPerPair later).filter fun e => !edges.any fun d => SamePair d e := by
  induction later generalizing edges with
  | nil => exact (List.append_nil edges).symm
  | cons e later ih =>
      have he := hlater e List.mem_cons_self
      have hrest := fun d hd => hlater d (List.mem_cons_of_mem e hd)
      rw [List.foldl_cons, addEdge_eq hedges he, firstPerPair]
      by_cases hloop : e.source = e.target
      · rw [if_pos (.inl hloop), if_pos hloop, ih hrest hedges]
      · rw [if_neg hloop, List.filter_cons, List.filter_filter]
        by_cases hjoined : ∃ d ∈ edges, SamePair d e
        · obtain ⟨d, hd, hpair⟩ := hjoined
          have hany : (edges.any fun d => SamePair d e) = true :=
            List.any_eq_true.mpr ⟨d, hd, decide_eq_true hpair⟩
          rw [if_pos (.inr ⟨d, hd, hpair⟩), if_neg (by simp [hany]), ih hrest hedges,
            filter_joined_of_samePair hd hpair]
        · -- the edge is kept, and from here on it leaves out the others of its pair
          have hplain : ∀ d ∈ edges ++ [e], Worded d := by
            intro d hd
            rcases List.mem_append.mp hd with hd | hd
            · exact hedges d hd
            · rw [List.mem_singleton.mp hd]
              exact he
          have hany : (edges.any fun d => SamePair d e) = false := by
            rw [List.any_eq_false]
            exact fun d hd hpair => hjoined ⟨d, hd, of_decide_eq_true hpair⟩
          rw [if_neg (not_or.mpr ⟨hloop, hjoined⟩), if_pos (by simp [hany]), ih hrest hplain,
            List.append_assoc, List.singleton_append, filter_joined_concat]

/-- What holds of the edges that are kept. -/
structure FirstWins (tables : Catalog Table) (declared : List DeclaredRelation)
    (bindings : Catalog String) (edges : List Edge) : Prop where
  /-- They are the first ones of their pairs, from columns and then from declarations. -/
  kept : edges = firstPerPair
    ((tables.values.flatMap fun t => t.columns.filterMap (columnEdge? tables.names t))
      ++ declared.filterMap (declaredEdge? tables bindings))
  /-- A column gives an edge to the table that it refers to. -/
  columns : ∀ t c e, columnEdge? tables.names t c = some e
    ↔ ∃ target, RefersTo tables.names t c target ∧ e = ⟨t.name, target, .belongsTo, some c.name⟩
  /-- A declaration gives an edge if both its classes stand for tables. -/
  declarations : ∀ r e, declaredEdge? tables bindings r = some e
    ↔ ∃ source target, tableOfModel? tables bindings r.fromModel = some source
      ∧ tableOfModel? tables bindings r.toModel = some target ∧ e = ⟨source, target, r.kind, none⟩
  /-- Each has a name of its own. -/
  ids : (edges.map Edge.id).Nodup
  /-- They lead from tables to tables. -/
  known : ∀ e ∈ edges, e.source ∈ tables.names ∧ e.target ∈ tables.names
  /-- They lead to other tables. -/
  others : ∀ e ∈ edges, e.source ≠ e.target
  /-- No two of them join the same two tables. -/
  pairs : edges.Pairwise fun d e => ¬SamePair d e
  /-- And any two tables that could be joined are. -/
  joined : ∀ e ∈ candidates tables declared bindings, e.source ≠ e.target → ∃ d ∈ edges,
    SamePair d e

/-- Between two tables the first edge wins. Keys are asked of the tables, and word
characters of their names; of columns and declared relations, nothing. -/
theorem firstWins_resolve {tables : Catalog Table} (hkeyed : Keyed tables)
    (hwords : ∀ name ∈ tables.names, ∀ ch ∈ name.toList, isWord ch = true)
    (declared : List DeclaredRelation) (bindings : Catalog String) :
    FirstWins tables declared bindings (resolve tables declared bindings) := by
  have hplain : ∀ e ∈ candidates tables declared bindings, Worded e := by
    intro e he
    obtain ⟨hsource, htarget⟩ := known_of_mem_candidates hkeyed he
    exact ⟨hwords _ hsource, hwords _ htarget⟩
  have hkept : resolve tables declared bindings
      = firstPerPair (candidates tables declared bindings) := by
    rw [resolve, foldl_addEdge_eq hplain fun d hd => by cases hd]
    exact List.filter_eq_self.mpr fun _ _ => rfl
  have hmem : ∀ e ∈ resolve tables declared bindings,
      e ∈ candidates tables declared bindings := by
    intro e he
    rw [hkept] at he
    exact (firstPerPair_sublist _).subset he
  have hpairs : (resolve tables declared bindings).Pairwise fun d e => ¬SamePair d e := by
    rw [hkept]
    exact pairwise_firstPerPair _
  refine ⟨hkept, columnEdge?_eq_some_iff tables.names,
    declaredEdge?_eq_some_iff tables bindings, ?_,
    fun e he => known_of_mem_candidates hkeyed (hmem e he), fun e he => ?_, hpairs,
    fun e he hne => ?_⟩
  · rw [List.nodup_iff_pairwise_ne, List.pairwise_map]
    -- two edges of one name would have the same two tables
    refine hpairs.imp_of_mem fun {d e} hd he hother hid => ?_
    exact hother (samePair_of_id_eq (hplain d (hmem d hd)) (hplain e (hmem e he)) hid)
  · rw [hkept] at he
    exact ne_of_mem_firstPerPair he
  · rw [hkept]
    exact exists_samePair_firstPerPair he hne

/-- Posts that refer to users by a name and by a foreign key. -/
def blogTables : Catalog Table := .ofList
  [("users", { name := "users", columns := [{ name := "id", type := .id, isPrimary := true }] }),
    ("posts",
      { name := "posts"
        columns := [{ name := "user_id", type := .unsignedBigInteger },
          { name := "author", type := .unsignedBigInteger, isForeign := true }]
        foreignKeys := [⟨"author", "users"⟩] })]

/-- Of the two columns and what the class declares, the first column gives the edge. -/
theorem firstWins_resolve_blog :
    FirstWins blogTables [⟨"User", .hasMany, "Post", "posts"⟩] .empty
      [⟨"posts", "users", .belongsTo, some "user_id"⟩] := by
  have hwords : (blogTables.names.all fun name => name.toList.all isWord) = true := by
    decide +kernel
  have hwins := firstWins_resolve (show Keyed blogTables by decide +kernel)
    (fun name hname => List.all_eq_true.mp (List.all_eq_true.mp hwords name hname))
    [⟨"User", .hasMany, "Post", "posts"⟩] .empty
  have hedges : resolve blogTables [⟨"User", .hasMany, "Post", "posts"⟩] .empty
      = [⟨"posts", "users", .belongsTo, some "user_id"⟩] := by decide +kernel
  rwa [hedges] at hwins

end SchemaAtlas.Relation
