import SchemaAtlas.Proofs.Migration.Bundle

/-!
# `SchemaAtlas.Proofs.Migration.Extracted`: the table that a migration creates

`extracted t` is the table that is read from the migration of `t`. For a table
with distinct names it is the settled one, but most of what editing needs to
know holds without that: names are names again (`writable_extracted`), every
foreign key is on a column (`exists_column_extracted`), and one identifier at
most comes back as one identifier at most (`oneIdentifier_extracted`).

The three follow from what the statements of a table ask for. `Request.Plain`
says it, and `plain_of_mem_requests` proves it, call by call.
-/

set_option autoImplicit false

namespace SchemaAtlas.Migration

open SchemaAtlas.Text SchemaAtlas.Scan

/-- The table that the migration of a table creates. -/
def extracted (t : Table) : Table where
  name := t.name
  columns := (tableDraft t).finalColumns
  foreignKeys := (tableDraft t).finalForeignKeys

/-! ### Plain requests -/

/-- The names of the columns that some requests declare. -/
def declaredNames (requests : List Request) : List String :=
  (requests.filterMap Request.declared?).map Column.name

/-- Holds of a request that gives names to what needs them, declares no
identifier among the columns, and puts a foreign key on a declared column. -/
def Request.Plain (declared : List String) : Request → Prop
  | identify name => isName name = true
  | declare c => isName c.name = true ∧ c.type ≠ .id
  | refer fk => isName fk.target = true ∧ fk.column ∈ declared
  | constrain fk => isName fk.target = true ∧ fk.column ∈ declared
  | drop _ | dropForeign _ | rename _ _ => False

/-- More declarations do no harm: a request that is plain among some is plain among more. -/
theorem Request.Plain.mono {declared declared' : List String} (h : ∀ n ∈ declared, n ∈ declared')
    {r : Request} (hr : r.Plain declared) : r.Plain declared' := by
  cases r with
  | identify name => exact hr
  | declare c => exact hr
  | refer fk => exact ⟨hr.1, h _ hr.2⟩
  | constrain fk => exact ⟨hr.1, h _ hr.2⟩
  | drop names => exact hr
  | dropForeign names => exact hr
  | rename old new => exact hr

/-- More requests declare more names, and none that was declared before is lost. -/
theorem declaredNames_subset {requests requests' : List Request}
    (h : ∀ r ∈ requests, r ∈ requests') :
    ∀ n ∈ declaredNames requests, n ∈ declaredNames requests' := by
  intro n hn
  obtain ⟨c, hc, rfl⟩ := List.mem_map.mp hn
  obtain ⟨r, hr, hrc⟩ := List.mem_filterMap.mp hc
  exact List.mem_map_of_mem (List.mem_filterMap.mpr ⟨r, h r hr, hrc⟩)

/-- What the call of a column asks for is plain by itself, and it declares the
column. -/
theorem plain_columnCall {c : Column} {fk? : Option ForeignKey} (hc : isName c.name = true)
    (hfk : ∀ fk ∈ fk?, isName fk.target = true) (htype : c.type ≠ .id) :
    c.name ∈ declaredNames (columnCall c fk?).requests
      ∧ ∀ r ∈ (columnCall c fk?).requests,
        r.Plain (declaredNames (columnCall c fk?).requests) := by
  have htarget : isName (targetOf c fk?) = true := by
    cases fk? with
    | none => exact Naming.isName_defaultTarget hc
    | some fk => exact hfk fk rfl
  have hdeclared : c.name ∈ declaredNames (columnCall c fk?).requests := by
    rw [requests_columnCall hc hfk htype, declaredNames, List.filterMap_append, List.map_append]
    exact List.mem_append_right _ List.mem_cons_self
  refine ⟨hdeclared, fun r hr => ?_⟩
  rw [requests_columnCall hc hfk htype] at hr
  rcases List.mem_append.mp hr with hr | hr
  · split at hr
    · rw [List.mem_singleton.mp hr]
      exact ⟨htarget, hdeclared⟩
    · cases hr
  · rw [List.mem_singleton.mp hr]
    exact ⟨hc, htype⟩

/-- What the call of a pair asks for is plain: it declares two columns with names, and no
key. -/
theorem plain_morphCall {c : Column} {method stem : String}
    (hmethod : morphMethod? c.type c.nullable = some method) (hstem : IsArgument (some stem))
    (declared : List String) :
    ∀ r ∈ (Call.mk method (some stem) []).requests, r.Plain declared := by
  -- an empty stem is written, but what is written is not read
  by_cases hempty : stem = ""
  · rw [hempty, requests_morphCall_empty hmethod]
    exact fun r hr => absurd hr List.not_mem_nil
  · have hword : ∀ d ∈ stem.toList, isWord d = true := hstem stem rfl
    have hname : isName stem = true := by
      rw [isName_iff]
      exact ⟨fun hnil => hempty (by simpa using hnil), hword⟩
    have hend : ∀ tail, (∀ d ∈ tail.toList, isWord d = true) → isName (stem ++ tail) = true := by
      intro tail htail
      rw [isName_iff, String.toList_append]
      exact ⟨List.append_ne_nil_of_left_ne_nil ((isName_iff stem).mp hname).1 _,
        fun d hd => (List.mem_append.mp hd).elim (hword d) (htail d)⟩
    have htype : c.type ≠ .id := by
      rcases eq_of_morphMethod? hmethod with ⟨-, h, -⟩ | ⟨-, h, -⟩ | ⟨-, h, -⟩ | ⟨-, h, -⟩
      all_goals simp [h]
    rw [requests_morphCall hmethod hname]
    intro r hr
    obtain ⟨d, hd, rfl⟩ := List.mem_map.mp hr
    simp only [morphColumns, List.mem_cons, List.not_mem_nil, or_false] at hd
    rcases hd with rfl | rfl
    · exact ⟨hend _ (List.all_eq_true.mp (by decide)), htype⟩
    · exact ⟨hend _ (List.all_eq_true.mp (by decide)), ColumnType.noConfusion⟩

section Table

variable {t : Table} (h : Writable t)

include h

/-- The key that is written with a column has a name for its target. -/
theorem isName_foreignKeyFor? (c : Column) :
    ∀ fk ∈ foreignKeyFor? t.foreignKeys c, isName fk.target = true :=
  fun _ hfk => h.named.targets _ (mem_of_findLast?_eq_some hfk).1

/-- What the call of a column among others asks for is plain by itself, and it
declares the column unless that is part of a reference. -/
theorem plain_bodyCall {c : Column} (hc : isName c.name = true) (htype : c.type ≠ .id) :
    let call := bodyCall t.foreignKeys (morphs t.columns t.foreignKeys) c
    (((morphs t.columns t.foreignKeys).any fun m => m.1 == c.name) = false →
        c.name ∈ declaredNames call.requests)
      ∧ ∀ r ∈ call.requests, r.Plain (declaredNames call.requests) := by
  intro call
  show (_ → c.name ∈ declaredNames (bodyCall _ _ c).requests) ∧ ∀ r ∈ (bodyCall _ _ c).requests,
    r.Plain (declaredNames (bodyCall _ _ c).requests)
  cases hm : findLast? (fun m => m.1 == c.name) (morphs t.columns t.foreignKeys) with
  | none =>
      have hcall : bodyCall t.foreignKeys (morphs t.columns t.foreignKeys) c
          = columnCall c (foreignKeyFor? t.foreignKeys c) := by
        rw [bodyCall, hm]
      have hplain := plain_columnCall hc (isName_foreignKeyFor? h c) htype
      rw [hcall]
      exact ⟨fun _ => hplain.1, hplain.2⟩
  | some m =>
      -- the call of a reference declares its two columns under names of its own
      obtain ⟨n, stem, method⟩ := m
      obtain ⟨hmem, hname⟩ := mem_of_findLast?_eq_some hm
      obtain ⟨d, hd, -, hstem, hmethod⟩ := of_mem_morphs hmem
      have hcall : bodyCall t.foreignKeys (morphs t.columns t.foreignKeys) c
          = ⟨method, some stem, []⟩ := by
        rw [bodyCall, hm]
      have hargument : IsArgument (some stem) := by
        have hn : n = c.name := beq_iff_eq.mp hname
        rw [hn] at hstem
        exact isArgument_stem (isArgument_of_isName hc) hstem
      rw [hcall]
      refine ⟨fun hnone => ?_, plain_morphCall hmethod hargument _⟩
      have hany : ((morphs t.columns t.foreignKeys).any fun m => m.1 == c.name) = true :=
        List.any_eq_true.mpr ⟨_, hmem, hname⟩
      rw [hany] at hnone
      cases hnone

/-- What the call of the identifier asks for is plain, as the identifier has a name. -/
theorem plain_identifierCalls {call : Call} (hcall : call ∈ identifierCalls t.columns)
    (declared : List String) :
    ∀ r ∈ call.requests, r.Plain declared := by
  have hidentify : ∀ name, isName name = true → ∀ r ∈ (identifierCall name).requests,
      r.Plain declared := by
    intro name hname r hr
    rw [requests_identifierCall hname] at hr
    rw [List.mem_singleton.mp hr]
    exact hname
  rw [identifierCalls] at hcall
  split at hcall
  · rename_i c hc
    have htype : c.type = .id := by
      have hfound := List.find?_some hc
      simpa using hfound
    rw [List.mem_singleton.mp hcall, columnCall, if_pos htype]
    exact hidentify c.name (h.named.columns c (List.mem_of_find?_eq_some hc))
  · split at hcall
    · cases hcall
    · rw [List.mem_singleton.mp hcall]
      exact hidentify _ (by decide)

/-- A key that is stated apart is on a column that has a call of its own, and plain if
that call declares the column. -/
theorem plain_constraintCall? {c : Column} (hc : isName c.name = true) {call : Call}
    (hcall : constraintCall? t.foreignKeys (morphs t.columns t.foreignKeys) c = some call)
    {declared : List String}
    (hdeclared : ((morphs t.columns t.foreignKeys).any fun m => m.1 == c.name) = false →
      c.name ∈ declared) :
    ∀ r ∈ call.requests, r.Plain declared := by
  intro r hr
  rw [constraintCall?] at hcall
  split at hcall
  · cases hcall
  · rename_i hnone
    split at hcall
    · rename_i fk hfk
      split at hcall
      · cases hcall
      · obtain rfl := Option.some.inj hcall
        have htarget := isName_foreignKeyFor? h c fk hfk
        rw [requests_constraintCall hc htarget] at hr
        rw [List.mem_singleton.mp hr]
        exact ⟨htarget, hdeclared (Bool.eq_false_iff.mpr hnone)⟩
    · cases hcall

/-- All that a table's calls ask for is plain, among the names that the same calls
declare. -/
theorem plain_of_mem_requests (hid : (t.columns.filter fun c => c.type == .id).length ≤ 1)
    {r : Request} (hr : r ∈ (tableCalls t.columns t.foreignKeys).flatMap Call.requests) :
    r.Plain (declaredNames ((tableCalls t.columns t.foreignKeys).flatMap Call.requests)) := by
  have hbody : ∀ c ∈ bodyColumns t.columns (morphs t.columns t.foreignKeys),
      isName c.name = true ∧ c.type ≠ .id := by
    intro c hc
    rw [bodyColumns, eraseP_eq_filter hid] at hc
    have hc' := List.mem_filter.mp (List.mem_filter.mp hc).1
    exact ⟨h.named.columns c hc'.1, by simpa using hc'.2⟩
  -- what one call declares is declared by all of them together
  have hsub : ∀ c ∈ bodyColumns t.columns (morphs t.columns t.foreignKeys),
      ∀ n ∈ declaredNames (bodyCall t.foreignKeys (morphs t.columns t.foreignKeys) c).requests,
        n ∈ declaredNames ((tableCalls t.columns t.foreignKeys).flatMap Call.requests) := by
    intro c hc
    refine declaredNames_subset fun r hr => List.mem_flatMap.mpr ⟨_, ?_, hr⟩
    simp only [tableCalls, List.mem_append, List.mem_map]
    exact .inl (.inl (.inr ⟨c, hc, rfl⟩))
  obtain ⟨call, hcall, hr⟩ := List.mem_flatMap.mp hr
  simp only [tableCalls, List.mem_append, List.mem_map, List.mem_filterMap,
    List.mem_singleton] at hcall
  rcases hcall with ((hcall | ⟨c, hc, rfl⟩) | ⟨c, hc, hcall⟩) | rfl
  · exact plain_identifierCalls h hcall _ r hr
  · exact ((plain_bodyCall h (hbody c hc).1 (hbody c hc).2).2 r hr).mono (hsub c hc)
  · exact plain_constraintCall? h (hbody c hc).1 hcall
      (fun hnone => hsub c hc _ ((plain_bodyCall h (hbody c hc).1 (hbody c hc).2).1 hnone)) r hr
  · -- the audit columns
    rw [requests_auditCall] at hr
    cases hr

/-! ### The extracted table -/

variable (hid : (t.columns.filter fun c => c.type == .id).length ≤ 1)

include hid

/-- The identifier of the draft that a migration's calls make has a name. -/
theorem isName_identifier_tableDraft : ∀ n ∈ (tableDraft t).identifier, isName n = true := by
  intro n hn
  rw [tableDraft_eq_foldl, Draft.foldl_add_eq] at hn
  obtain ⟨r, hr, hrn⟩ := List.mem_filterMap.mp (List.mem_of_getLast? hn)
  have hplain := plain_of_mem_requests h hid hr
  cases r with
  | identify name =>
      obtain rfl := Option.some.inj hrn
      exact hplain
  | _ => cases hrn

/-- The columns of the draft that a migration's calls make have names and do not count up by
themselves. -/
theorem plain_of_mem_columns_tableDraft :
    ∀ c ∈ (tableDraft t).columns, isName c.name = true ∧ c.type ≠ .id := by
  intro c hc
  rw [tableDraft_eq_foldl, Draft.foldl_add_eq] at hc
  obtain ⟨r, hr, hrc⟩ :=
    List.mem_filterMap.mp ((mem_foldl_putColumn hc).resolve_left List.not_mem_nil)
  have hplain := plain_of_mem_requests h hid hr
  cases r with
  | declare column =>
      obtain rfl := Option.some.inj hrc
      exact hplain
  | _ => cases hrc

/-- A key of the draft, carried or stated apart, leads to a name and is on a
declared column. -/
theorem plain_of_mem_keys_tableDraft {fk : ForeignKey}
    (hfk : fk ∈ (tableDraft t).foreignKeys ∨ fk ∈ (tableDraft t).constraints) :
    isName fk.target = true ∧ fk.column ∈ (tableDraft t).columns.map Column.name := by
  have hnames : ∀ n, n ∈ (tableDraft t).columns.map Column.name
      ↔ n ∈ declaredNames ((tableCalls t.columns t.foreignKeys).flatMap Call.requests) := by
    intro n
    rw [tableDraft_eq_foldl, Draft.foldl_add_eq, mem_names_foldl_putColumn]
    exact or_iff_right List.not_mem_nil
  rw [hnames]
  -- a key of either sort comes from a request, and all requests of a table are plain
  rcases hfk with hfk | hfk
  · rw [tableDraft_eq_foldl, Draft.foldl_add_eq] at hfk
    obtain ⟨r, hr, hrfk⟩ := List.mem_filterMap.mp
      ((mem_foldl_putForeignKey hfk).resolve_left List.not_mem_nil)
    have hplain := plain_of_mem_requests h hid hr
    cases r with
    | refer key =>
        obtain rfl := Option.some.inj hrfk
        exact hplain
    | _ => cases hrfk
  · rw [tableDraft_eq_foldl, Draft.foldl_add_eq] at hfk
    obtain ⟨r, hr, hrfk⟩ := List.mem_filterMap.mp hfk
    have hplain := plain_of_mem_requests h hid hr
    cases r with
    | constrain key =>
        obtain rfl := Option.some.inj hrfk
        exact hplain
    | _ => cases hrfk

omit h hid in
/-- Stated keys flag columns, and change nothing else about them, so what does not depend on
the flag can be read off the columns before. -/
theorem map_finalColumns {β : Type} {g : Column → β} (hg : ∀ c : Column, g c.flagged = g c)
    (d : Draft) :
    d.finalColumns.map g = d.orderedColumns.map g :=
  map_foldl_flag hg d.constraints d.orderedColumns

/-- The columns of the extracted table have names, so they can be written as arguments
again. -/
theorem isName_of_mem_extracted : ∀ c ∈ (extracted t).columns, isName c.name = true := by
  intro c hc
  have hname : c.name ∈ (tableDraft t).orderedColumns.map Column.name := by
    rw [← map_finalColumns (fun _ => rfl)]
    exact List.mem_map_of_mem hc
  obtain ⟨d, hd, hdc⟩ := List.mem_map.mp hname
  rw [← hdc]
  rw [Draft.orderedColumns] at hd
  split at hd
  · exact (plain_of_mem_columns_tableDraft h hid d hd).1
  · rename_i n hn
    rcases List.mem_cons.mp hd with rfl | hd
    · exact isName_identifier_tableDraft h hid n hn
    · exact (plain_of_mem_columns_tableDraft h hid d (List.mem_filter.mp hd).1).1

/-- A key of the extracted table is one of the draft: its target has a name, and it is on a
declared column. -/
theorem mem_keys_of_mem_extracted {fk : ForeignKey} (hfk : fk ∈ (extracted t).foreignKeys) :
    isName fk.target = true ∧ fk.column ∈ (tableDraft t).columns.map Column.name :=
  plain_of_mem_keys_tableDraft h hid (mem_foldl_putForeignKey hfk)

/-- The extracted table can be written as a migration again, whatever table was written
first. -/
theorem writable_extracted : Writable (extracted t) where
  name := h.name
  named := ⟨isName_of_mem_extracted h hid, fun _ hfk => (mem_keys_of_mem_extracted h hid hfk).1⟩

/-- Every key of the extracted table is on a column of the table. -/
theorem exists_column_extracted {fk : ForeignKey} (hfk : fk ∈ (extracted t).foreignKeys) :
    ∃ c ∈ (extracted t).columns, c.name = fk.column := by
  obtain ⟨c, hc, hname⟩ := List.mem_map.mp (mem_keys_of_mem_extracted h hid hfk).2
  have hordered : fk.column ∈ (tableDraft t).orderedColumns.map Column.name := by
    rw [Draft.orderedColumns]
    split
    · exact List.mem_map.mpr ⟨c, hc, hname⟩
    · -- a declared column gives way to an identifier of its name
      rename_i n hn
      by_cases hcn : c.name = n
      · exact List.mem_map.mpr ⟨_, List.mem_cons_self, by rw [← hname, hcn]; rfl⟩
      · refine List.mem_map.mpr ⟨c, List.mem_cons_of_mem _ (List.mem_filter.mpr ⟨hc, ?_⟩), hname⟩
        simpa using hcn
  rw [← map_finalColumns (fun _ => rfl)] at hordered
  exact List.mem_map.mp hordered

/-- The extracted table has one column at most that counts up by itself, namely its
identifier. -/
theorem oneIdentifier_extracted :
    ((extracted t).columns.filter fun c => c.type == .id).length ≤ 1 := by
  have htypes : ∀ columns : List Column, (columns.filter fun c => c.type == .id).length
      = ((columns.map Column.type).filter fun type => type == .id).length := by
    intro columns
    rw [List.filter_map, List.length_map]
    rfl
  have hnone : ∀ columns : List Column, (∀ c ∈ columns, c.type ≠ .id) →
      columns.filter (fun c => c.type == .id) = [] := by
    intro columns hcolumns
    refine List.filter_eq_nil_iff.mpr fun c hc => ?_
    simpa using hcolumns c hc
  have hplain := fun c hc => (plain_of_mem_columns_tableDraft h hid c hc).2
  show ((tableDraft t).finalColumns.filter fun c => c.type == .id).length ≤ 1
  rw [htypes, map_finalColumns (fun _ => rfl), ← htypes, Draft.orderedColumns]
  split
  · rw [hnone _ hplain]
    exact Nat.zero_le 1
  · rw [List.filter_cons_of_pos rfl, List.length_cons,
      hnone _ fun c hc => hplain c (List.mem_filter.mp hc).1]
    exact Nat.le_refl 1

end Table

end SchemaAtlas.Migration
