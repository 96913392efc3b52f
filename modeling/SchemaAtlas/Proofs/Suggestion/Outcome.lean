import SchemaAtlas.Proofs.Session.ColumnEdit
import SchemaAtlas.Proofs.Suggestion.Read

/-!
# `SchemaAtlas.Proofs.Suggestion.Outcome`: a suggestion, read again from its files

A suggestion becomes files, and the files say which tables there are. With names
where names are expected, no table named twice and one identifier at most in each,
these are the tables of the suggestion, in its order (`entries_ofSources_files`).

What becomes of a table is `outcome`. Its identifier comes first, and the audit
columns are left out, since every migration states them anyway. The types of the
columns say all about references (`TypedKeys`): none of them is half of a reference
to any table's rows, and no key has to be stated apart. So the settled table is the
outcome (`TypedKeys.settled_eq`). The order is that of the file names, which ascend
with the moments in them.
-/

set_option autoImplicit false

namespace SchemaAtlas

open Migration Text

namespace Suggestion

/-! ### What becomes of a suggested table -/

/-- The columns behind the identifier: all but identifiers and audit columns. -/
def others (t : Table) : List Column :=
  t.columns.filter fun c => c.type != .id && !Naming.auditColumns.contains c.name

/-- A column as it comes back, with the name, type and nullability that it had. It is a
reference if its type says so, and references are not part of a primary key. -/
def cameBack (c : Column) : Column :=
  { c with
    isPrimary :=
      (c.isPrimary && c.type != .foreignId) || (c.type == .uuid && c.name == Naming.identifier)
    isForeign := c.type == .foreignId }

/-- The table that comes of a suggested one. -/
def outcome (t : Table) : Table where
  name := t.name
  columns := t.settledIdentifier ++ (others t).map cameBack
  foreignKeys := ((others t).filter fun c => c.type == .foreignId).map fun c =>
    ⟨c.name, Naming.defaultTarget c.name⟩

/-! ### Types say all about references -/

/-- The key that a column implies is on it, and leads where its name does. -/
theorem of_foreignKeyOf? {c : Column} {fk : ForeignKey} (h : foreignKeyOf? c = some fk) :
    c.isForeign = true ∧ fk = ⟨c.name, Naming.defaultTarget c.name⟩ := by
  rw [foreignKeyOf?] at h
  split at h
  · rename_i hforeign
    obtain ⟨base, hbase, rfl⟩ := Option.map_eq_some_iff.mp h
    rw [Naming.defaultTarget, Naming.referenceBase, hbase]
    exact ⟨hforeign, rfl⟩
  · cases h

namespace TypedKeys

variable {t : Table} (h : TypedKeys t)

include h

/-- The foreign key on a column of a suggested table is the one that the column implies, if
it implies any. -/
theorem keyOn?_eq {c : Column} (hc : c ∈ t.columns) : t.keyOn? c = foreignKeyOf? c := by
  have hcolumn : ∀ d fk, foreignKeyOf? d = some fk → fk.column = d.name := by
    intro d fk hfk
    rw [(of_foreignKeyOf? hfk).2]
  rw [Table.keyOn?, foreignKeyFor?, h.keys]
  cases hfk : foreignKeyOf? c with
  | some fk =>
      have hnodup : ((t.columns.filterMap foreignKeyOf?).map ForeignKey.column).Nodup :=
        h.distinct.sublist (sublist_map_filterMap fun d _ => hcolumn d)
      rw [← hcolumn c fk hfk]
      exact findLast?_of_nodup hnodup (List.mem_filterMap.mpr ⟨c, hc, hfk⟩)
  | none =>
      cases hfound : findLast? (fun fk => fk.column == c.name)
        (t.columns.filterMap foreignKeyOf?) with
      | none => rfl
      | some fk =>
          -- the key would be implied by a column of that name, and there is only this one
          obtain ⟨hmem, hname⟩ := mem_of_findLast?_eq_some hfound
          obtain ⟨d, hd, hdfk⟩ := List.mem_filterMap.mp hmem
          have hsame : d.name = c.name := by rw [← hcolumn d fk hdfk, beq_iff_eq.mp hname]
          rw [List.inj_on_of_nodup_map h.distinct hd hc hsame, hfk] at hdfk
          cases hdfk

/-- No column is half of a reference to any table's rows: the identifier of such a
reference is flagged, and has another type than references have here. -/
theorem morphStem?_eq_none {c : Column} (hc : c ∈ t.columns) : t.morphStem? c = none := by
  cases hstem : t.morphStem? c with
  | none => rfl
  | some stem =>
      obtain ⟨-, htype, -, -⟩ := of_morphStem? hstem
      have hplain : c.isForeign = false := by
        rw [h.flags c hc]
        rcases htype with htype | htype
        · rw [htype]
          rfl
        · rw [htype]
          rfl
      simp [Table.morphStem?, hplain] at hstem

/-- The columns with statements of their own are all but the identifier, since none of them
is half of a reference to any table's rows. -/
theorem ownColumns_eq : t.ownColumns = others t := by
  refine List.filter_congr fun c _ => ?_
  have hmorph : t.isMorphType c = false := by
    rw [Table.isMorphType, List.any_eq_false]
    intro d hd
    simp [h.morphStem?_eq_none hd]
  rw [hmorph, Bool.not_false, Bool.and_true]

/-- The declaration of a column carries a key if its type is that of references. -/
theorem carriesKey_eq {c : Column} (hc : c ∈ t.columns) (fk? : Option ForeignKey) :
    carriesKey c fk? = (c.type == .foreignId) := by
  rw [carriesKey, h.flags c hc]
  cases c.type <;> rfl

/-- What is settled about a column is what comes back of it, one column for one. -/
theorem settledColumn_eq {c : Column} (hc : c ∈ t.columns) :
    t.settledColumn c = [cameBack c] := by
  -- only references have a key, so the second way to come back as one is never gone
  have hkey : (t.keyOn? c).isSome = true → c.type = .foreignId := by
    intro hsome
    rw [h.keyOn?_eq hc] at hsome
    obtain ⟨fk, hfk⟩ := Option.isSome_iff_exists.mp hsome
    have hforeign := (of_foreignKeyOf? hfk).1
    rw [h.flags c hc] at hforeign
    exact beq_iff_eq.mp hforeign
  have hforeign : (c.type == .foreignId || (c.type ≠ .uuid && (t.keyOn? c).isSome))
      = (c.type == .foreignId) := by
    rw [Bool.eq_iff_iff]
    simp only [Bool.or_eq_true, Bool.and_eq_true, beq_iff_eq]
    exact ⟨fun hor => hor.elim id fun hand => hkey hand.2, .inl⟩
  rw [Table.settledColumn, h.morphStem?_eq_none hc]
  simp only [h.carriesKey_eq hc, hforeign]
  rfl

/-- A column of the type of references carries its foreign key, and the key leads where the
column's name says. -/
theorem carriedKey?_eq {c : Column} (hc : c ∈ t.columns) : t.carriedKey? c
    = if c.type == .foreignId then some ⟨c.name, Naming.defaultTarget c.name⟩ else none := by
  have htarget : targetOf c (t.keyOn? c) = Naming.defaultTarget c.name := by
    rw [h.keyOn?_eq hc, targetOf]
    cases hfk : foreignKeyOf? c with
    | none => rfl
    | some fk =>
        rw [(of_foreignKeyOf? hfk).2]
        rfl
  rw [Table.carriedKey?, h.carriesKey_eq hc, htarget]

/-- No foreign key has to be stated apart, since columns of other types imply none. -/
theorem statedKey?_eq_none {c : Column} (hc : c ∈ t.columns) : t.statedKey? c = none := by
  rw [Table.statedKey?, h.keyOn?_eq hc]
  split
  · rfl
  · rename_i htype
    rw [foreignKeyOf?, if_neg]
    rw [h.flags c hc, beq_iff_eq]
    exact fun hid => htype (.inl hid)

/-- What is settled about a suggested table is its outcome: an identifier first, and then
the other columns as they came back. -/
theorem settled_eq : t.settled = outcome t := by
  have hmem : ∀ c ∈ others t, c ∈ t.columns := fun c hc => (List.mem_filter.mp hc).1
  have hcolumns : (others t).flatMap t.settledColumn = (others t).map cameBack := by
    rw [List.flatMap_congr fun c hc => h.settledColumn_eq (hmem c hc), List.map_eq_flatMap]
  have hcarried : (others t).filterMap t.carriedKey?
      = ((others t).filter fun c => c.type == .foreignId).map fun c =>
          ⟨c.name, Naming.defaultTarget c.name⟩ := by
    rw [List.filterMap_congr fun c hc => h.carriedKey?_eq (hmem c hc), ← List.filterMap_eq_map,
      List.filterMap_filter]
    rfl
  have hstated : (others t).filterMap t.statedKey? = [] :=
    List.filterMap_eq_nil_iff.mpr fun c hc => h.statedKey?_eq_none (hmem c hc)
  rw [Table.settled, h.ownColumns_eq, hcolumns, hcarried, hstated, List.append_nil]
  rfl

/-- The migration of a suggested table creates its outcome, if its parts have names and one
identifier at most is among them. -/
theorem extracted_eq (hn : Named t.columns t.foreignKeys)
    (hid : (t.columns.filter fun c => c.type == .id).length ≤ 1) : extracted t = outcome t := by
  have hcolumns : (tableDraft t).finalColumns = t.settled.columns := by
    refine finalColumns_tableDraft_eq_settled hn h.distinct hid fun c hc => ?_
    rw [h.morphStem?_eq_none (mem_columns_of_mem_ownColumns hc)]
    exact nofun
  rw [extracted, hcolumns, finalForeignKeys_tableDraft_eq_settled hn h.distinct hid,
    ← h.settled_eq]
  rfl

end TypedKeys

/-! ### The files of a suggestion, read again -/

/-- The files of a suggestion say its tables, in its order, each with the columns and the
foreign keys of its outcome and with its own migration. -/
theorem entries_ofSources_files {members : Payload} {s : Suggestion}
    (h : ofPayload members = .ok s)
    (hdistinct : (s.tables.map Table.name).Nodup)
    (hnames : ∀ t ∈ s.tables, isName t.name = true)
    (hcolumns : ∀ t ∈ s.tables, ∀ c ∈ t.columns, isName c.name = true)
    (hidentifiers : ∀ t ∈ s.tables, (t.columns.filter fun c => c.type == .id).length ≤ 1)
    (start : Moment) (hproper : start.Proper) (hyear : 1000 ≤ start.year)
    (hlast : (start.later? (s.tables.length - 1)).isSome = true) :
    ∃ files, s.files start = .ok files
      ∧ (Analysis.ofSources files).snapshot.tables.entries = s.tables.map fun t =>
        (t.name, outcome t) := by
  obtain ⟨names, hbatch⟩ : ∃ names, fileNames? start (s.tables.map Table.name) = some names := by
    rw [← Option.isSome_iff_exists, isSome_fileNames?_iff, List.length_map]
    exact hlast
  have hfiles : s.files start = .ok ((names.zip s.tables).map (fun m => migrationFile m.1 m.2)
      ++ s.tables.map (modelFile s.relations)) := by
    rw [files, hbatch]
  have htyped : ∀ t ∈ s.tables, TypedKeys t := fun t ht => typedKeys_of_mem_tables h ht
  have hplain : s.Plain := by
    refine ⟨hdistinct, hnames, hcolumns, hidentifiers, fun t ht fk hfk => .inr ?_⟩
    rw [← (htyped t ht).keys]
    exact hfk
  -- the files are those of a generated session, whatever else such a session holds
  have hgenerated := (default : Session).generated_of_fileNames? hbatch hfiles hplain
  have hlength : names.length = s.tables.length := by
    rw [length_fileNames? hbatch, List.length_map]
  -- the names ascend, so the order of creation is the order of the suggestion
  have hsorted : Session.inOrder (names.zip s.tables) = names.zip s.tables := by
    have hascend : ((names.zip s.tables).map Prod.fst).Pairwise (· < ·) := by
      rw [List.map_fst_zip (Nat.le_of_eq hlength)]
      exact pairwise_fileNames? hproper hyear hbatch
    refine List.mergeSort_of_pairwise ((List.pairwise_map.mp hascend).imp fun hlt => ?_)
    exact decide_eq_true (String.not_lt.mp (String.lt_asymm hlt))
  refine ⟨_, hfiles, ?_⟩
  calc (Analysis.ofSources _).snapshot.tables.entries
      = (names.zip s.tables).map fun m => (m.2.name, extracted m.2) := by
        have hentries := hgenerated.entries.1
        rw [hsorted] at hentries
        exact hentries
    _ = ((names.zip s.tables).map Prod.snd).map fun t => (t.name, extracted t) := by
        rw [List.map_map]
        rfl
    _ = s.tables.map fun t => (t.name, outcome t) := by
        rw [List.map_snd_zip (Nat.le_of_eq hlength.symm)]
        refine List.map_congr_left fun t ht => ?_
        have hnamed : Named t.columns t.foreignKeys := ⟨hcolumns t ht, hplain.isName_target ht⟩
        rw [(htyped t ht).extracted_eq hnamed (hidentifiers t ht)]

/-- A reply that suggests posts by authors, with an identifier of another name, a column
twice and one that every migration states, and authors without an identifier. -/
def blog : Payload :=
  let column (name type : String) (nullable : Bool) : Json :=
    .object [("name", .string name), ("type", .string type), ("nullable", .bool nullable)]
  [("tables", .array
    [.object [("name", .string "blog_posts"),
        ("columns", .array [column "title" "string" true, column "uid" "id" false,
          column "author_id" "foreignId" false, column "created_at" "timestamp" true,
          column "title" "text" false])],
      .object [("name", .string "authors"),
        ("columns", .array [column "email" "string" false])]])]

/-- What the reply suggests. -/
def suggestedBlog : Suggestion where
  tables :=
    [{ name := "blog_posts"
       columns := [{ name := "title", type := .string, nullable := true },
         { name := "uid", type := .id, isPrimary := true },
         { name := "author_id", type := .foreignId, isForeign := true },
         { name := "created_at", type := .timestamp, nullable := true }]
       foreignKeys := [⟨"author_id", "authors"⟩] },
      { name := "authors", columns := [{ name := "email", type := .string }] }]

/-- What the files of the blog say. -/
def rereadBlog : List (String × Table) :=
  [("blog_posts",
      { name := "blog_posts"
        columns := [{ name := "uid", type := .id, isPrimary := true },
          { name := "title", type := .string, nullable := true },
          { name := "author_id", type := .foreignId, isForeign := true }]
        foreignKeys := [⟨"author_id", "authors"⟩] }),
    ("authors",
      { name := "authors"
        columns := [{ name := "id", type := .id, isPrimary := true },
          { name := "email", type := .string }] })]

/-- The first migration of the blog is of the last second of a leap day. -/
theorem entries_ofSources_files_blog :
    ofPayload blog = .ok suggestedBlog
      ∧ ∃ files, suggestedBlog.files ⟨2024, 2, 29, 23, 59, 59⟩ = .ok files
        ∧ (Analysis.ofSources files).snapshot.tables.entries = rereadBlog := by
  have hread : ofPayload blog = .ok suggestedBlog := by decide +kernel
  have hdistinct : (suggestedBlog.tables.map Table.name).Nodup := by decide +kernel
  have hnames : ∀ t ∈ suggestedBlog.tables, isName t.name = true := by decide +kernel
  have hcolumns : ∀ t ∈ suggestedBlog.tables, ∀ c ∈ t.columns, isName c.name = true := by
    decide +kernel
  have hidentifiers : ∀ t ∈ suggestedBlog.tables,
      (t.columns.filter fun c => c.type == .id).length ≤ 1 := by decide +kernel
  have houtcome : (suggestedBlog.tables.map fun t => (t.name, outcome t)) = rereadBlog := by
    decide +kernel
  obtain ⟨files, hfiles, hentries⟩ :=
    entries_ofSources_files hread hdistinct hnames hcolumns hidentifiers
    ⟨2024, 2, 29, 23, 59, 59⟩ (by decide) (by decide) (by decide)
  exact ⟨hread, files, hfiles, hentries.trans houtcome⟩

end Suggestion

end SchemaAtlas
