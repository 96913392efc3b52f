import SchemaAtlas.Proofs.Migration.Names
import SchemaAtlas.Proofs.Session.Generated

/-!
# `SchemaAtlas.Proofs.Session.ColumnEdit`: editing the files of a suggestion

A session on the files of a suggestion stays generated under any run of edits.
So each edit has the effect that it has on the table alone, however long the run
before it: the table becomes the one that the migration of the edited table
creates, and nothing else changes (`edited_editedAll_replaceFiles`).
-/

set_option autoImplicit false

namespace SchemaAtlas

open Migration Text

/-! ### Edits of columns -/

/-- A change of the columns of a table. -/
inductive ColumnEdit
  | add (name : String) (type : ColumnType) (nullable : Bool)
  | drop (name : String)
  | rename (old new : String)
  deriving DecidableEq, Repr

namespace ColumnEdit

/-- The table with the change made; none if it cannot be made. -/
def make? (t : Table) : ColumnEdit → Option Table
  | add name type nullable =>
    if t.hasColumn name then none
    else some { t with columns := t.columns ++ [Session.newColumn name type nullable] }
  | drop name =>
    if t.hasColumn name then
      some { t with
        columns := t.columns.filter fun c => c.name != name
        foreignKeys := t.foreignKeys.filter fun fk => fk.column != name }
    else none
  | rename old new =>
    if t.canRename old new then
      some { t with
        columns := Session.renamedColumns old new t.columns
        foreignKeys := Table.moveForeignKeys old new t.foreignKeys }
    else none

/-- The session with the change made in its files; none if nothing changes. -/
def run? (s : Session) (table : String) : ColumnEdit → Option Session
  | add name type nullable => s.addColumn? table name type nullable
  | drop name => s.dropColumn? table name
  | rename old new => s.renameColumn? table old new

/-- The table that an edit writes; none if it cannot be made. Foreign keys without a
column are left out, unless a column is only renamed. -/
def written? (t : Table) : ColumnEdit → Option Table
  | .add name type nullable =>
    if t.hasColumn name then none
    else
      let columns := t.columns ++ [Session.newColumn name type nullable]
      some { t with
        columns := columns
        foreignKeys := t.foreignKeys.filter fun fk => columns.any fun c => c.name == fk.column }
  | .drop name =>
    if t.hasColumn name then
      let columns := t.columns.filter fun c => c.name != name
      some { t with
        columns := columns
        foreignKeys := t.foreignKeys.filter fun fk => columns.any fun c => c.name == fk.column }
    else none
  | .rename old new => make? t (.rename old new)

/-- Holds of changes that give a name and add no identifier. -/
def Plain : ColumnEdit → Prop
  | add name type _ => isName name = true ∧ type ≠ .id
  | drop _ => True
  | rename _ new => isName new = true

instance : (e : ColumnEdit) → Decidable e.Plain
  | add name type _ => inferInstanceAs (Decidable (isName name = true ∧ type ≠ .id))
  | drop _ => .isTrue trivial
  | rename _ new => inferInstanceAs (Decidable (isName new = true))

section Make

variable {t t' : Table} {name old new : String} {type : ColumnType} {nullable : Bool}

/-- A column is added under a new name only, and goes behind all others. -/
theorem of_make?_add (h : (add name type nullable).make? t = some t') :
    name ∉ t.columns.map Column.name
      ∧ t' = { t with columns := t.columns ++ [Session.newColumn name type nullable] } := by
  rw [make?] at h
  split at h
  · cases h
  · rename_i hnew
    rw [Table.hasColumn_iff] at hnew
    exact ⟨hnew, (Option.some.inj h).symm⟩

/-- A column is dropped only if it is there, and the foreign keys on it go with it. -/
theorem of_make?_drop (h : (drop name).make? t = some t') :
    name ∈ t.columns.map Column.name
      ∧ t' = { t with
        columns := t.columns.filter fun c => c.name != name
        foreignKeys := t.foreignKeys.filter fun fk => fk.column != name } := by
  rw [make?] at h
  split at h
  · rename_i hold
    rw [Table.hasColumn_iff] at hold
    exact ⟨hold, (Option.some.inj h).symm⟩
  · cases h

/-- A column is renamed only if it is there and its new name is free, and the foreign keys
on it go along. -/
theorem of_make?_rename (h : (rename old new).make? t = some t') :
    (old ∈ t.columns.map Column.name ∧ new ∉ t.columns.map Column.name)
      ∧ t' = { t with
        columns := Session.renamedColumns old new t.columns
        foreignKeys := Table.moveForeignKeys old new t.foreignKeys } := by
  rw [make?] at h
  split at h
  · rename_i hcan
    exact ⟨(t.canRename_iff old new).mp hcan, (Option.some.inj h).symm⟩
  · cases h

end Make

/-- No edit of a column changes the name of the table. -/
theorem name_make? {e : ColumnEdit} {t t' : Table} (h : e.make? t = some t') :
    t'.name = t.name := by
  cases e with
  | add name type nullable => rw [(of_make?_add h).2]
  | drop name => rw [(of_make?_drop h).2]
  | rename old new => rw [(of_make?_rename h).2]

/-- Renaming columns does not change their types, so a table has as many identifiers as
before. -/
theorem type_ite_rename (old new : String) (c : Column) :
    (if c.name = old then { c with name := new } else c).type = c.type := by
  split
  · rfl
  · rfl

/-- A plain change leaves a table that can be edited again: its names are names, and no
further column is an identifier. -/
theorem editable_make? {e : ColumnEdit} (he : e.Plain) {t t' : Table} (ht : Editable t)
    (h : e.make? t = some t') : Editable t' := by
  obtain ⟨⟨hname, hcolumns, htargets⟩, hid⟩ := ht
  cases e with
  | add name type nullable =>
      obtain ⟨-, rfl⟩ := of_make?_add h
      -- a plain change adds no identifier, so there is still one at most
      have hnew : ((Session.newColumn name type nullable).type == .id) = false := by
        simpa [Session.newColumn] using he.2
      refine ⟨⟨hname, fun c hc => ?_, htargets⟩, ?_⟩
      · rcases List.mem_append.mp hc with hc | hc
        · exact hcolumns c hc
        · rw [List.mem_singleton.mp hc]
          exact he.1
      · simp only [List.filter_append, List.filter_cons, hnew, List.filter_nil]
        simpa using hid
  | drop name =>
      obtain ⟨-, rfl⟩ := of_make?_drop h
      refine ⟨⟨hname, fun c hc => hcolumns c (List.mem_filter.mp hc).1,
        fun fk hfk => htargets fk (List.mem_filter.mp hfk).1⟩, ?_⟩
      exact Nat.le_trans (List.filter_sublist.filter _).length_le hid
  | rename old new =>
      obtain ⟨-, rfl⟩ := of_make?_rename h
      refine ⟨⟨hname, fun c hc => ?_, fun fk hfk => ?_⟩, ?_⟩
      · obtain ⟨d, hd, rfl⟩ := List.mem_map.mp hc
        split
        · exact he
        · exact hcolumns d hd
      · obtain ⟨key, hkey, rfl⟩ := List.mem_map.mp hfk
        split
        · exact htargets key hkey
        · exact htargets key hkey
      · -- types stay as they are, and with them the number of identifiers
        rw [Session.renamedColumns, List.filter_map, List.length_map]
        simpa only [Function.comp_def, type_ite_rename] using hid

/-- Where every foreign key is on a column, the change is written as it is made. -/
theorem written?_eq_make? {t : Table}
    (hkeys : ∀ fk ∈ t.foreignKeys, ∃ c ∈ t.columns, c.name = fk.column)
    (e : ColumnEdit) : e.written? t = e.make? t := by
  cases e with
  | add name type nullable =>
      -- the columns that were there are there still, and so are their keys
      have hkept : (t.foreignKeys.filter fun fk =>
          (t.columns ++ [Session.newColumn name type nullable]).any fun c => c.name == fk.column)
            = t.foreignKeys := by
        refine List.filter_eq_self.mpr fun fk hfk => ?_
        obtain ⟨c, hc, hname⟩ := hkeys fk hfk
        exact List.any_eq_true.mpr ⟨c, List.mem_append_left _ hc, beq_iff_eq.mpr hname⟩
      rw [written?, make?]
      simp only [hkept]
  | drop name =>
      have hkept : (t.foreignKeys.filter fun fk =>
          (t.columns.filter fun c => c.name != name).any fun c => c.name == fk.column)
          = t.foreignKeys.filter fun fk => fk.column != name := by
        refine List.filter_congr fun fk hfk => ?_
        obtain ⟨c, hc, hname⟩ := hkeys fk hfk
        rw [Bool.eq_iff_iff, List.any_eq_true]
        constructor
        · rintro ⟨d, hd, hdc⟩
          rw [← eq_of_beq hdc]
          exact (List.mem_filter.mp hd).2
        · intro hne
          rw [← hname] at hne
          exact ⟨c, List.mem_filter.mpr ⟨hc, hne⟩, beq_iff_eq.mpr hname⟩
      rw [written?, make?]
      simp only [hkept]
  | rename old new => rfl

end ColumnEdit

namespace Session

/-- A plain change leaves a generated session, be it done or refused. -/
def edited (s : Session) (table : String) (e : ColumnEdit) : Session :=
  (e.run? s table).getD s

/-- A run of plain changes leaves a generated session, by induction over the changes. -/
def editedAll (s : Session) (edits : List (String × ColumnEdit)) : Session :=
  edits.foldl (fun s e => s.edited e.1 e.2) s

/-- An edit that takes place looks the table up, changes it, and writes the changed table
into its migration. -/
theorem run?_eq_bind (s : Session) (table : String) (e : ColumnEdit) :
    e.run? s table = (s.table? table).bind fun t => (e.written? t).bind fun u =>
      s.editTable? table u.columns u.foreignKeys := by
  -- all three edits look the table up first and do nothing without it
  cases htable : s.table? table with
  | none =>
      cases e with
      | add name type nullable => rw [ColumnEdit.run?, addColumn?, htable]; rfl
      | drop name => rw [ColumnEdit.run?, dropColumn?, htable]; rfl
      | rename old new => rw [ColumnEdit.run?, renameColumn?, htable]; rfl
  | some t =>
      cases e with
      | add name type nullable =>
          rw [ColumnEdit.run?, addColumn?, htable, Option.bind_some, ColumnEdit.written?]
          simp only [Option.bind_eq_bind, Option.bind_some]
          split
          · rfl
          · rw [editColumns?, keptForeignKeys, htable]
            rfl
      | drop name =>
          rw [ColumnEdit.run?, dropColumn?, htable, Option.bind_some, ColumnEdit.written?]
          simp only [Option.bind_eq_bind, Option.bind_some]
          split
          · rw [editColumns?, keptForeignKeys, htable]
            rfl
          · rfl
      | rename old new =>
          rw [ColumnEdit.run?, renameColumn?, htable, Option.bind_some, ColumnEdit.written?,
            ColumnEdit.make?]
          simp only [Option.bind_eq_bind, Option.bind_some]
          split
          · rfl
          · rfl

/-- If an edit takes place, there was such a table, and what is written is what the edit
makes of it. -/
theorem exists_written?_of_run? {s s' : Session} {table : String} {e : ColumnEdit}
    (h : e.run? s table = some s') :
    ∃ t u, s.table? table = some t ∧ e.written? t = some u
      ∧ s.editTable? table u.columns u.foreignKeys = some s' := by
  rw [run?_eq_bind] at h
  obtain ⟨t, ht, h⟩ := Option.bind_eq_some_iff.mp h
  obtain ⟨u, hu, h⟩ := Option.bind_eq_some_iff.mp h
  exact ⟨t, u, ht, hu, h⟩

/-! ### Edits of a generated session -/

namespace Generated

variable {s : Session} {batch : List (String × Table)} {models : List SourceFile}
  (h : Generated s batch models)

include h

/-- A change that cannot be made leaves the session as it is, and any other puts
the changed table in its place. -/
theorem edited_cases (table : String) (e : ColumnEdit) :
    ((s.table? table).bind e.make? = none ∧ e.run? s table = none)
      ∨ ∃ m ∈ batch, ∃ t, m.2.name = table ∧ t.name = table
        ∧ s.table? table = some (extracted m.2)
        ∧ e.make? (extracted m.2) = some t
        ∧ e.run? s table = s.editTable? t.name t.columns t.foreignKeys := by
  rw [run?_eq_bind]
  cases htable : s.table? table with
  | none => exact .inl ⟨rfl, rfl⟩
  | some u =>
      obtain ⟨m, hm, rfl, rfl⟩ := (h.table?_eq_some_iff table u).mp htable
      have heditable := h.editable m hm
      have hwritten := ColumnEdit.written?_eq_make?
        (fun _ hfk => exists_column_extracted heditable.writable heditable.identifiers hfk) e
      rw [Option.bind_some, Option.bind_some, hwritten]
      cases hmake : e.make? (extracted m.2) with
      | none => exact .inl ⟨rfl, rfl⟩
      | some t =>
          have hname := ColumnEdit.name_make? hmake
          refine .inr ⟨m, hm, t, rfl, hname, rfl, hmake, ?_⟩
          rw [Option.bind_some, hname]
          rfl

/-- A plain change leaves a generated session. -/
theorem edited (table : String) {e : ColumnEdit} (he : e.Plain) :
    ∃ batch', Generated (s.edited table e) batch' models := by
  rcases h.edited_cases table e with ⟨-, hrun⟩ | ⟨m, hm, t, hname, ht, -, hmake, hrun⟩
  · exact ⟨batch, by rw [Session.edited, hrun]; exact h⟩
  · have hedit := ColumnEdit.editable_make? he (editable_extracted (h.editable m hm)) hmake
    rw [Session.edited, hrun]
    exact ⟨_, h.editTable hm (hname.trans ht.symm) hedit⟩

/-- And so does a run of plain changes. -/
theorem editedAll {edits : List (String × ColumnEdit)} (hedits : ∀ e ∈ edits, e.2.Plain) :
    ∃ batch', Generated (s.editedAll edits) batch' models := by
  induction edits generalizing s batch with
  | nil => exact ⟨batch, h⟩
  | cons e edits ih =>
      obtain ⟨batch', h'⟩ := h.edited e.1 (hedits e List.mem_cons_self)
      exact ih h' fun d hd => hedits d (List.mem_cons_of_mem e hd)

end Generated

end Session

/-! ### The files of a suggestion -/

namespace Suggestion

/-- Holds of suggestions with names where names are expected, no name twice, and
one identifier at most in each table. A foreign key that leads to a table which
is named by its column needs no more. -/
structure Plain (s : Suggestion) : Prop where
  distinct : (s.tables.map Table.name).Nodup
  names : ∀ t ∈ s.tables, isName t.name = true
  columns : ∀ t ∈ s.tables, ∀ c ∈ t.columns, isName c.name = true
  identifiers : ∀ t ∈ s.tables, (t.columns.filter fun c => c.type == .id).length ≤ 1
  targets : ∀ t ∈ s.tables, ∀ fk ∈ t.foreignKeys,
    isName fk.target = true ∨ fk ∈ t.columns.filterMap foreignKeyOf?

/-- Every foreign key in a plain suggestion leads to a name, since its target is made from
the name of its column. -/
theorem Plain.isName_target {s : Suggestion} (h : s.Plain) {t : Table} (ht : t ∈ s.tables) :
    ∀ fk ∈ t.foreignKeys, isName fk.target = true := by
  intro fk hfk
  rcases h.targets t ht fk hfk with hname | himplied
  · exact hname
  · obtain ⟨c, hc, hfk⟩ := List.mem_filterMap.mp himplied
    rw [foreignKeyOf?] at hfk
    split at hfk
    · obtain ⟨base, hbase, rfl⟩ := Option.map_eq_some_iff.mp hfk
      have hwords := ((Scan.isName_iff c.name).mp (h.columns t ht c hc)).2
      exact Naming.isName_pluralize (Naming.isWord_of_beforeTail? hwords hbase)
    · cases hfk

end Suggestion

namespace Session

/-- A session on the files of a suggestion is generated, and its migrations bear the
names of the batch. -/
theorem generated_of_fileNames? (s : Session) {now : Moment} {suggestion : Suggestion}
    {names : List String}
    (hnames : fileNames? now (suggestion.tables.map Table.name) = some names)
    {files : List SourceFile}
    (hfiles : suggestion.files now = .ok files) (h : suggestion.Plain) :
    Generated (s.replaceFiles files) (names.zip suggestion.tables)
      (suggestion.tables.map (Suggestion.modelFile suggestion.relations)) := by
  have hlength : suggestion.tables.length ≤ names.length := by
    rw [length_fileNames? hnames, List.length_map]
  rw [Suggestion.files, hnames] at hfiles
  refine ⟨(Except.ok.inj hfiles).symm, fun f hf => ?_, rfl, ?_, ?_⟩
  · obtain ⟨t, -, rfl⟩ := List.mem_map.mp hf
    rfl
  · show ((names.zip suggestion.tables).map (Table.name ∘ Prod.snd)).Nodup
    rw [← List.map_map, List.map_snd_zip hlength]
    exact h.distinct
  · intro m hm
    have ht : m.2 ∈ suggestion.tables := (List.of_mem_zip hm).2
    exact ⟨⟨h.names _ ht, h.columns _ ht, h.isName_target ht⟩, h.identifiers _ ht⟩

/-- A session on the files of a suggestion is generated, with the suggested tables in their
order and a class for each. -/
theorem generated_replaceFiles (s : Session) {now : Moment} {suggestion : Suggestion}
    {files : List SourceFile} (hfiles : suggestion.files now = .ok files) (h : suggestion.Plain) :
    ∃ batch, batch.map Prod.snd = suggestion.tables
      ∧ Generated (s.replaceFiles files) batch
        (suggestion.tables.map (Suggestion.modelFile suggestion.relations)) := by
  cases hnames : fileNames? now (suggestion.tables.map Table.name) with
  | none =>
      rw [Suggestion.files, hnames] at hfiles
      cases hfiles
  | some names =>
      have hlength : suggestion.tables.length ≤ names.length := by
        rw [length_fileNames? hnames, List.length_map]
      exact ⟨_, List.map_snd_zip hlength, s.generated_of_fileNames? hnames hfiles h⟩

/-- The tables of such a session are those of the suggestion, as their migrations
create them. -/
theorem table?_replaceFiles (s : Session) {now : Moment} {suggestion : Suggestion}
    {files : List SourceFile} (hfiles : suggestion.files now = .ok files) (h : suggestion.Plain)
    {t : Table} (ht : t ∈ suggestion.tables) :
    (s.replaceFiles files).table? t.name = some (extracted t) := by
  obtain ⟨batch, hbatch, hstart⟩ := s.generated_replaceFiles hfiles h
  rw [← hbatch] at ht
  obtain ⟨m, hm, rfl⟩ := List.mem_map.mp ht
  exact (hstart.table?_eq_some_iff _ _).mpr ⟨m, hm, rfl, rfl⟩

/-! ### The edit loop -/

/-- What a change of a table makes of a session: the table that the migration of
the changed table creates, with all else as it was. A change that does not take
place leaves the whole session as it was. -/
structure EditEffect (table : String) (e : ColumnEdit) (before after : Session) : Prop where
  result : ∀ t, before.table? table = some t → ∀ t', e.make? t = some t' →
    ∃ b, blocks (source t') = [b] ∧ b.kind = .create ∧ b.reverse = false
      ∧ after.table? table = some ⟨b.table, b.columns, b.foreignKeys⟩
  names : after.analysis.snapshot.tables.names = before.analysis.snapshot.tables.names
  others : ∀ other, other ≠ table → after.table? other = before.table? other
  models : after.analysis.snapshot.models = before.analysis.snapshot.models
  sources : after.analysis.snapshot.sources = before.analysis.snapshot.sources
  refused : (before.table? table).bind e.make? = none → e.run? before table = none
  unchanged : e.run? before table = none → after = before

/-- The table that comes of a change, where it can be written as a migration. -/
theorem EditEffect.table?_eq {table : String} {e : ColumnEdit} {before after : Session}
    (h : EditEffect table e before after) {t t' : Table} (ht : before.table? table = some t)
    (ht' : e.make? t = some t') (hw : Writable t') :
    after.table? table = some (extracted t') := by
  obtain ⟨b, hb, -, -, hafter⟩ := h.result t ht t' ht'
  rw [hafter, extracted_of_blocks_source hw hb]

/-- An edit of a generated session has its effect: the table changes as the abstract one
does, and everything else stays. -/
theorem Generated.editEffect {s : Session} {batch : List (String × Table)}
    {models : List SourceFile}
    (h : Generated s batch models) (table : String) {e : ColumnEdit} (he : e.Plain) :
    EditEffect table e s (s.edited table e) := by
  have hnone : e.run? s table = none → s.edited table e = s := by
    intro hrun
    rw [Session.edited, hrun, Option.getD_none]
  rcases h.edited_cases table e with ⟨hmake, hrun⟩ | ⟨m, hm, t', hname, rfl, htable, hmake, hrun⟩
  · -- the change cannot be made
    rw [hnone hrun]
    refine ⟨fun t ht t' ht' => ?_, rfl, fun _ _ => rfl, rfl, rfl, fun _ => hrun, fun _ => rfl⟩
    rw [ht, Option.bind_some, ht'] at hmake
    cases hmake
  · have heditable := ColumnEdit.editable_make? he (editable_extracted (h.editable m hm)) hmake
    have hafter : Generated (s.edited t'.name e) (batch.map (retable t')) models := by
      rw [Session.edited, hrun]
      exact h.editTable hm hname heditable
    refine ⟨fun t ht u hu => ?_, h.names_retable hafter, fun _ => h.table?_retable_of_ne hafter,
      h.models_retable hafter, h.sources_retable hafter, fun hbind => ?_, hnone⟩
    · obtain rfl : extracted m.2 = t := Option.some.inj (htable.symm.trans ht)
      obtain rfl : t' = u := Option.some.inj (hmake.symm.trans hu)
      obtain ⟨b, hb, hunplaced⟩ := exists_blocks_source_eq heditable.writable
      refine ⟨b, hb, congrArg Block.kind hunplaced, congrArg Block.reverse hunplaced, ?_⟩
      rw [extracted_of_blocks_source heditable.writable hb]
      exact hafter.table?_retable hm hname
    · rw [htable, Option.bind_some, hmake] at hbind
      cases hbind

/-- Whatever has been done to the files of a suggestion, the next change of a
table has its effect, and no other. -/
theorem editEffect_editedAll_replaceFiles (s : Session) {now : Moment} {suggestion : Suggestion}
    {files : List SourceFile} (hfiles : suggestion.files now = .ok files) (h : suggestion.Plain)
    {edits : List (String × ColumnEdit)} (hedits : ∀ e ∈ edits, e.2.Plain)
    (table : String) {e : ColumnEdit} (he : e.Plain) :
    EditEffect table e ((s.replaceFiles files).editedAll edits)
      (((s.replaceFiles files).editedAll edits).edited table e) := by
  obtain ⟨start, -, hstart⟩ := generated_replaceFiles s hfiles h
  obtain ⟨batch, hbefore⟩ := hstart.editedAll hedits
  exact hbefore.editEffect table he

/-- Posts, each by a user. -/
def posts : Table where
  name := "posts"
  columns := [{ name := "user_id", type := .foreignId, isForeign := true }]
  foreignKeys := [⟨"user_id", "users"⟩]

/-- A suggestion of users and their posts. -/
def forum : Suggestion where
  tables := [{ name := "users", columns := [{ name := "id", type := .id, isPrimary := true }] },
    posts]

/-- In the forum, posts get a title and then call their user an author. Both edits show in
the table that is read from the files. -/
theorem editEffect_editedAll_replaceFiles_forum :
    ∃ files, forum.files ⟨2024, 2, 29, 23, 59, 59⟩ = .ok files
      ∧ ((((default : Session).replaceFiles files).editedAll
          [("posts", .add "title" .string true)]).edited "posts"
            (.rename "user_id" "author_id")).table? "posts"
        = some
          { name := "posts"
            columns := [{ name := "id", type := .id, isPrimary := true },
              { name := "author_id", type := .foreignId, isForeign := true },
              { name := "title", type := .string, nullable := true }]
            foreignKeys := [⟨"author_id", "users"⟩] } := by
  have hplain : forum.Plain :=
    ⟨by decide +kernel, by decide +kernel, by decide +kernel, by decide +kernel, by
      decide +kernel⟩
  obtain ⟨files, hfiles⟩ : ∃ files, forum.files ⟨2024, 2, 29, 23, 59, 59⟩ = .ok files := by
    have hsome : (fileNames? ⟨2024, 2, 29, 23, 59, 59⟩ (forum.tables.map Table.name)).isSome
        = true := by
      decide +kernel
    obtain ⟨names, hnames⟩ := Option.isSome_iff_exists.mp hsome
    exact ⟨_, by rw [Suggestion.files, hnames]⟩
  have hposts : (((default : Session).replaceFiles files).editedAll []).table? "posts"
      = some (extracted posts) :=
    table?_replaceFiles default hfiles hplain (t := posts) (by simp [forum])
  -- what the two edits make of the posts, on the abstract table
  let title : ColumnEdit := .add "title" .string true
  let rename : ColumnEdit := .rename "user_id" "author_id"
  let titled : Table := { extracted posts with
    columns := (extracted posts).columns
      ++ [{ name := "title", type := .string, nullable := true }] }
  let renamed : Table := { extracted titled with
    columns := Session.renamedColumns "user_id" "author_id" (extracted titled).columns
    foreignKeys := [⟨"author_id", "users"⟩] }
  have htitle : title.make? (extracted posts) = some titled := by decide +kernel
  have hrename : rename.make? (extracted titled) = some renamed := by decide +kernel
  have hwritable : Writable titled ∧ Writable renamed :=
    ⟨⟨by decide +kernel, by decide +kernel⟩, ⟨by decide +kernel, by decide +kernel⟩⟩
  have htitlePlain : ∀ e ∈ [("posts", title)], e.2.Plain := by
    intro e he
    rw [List.mem_singleton.mp he]
    decide
  -- the files are not computed: each edit is followed by the general statement
  have hfirst := (editEffect_editedAll_replaceFiles default hfiles hplain
    (fun e he => absurd he List.not_mem_nil) "posts" (show title.Plain by decide)).table?_eq
      hposts htitle hwritable.1
  have hsecond := (editEffect_editedAll_replaceFiles default hfiles hplain
    htitlePlain "posts" (show rename.Plain by decide)).table?_eq hfirst hrename hwritable.2
  exact ⟨files, hfiles, hsecond.trans (by decide +kernel)⟩

end Session

end SchemaAtlas
