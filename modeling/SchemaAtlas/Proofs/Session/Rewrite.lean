import SchemaAtlas.Proofs.Migration.Written
import SchemaAtlas.Proofs.Session.ColumnEdit

/-!
# `SchemaAtlas.Proofs.Session.Rewrite`: what an edit makes of any session

An edit writes a whole table into the first migration that creates it, and then all
files are read again. The order of the migrations stays as it was
(`exists_cut_of_creator?`), and so the table starts from what was written and goes
through the blocks that come behind (`exists_table?_editTable?`).

Whatever was done to a session, what it says is what its files say
(`Reachable.analysis`).
-/

set_option autoImplicit false

namespace SchemaAtlas

open Migration Scan

/-! ### Creation and what follows -/

namespace History

/-- The blocks of a table behind the first one that creates it. -/
def laterBlocks (table : String) (files : List SourceFile) : List Block :=
  ((story table files).dropWhile fun b => b.kind != .create).tail

/-- Blocks that alter a table do not make one where there is none, however many they are. -/
theorem foldl_next_none {bs : List Block} (h : ∀ b ∈ bs, b.kind ≠ .create) :
    bs.foldl next none = none := by
  induction bs with
  | nil => rfl
  | cons b bs ih =>
      have hstep : next none b = none := by
        cases hkind : b.kind with
        | create => exact absurd hkind (h b List.mem_cons_self)
        | alter =>
            rw [next, hkind]
            rfl
      rw [List.foldl_cons, hstep]
      exact ih fun d hd => h d (List.mem_cons_of_mem b hd)

/-- A table is what the later blocks make of the table that was created first. -/
theorem exists_foldl_laterBlocks {files : List SourceFile} {table : String} {t : Table}
    (h : (story table files).foldl next none = some t) :
    ∃ u, u.name = table ∧ (laterBlocks table files).foldl next (some u) = some t := by
  have hsplit := List.takeWhile_append_dropWhile (p := fun b : Block => b.kind != .create)
    (l := story table files)
  -- what comes before the first creation alters a table that is not there
  have hbefore : ((story table files).takeWhile fun b => b.kind != .create).foldl next none
      = none :=
    foldl_next_none fun b hb => by simpa using List.mem_takeWhile_imp hb
  rw [← hsplit, List.foldl_append, hbefore] at h
  cases hrest : (story table files).dropWhile fun b => b.kind != .create with
  | nil =>
      rw [hrest] at h
      cases h
  | cons b later =>
      have hkind : b.kind = .create := by
        have hfirst :=
          List.head?_dropWhile_not (fun b : Block => b.kind != .create) (story table files)
        rw [hrest] at hfirst
        simpa using hfirst
      have hmem : b ∈ story table files := by
        rw [← hsplit, hrest]
        exact List.mem_append_right _ List.mem_cons_self
      rw [hrest, List.foldl_cons, next_of_create hkind] at h
      exact ⟨made b, table_of_mem_story hmem, by rw [laterBlocks, hrest]; exact h⟩

/-- No block takes a table away, so what a list of blocks makes of a table is a table. -/
theorem exists_foldl_next (bs : List Block) (t : Table) :
    ∃ u, bs.foldl next (some t) = some u := by
  induction bs generalizing t with
  | nil => exact ⟨t, rfl⟩
  | cons b bs ih =>
      rw [List.foldl_cons]
      cases hkind : b.kind with
      | create =>
          rw [next_of_create hkind]
          exact ih (made b)
      | alter =>
          rw [next_of_alter hkind]
          exact ih (t.alter b)

/-- A list of alterations makes of a table what the alterations do to it, one after
another. -/
theorem foldl_next_of_alter {bs : List Block} (h : ∀ b ∈ bs, b.kind = .alter) (t : Table) :
    bs.foldl next (some t) = some (bs.foldl Table.alter t) := by
  induction bs generalizing t with
  | nil => rfl
  | cons b bs ih =>
      rw [List.foldl_cons, next_of_alter (h b List.mem_cons_self), Option.map_some,
        ih fun d hd => h d (List.mem_cons_of_mem b hd), List.foldl_cons]

/-- Behind a block that creates a table, it does not matter what there was before. -/
theorem foldl_next_of_create {bs : List Block} (h : ∃ b ∈ bs, b.kind = .create)
    (table? other? : Option Table) :
    bs.foldl next table? = bs.foldl next other? := by
  obtain ⟨b, hb, hkind⟩ := h
  obtain ⟨before, after, rfl⟩ := List.append_of_mem hb
  rw [List.foldl_append, List.foldl_append, List.foldl_cons, List.foldl_cons,
    next_of_create hkind, next_of_create hkind]

/-- Where a block stands does not matter for what it makes, so blocks may be compared
without their places. -/
theorem foldl_next_of_unplaced {bs others : List Block}
    (h : bs.map Block.unplaced = others.map Block.unplaced)
    (table? : Option Table) : bs.foldl next table? = others.foldl next table? := by
  have hunplaced : ∀ l : List Block,
      (l.map Block.unplaced).foldl next table? = l.foldl next table? := by
    intro l
    rw [List.foldl_map]
    rfl
  rw [← hunplaced bs, h, hunplaced]

/-- Behind a block that creates the table there are only later blocks. They are all of
them if it is the first such block, and otherwise it is a later block itself. -/
theorem mem_laterBlocks_of_cut {files : List SourceFile} {table : String}
    {before after : List Block}
    {b : Block} (h : story table files = before ++ b :: after) (hb : b.kind = .create) :
    (∀ d ∈ after, d ∈ laterBlocks table files)
      ∧ (laterBlocks table files = after ∨ b ∈ laterBlocks table files) := by
  have hcut : (b :: after).dropWhile (fun b => b.kind != .create) = b :: after := by
    rw [List.dropWhile_cons_of_neg (by simp [hb])]
  rw [laterBlocks, h, List.dropWhile_append, hcut]
  cases hbefore : before.dropWhile fun b => b.kind != .create with
  | nil => exact ⟨fun d hd => hd, .inl rfl⟩
  | cons first rest =>
      show (∀ d ∈ after, d ∈ rest ++ b :: after)
        ∧ (rest ++ b :: after = after ∨ b ∈ rest ++ b :: after)
      exact ⟨fun d hd => List.mem_append_right rest (List.mem_cons_of_mem b hd),
        .inr (List.mem_append_right rest List.mem_cons_self)⟩

end History

/-! ### The rewritten migration -/

namespace Session

/-- The session's migrations with their places in the list, in order of creation. -/
def orderedMigrations (files : List SourceFile) : List (SourceFile × Nat) :=
  ((numbered files).filter fun f => f.1.kind == .migration).mergeSort fun a b => a.1.notAfter b.1

/-- The content of the file at a place, and of no other, exchanged. -/
def recontent (i : Nat) (text : String) (m : SourceFile × Nat) : SourceFile × Nat :=
  if m.2 = i then (m.1.withContent text, m.2) else m

/-- Giving a file another content leaves it a file of its kind. -/
theorem kind_recontent (i : Nat) (text : String) (m : SourceFile × Nat) :
    (recontent i text m).1.kind = m.1.kind := by
  rw [recontent]
  split
  · rfl
  · rfl

/-- Contents are of no account for the order of files, which is by names and paths. -/
theorem notAfter_recontent (i : Nat) (text : String) (a b : SourceFile × Nat) :
    (recontent i text a).1.notAfter (recontent i text b).1 = a.1.notAfter b.1 := by
  have hname : ∀ m : SourceFile × Nat, (recontent i text m).1.name = m.1.name := by
    intro m
    rw [recontent]
    split
    · rfl
    · rfl
  have hpath : ∀ m : SourceFile × Nat, (recontent i text m).1.path = m.1.path := by
    intro m
    rw [recontent]
    split
    · rfl
    · rfl
  rw [SourceFile.notAfter, SourceFile.notAfter, hname, hname, hpath, hpath]

/-- Places are of no account for the order either: without them, it is the order in which
migrations are read. -/
theorem map_fst_orderedMigrations (files : List SourceFile) :
    (orderedMigrations files).map Prod.fst
      = SourceFile.chronological (SourceFile.ofKind .migration files) := by
  have hkind : ((numbered files).filter fun f => f.1.kind == .migration).map Prod.fst
      = SourceFile.ofKind .migration files := by
    rw [SourceFile.ofKind]
    conv_rhs => rw [← List.zipIdx_map_fst 0 files, List.filter_map]
    rfl
  have hsort : (orderedMigrations files).map Prod.fst
      = (((numbered files).filter fun f => f.1.kind == .migration).map Prod.fst).mergeSort
          SourceFile.notAfter :=
    List.map_mergeSort fun _ _ _ _ => rfl
  rw [hsort, hkind]
  rfl

/-- Another content of one file leaves the numbers of all files as they are. -/
theorem numbered_set {files : List SourceFile} {f : SourceFile} {i : Nat}
    (hi : files[i]? = some f)
    (text : String) :
    numbered (files.set i (f.withContent text)) = (numbered files).map (recontent i text) := by
  -- places are distinct, so changing the file in one place is changing it by its number
  have hplaces : ((numbered files).map Prod.snd).Nodup := by
    rw [numbered, List.zipIdx_map_snd]
    exact List.nodup_range'
  have hat : (numbered files)[i]? = some (f, i) := by
    rw [numbered, List.getElem?_zipIdx, hi]
    simp
  have hset : (numbered files).set i (f.withContent text, i)
      = (numbered files).map (recontent i text) :=
    set_eq_map hplaces hat fun m => (m.1.withContent text, m.2)
  rw [← hset, numbered, numbered]
  apply List.ext_getElem?
  intro k
  rw [List.getElem?_zipIdx, List.getElem?_set, List.getElem?_set, List.length_zipIdx,
    List.getElem?_zipIdx]
  by_cases hk : i = k
  · subst hk
    by_cases hlt : i < files.length
    · simp [hlt]
    · simp [hlt]
  · simp [hk]

/-- Another content of one file leaves the order of the migrations as it is, and changes
that one in its place. -/
theorem orderedMigrations_set {files : List SourceFile} {f : SourceFile} {i : Nat}
    (hi : files[i]? = some f)
    (text : String) :
    orderedMigrations (files.set i (f.withContent text))
      = (orderedMigrations files).map (recontent i text) := by
  have hsort : (orderedMigrations files).map (recontent i text)
      = (((numbered files).filter fun f => f.1.kind == .migration).map
        (recontent i text)).mergeSort
          fun a b => a.1.notAfter b.1 :=
    List.map_mergeSort fun a _ b _ => (notAfter_recontent i text a b).symm
  have hkind : ((numbered files).map (recontent i text)).filter (fun f => f.1.kind == .migration)
      = ((numbered files).filter fun f => f.1.kind == .migration).map (recontent i text) := by
    rw [List.filter_map]
    exact congrArg _ (List.filter_congr fun m _ => by
      show ((recontent i text m).1.kind == .migration) = _
      rw [kind_recontent])
  rw [hsort, ← hkind, ← numbered_set hi]
  rfl

/-- The migration that creates a table is a file of the session, in the place that is
reported with it. -/
theorem getElem?_of_creator? {s : Session} {table : String} {f : SourceFile} {i : Nat}
    (h : s.creator? table = some (f, i)) : s.files[i]? = some f := by
  have hsorted : (f, i) ∈ orderedMigrations s.files := List.mem_of_find?_eq_some h
  exact List.mem_zipIdx_iff_getElem?.mp (List.mem_filter.mp (List.mem_mergeSort.mp hsorted)).1

/-- The migration that creates a table is there, none before it does, and with another
content it stands in its place among the migrations. -/
theorem exists_cut_of_creator? {s : Session} {table : String} {f : SourceFile} {i : Nat}
    (h : s.creator? table = some (f, i)) :
    creates table f = true ∧ ∃ before after, (∀ g ∈ before, creates table g = false)
      ∧ SourceFile.chronological (SourceFile.ofKind .migration s.files) = before ++ f :: after
      ∧ ∀ text, SourceFile.chronological
        (SourceFile.ofKind .migration (s.files.set i (f.withContent text)))
        = before ++ f.withContent text :: after := by
  have hfound : (orderedMigrations s.files).find? (fun m => creates table m.1) = some (f, i) := h
  obtain ⟨hcreates, before, after, hcut, hbefore⟩ := List.find?_eq_some_iff_append.mp hfound
  have hi := getElem?_of_creator? h
  -- no other migration has its place
  have hplaces : ((orderedMigrations s.files).map Prod.snd).Nodup := by
    have hall : ((numbered s.files).map Prod.snd).Nodup := by
      rw [numbered, List.zipIdx_map_snd]
      exact List.nodup_range'
    exact ((List.mergeSort_perm _ _).map Prod.snd).nodup_iff.mpr
      (hall.sublist (List.filter_sublist.map Prod.snd))
  rw [hcut, List.map_append, List.map_cons, List.nodup_middle, List.nodup_cons, List.mem_append,
    not_or] at hplaces
  have hsame : ∀ (text : String) (l : List (SourceFile × Nat)), i ∉ l.map Prod.snd →
      l.map (recontent i text) = l := by
    intro text l hl
    conv_rhs => rw [← List.map_id l]
    refine List.map_congr_left fun m hm => ?_
    rw [recontent, if_neg]
    · rfl
    · rintro rfl
      exact hl (List.mem_map_of_mem hm)
  refine ⟨hcreates, before.map Prod.fst, after.map Prod.fst, fun g hg => ?_, ?_, fun text => ?_⟩
  · obtain ⟨m, hm, rfl⟩ := List.mem_map.mp hg
    simpa using hbefore m hm
  · rw [← map_fst_orderedMigrations, hcut, List.map_append, List.map_cons]
  · have hf : recontent i text (f, i) = (f.withContent text, i) := by
      rw [recontent, if_pos rfl]
    rw [← map_fst_orderedMigrations, orderedMigrations_set hi, hcut, List.map_append,
      List.map_cons, hsame text before hplaces.1.1, hsame text after hplaces.1.2, hf,
      List.map_append, List.map_cons]

/-! ### The table after an edit -/

/-- Holds if the closure that an edit of the table rewrites is one of the way forward. -/
def WritesForward (s : Session) (table : String) : Prop :=
  ∀ m ∈ s.creator? table, ∀ c ∈ creation? table (closures m.1.content),
    c.Forward (mask m.1.content.toList)

instance (s : Session) (table : String) : Decidable (s.WritesForward table) :=
  inferInstanceAs
    (Decidable (∀ m ∈ s.creator? table, ∀ c ∈ creation? table (closures m.1.content),
    c.Forward (mask m.1.content.toList)))

/-- A migration that creates a table has a closure that does, so there is a body to write
the table into. -/
theorem exists_creation_of_creates {table : String} {f : SourceFile}
    (h : creates table f = true) :
    ∃ c, creation? table (closures f.content) = some c := by
  obtain ⟨b, hb, hcreates⟩ := List.any_eq_true.mp h
  obtain ⟨c, hc, rfl⟩ := List.mem_map.mp hb
  simp only [Bool.and_eq_true] at hcreates
  have hcreation : (c.kind == .create && c.table == table) = true := by
    rw [Bool.and_eq_true]
    exact ⟨hcreates.1.1, hcreates.2⟩
  exact Option.isSome_iff_exists.mp (List.find?_isSome.mpr ⟨c, hc, hcreation⟩)

/-- An edit is written into the migration that creates the table, which is to be saved then. -/
theorem exists_creator?_of_editTable? {s s' : Session} {table : String} {columns : List Column}
    {fks : List ForeignKey} (h : s.editTable? table columns fks = some s') :
    ∃ f i, s.creator? table = some (f, i)
      ∧ s' = { s with
        files := s.files.set i (f.withContent (writeBack f.content table columns fks))
        dirty := addPath f.path s.dirty }.refresh := by
  rw [editTable?] at h
  cases hcreator : s.creator? table with
  | none =>
      rw [hcreator] at h
      cases h
  | some m =>
      obtain ⟨f, i⟩ := m
      rw [hcreator] at h
      simp only [Option.bind_eq_bind, Option.bind_some] at h
      split at h
      · cases h
      · exact ⟨f, i, rfl, (Option.some.inj h).symm⟩

/-- An edit changes the content of one file, the one that creates the table, and then reads
all files again. -/
theorem exists_files_editTable? {s s' : Session} {table : String} {columns : List Column}
    {fks : List ForeignKey} (h : s.editTable? table columns fks = some s') :
    ∃ f i c, s.creator? table = some (f, i) ∧ creation? table (closures f.content) = some c
      ∧ s'.files = s.files.set i (f.withContent (writeBack f.content table columns fks))
      ∧ s'.analysis = .ofSources s'.files := by
  obtain ⟨f, i, hcreator, rfl⟩ := exists_creator?_of_editTable? h
  obtain ⟨c, hc⟩ := exists_creation_of_creates (exists_cut_of_creator? hcreator).1
  exact ⟨f, i, c, hcreator, hc, rfl, rfl⟩

/-- After an edit, the story of the table has the block that was written, if it is written
into the way forward. -/
theorem exists_story_editTable? {s s' : Session} {table : String} {columns : List Column}
    {fks : List ForeignKey} (h : s.editTable? table columns fks = some s')
    (hn : Named columns fks)
    (hforward : s.WritesForward table) :
    ∃ before b after, History.story table s'.files = before ++ b :: after
      ∧ b.unplaced = sourceBlock ⟨table, columns, fks⟩ := by
  obtain ⟨f, i, c, hcreator, hc, hfiles, -⟩ := exists_files_editTable? h
  obtain ⟨-, before, after, -, -, hcut⟩ := exists_cut_of_creator? hcreator
  obtain ⟨bsBefore, b, bsAfter, hblocks, hunplaced⟩ :=
    exists_blocks_writeBack hc hn (hforward (f, i) hcreator c hc)
  -- the written block is one of the table's story
  have hpart : (!b.reverse && b.table == table) = true := by
    have htable : b.table = table := congrArg Block.table hunplaced
    have hreverse : b.reverse = false := congrArg Block.reverse hunplaced
    simp [htable, hreverse]
  have hb : (b :: bsAfter).filter (fun b => !b.reverse && b.table == table)
      = b :: bsAfter.filter fun b => !b.reverse && b.table == table := by
    rw [List.filter_cons, if_pos hpart]
  have hcontent : blocks (f.withContent (writeBack f.content table columns fks)).content
      = bsBefore ++ b :: bsAfter := hblocks
  have hstory : History.story table s'.files
      = (History.blocksFor table before ++ bsBefore.filter fun b =>
        !b.reverse && b.table == table)
        ++ b :: ((bsAfter.filter fun b => !b.reverse && b.table == table)
          ++ History.blocksFor table after) := by
    rw [History.story, hfiles, hcut, History.blocksFor_append, History.blocksFor_cons, hcontent,
      List.filter_append, hb]
    simp only [List.append_assoc, List.cons_append]
  exact ⟨_, b, _, hstory, hunplaced⟩

/-- In a session that says what its files say, a table is what its story makes of
nothing. -/
theorem table?_eq_foldl_story {s : Session} (h : s.analysis = .ofSources s.files)
    (table : String) :
    s.table? table = (History.story table s.files).foldl History.next none := by
  rw [table?, h]
  show (History.ofSources s.files).snapshot.tables.get? table = _
  rw [History.snapshot_ofSources]
  exact History.get?_ofMigrations s.files table

/-- After an edit, the table is what the blocks behind the written one make of it. These
are later blocks, and they are all of them unless the written block is a later one. -/
theorem exists_table?_editTable? {s s' : Session} {table : String} {columns : List Column}
    {fks : List ForeignKey} (h : s.editTable? table columns fks = some s')
    (hn : Named columns fks)
    (hforward : s.WritesForward table) :
    ∃ after, s'.table? table = after.foldl History.next (some (extracted ⟨table, columns, fks⟩))
      ∧ (∀ d ∈ after, d ∈ History.laterBlocks table s'.files)
      ∧ (History.laterBlocks table s'.files = after
        ∨ ∃ b ∈ History.laterBlocks table s'.files, b.kind = .create) := by
  obtain ⟨before, b, after, hstory, hunplaced⟩ := exists_story_editTable? h hn hforward
  obtain ⟨_, _, _, -, -, -, hanalysis⟩ := exists_files_editTable? h
  have hkind : b.kind = .create := congrArg Block.kind hunplaced
  have hmade : History.made b = extracted ⟨table, columns, fks⟩ := congrArg History.made hunplaced
  obtain ⟨hlater, hall⟩ := History.mem_laterBlocks_of_cut hstory hkind
  refine ⟨after, ?_, hlater, hall.imp_right fun hb => ⟨b, hb, hkind⟩⟩
  rw [table?_eq_foldl_story hanalysis, hstory, List.foldl_append, List.foldl_cons,
    History.next_of_create hkind, hmade]

/-! ### Sessions that can be reached -/

/-- Holds of sessions that come of loading files, replacing them, changing columns and
saving. -/
inductive Reachable : Session → Prop
  | start (files : List SourceFile) (root : Option Place) : Reachable (.start files root)
  | load {s : Session} (hs : Reachable s) (files : List SourceFile) (root : Option Place) :
      Reachable (s.load files root)
  | replaceFiles {s : Session} (hs : Reachable s) (files : List SourceFile) :
      Reachable (s.replaceFiles files)
  | edit {s s' : Session} (hs : Reachable s) {table : String} {e : ColumnEdit}
      (hrun : e.run? s table = some s') : Reachable s'
  | save {s : Session} (hs : Reachable s) (d : Disk) : Reachable (s.save d).2.1

/-- Whatever was done to a session, it says what its files say: every edit ends with reading
all of them. -/
theorem Reachable.analysis {s : Session} (h : Reachable s) : s.analysis = .ofSources s.files := by
  induction h with
  | start files root => rfl
  | load hs files root ih => rfl
  | replaceFiles hs files ih => rfl
  | edit hs hrun ih =>
      obtain ⟨_, _, -, -, hedit⟩ := exists_written?_of_run? hrun
      obtain ⟨_, _, _, -, -, -, hanalysis⟩ := exists_files_editTable? hedit
      exact hanalysis
  | save hs d ih =>
      -- only what is to be saved changes
      rw [Session.save]
      split
      · exact ih
      · split
        · exact ih
        · exact ih

/-! ### A session on one migration

What an edit does to the only migration of a session is told by the characters of the
migration.
-/

/-- The blocks of a table in a migration, told by its characters. -/
def blocksOf (table : String) (cs : List Char) : List Block :=
  ((closuresOfMasked (mask cs)).map (Closure.block (mask cs) (downSpan? (mask cs)))).filter
    fun b =>
    !b.reverse && b.table == table

/-- Holds of the characters of a migration that makes a table, and creates it in a
closure. -/
structure Makes (cs : List Char) (t : Table) (c : Closure) : Prop where
  story : (blocksOf t.name cs).foldl History.next none = some t
  creates : (blocksOf t.name cs).any (fun b => b.kind == .create) = true
  closure : creation? t.name (closuresOfMasked (mask cs)) = some c

instance (cs : List Char) (t : Table) (c : Closure) : Decidable (Makes cs t c) :=
  decidable_of_iff ((blocksOf t.name cs).foldl History.next none = some t
    ∧ (blocksOf t.name cs).any (fun b => b.kind == .create) = true
    ∧ creation? t.name (closuresOfMasked (mask cs)) = some c)
    ⟨fun ⟨hstory, hcreates, hclosure⟩ => ⟨hstory, hcreates, hclosure⟩,
      fun h => ⟨h.story, h.creates, h.closure⟩⟩

section OneMigration

variable {f : SourceFile} (hkind : f.kind = .migration)

include hkind

/-- A single migration is the first in the order, in its place. -/
theorem orderedMigrations_singleton : orderedMigrations [f] = [(f, 0)] := by
  have hfilter : (numbered [f]).filter (fun f => f.1.kind == .migration) = [(f, 0)] :=
    List.filter_cons_of_pos (by simp [hkind])
  rw [orderedMigrations, hfilter, List.mergeSort_singleton]

/-- With a single migration, the story of a table has the forward blocks for it in that
migration. -/
theorem story_singleton (table : String) :
    History.story table [f] = blocksOf table f.content.toList := by
  rw [History.story, ← map_fst_orderedMigrations, orderedMigrations_singleton hkind]
  exact (History.blocksFor_cons table f []).trans (List.append_nil _)

variable {root : Option Place} {t u : Table} {c : Closure} (h : Makes f.content.toList t c)

include h

/-- So the table of a session on that migration is the one that the migration makes. -/
theorem table?_start_singleton : (start [f] root).table? t.name = some t := by
  rw [table?_eq_foldl_story rfl]
  show (History.story t.name [f]).foldl History.next none = _
  rw [story_singleton hkind]
  exact h.story

/-- The schema of that migration has the same table, since the session says what its file
says. -/
theorem get?_ofSources_singleton :
    (Analysis.ofSources [f]).snapshot.tables.get? t.name = some t :=
  @table?_start_singleton f hkind none t c h

/-- The migration that creates the table is the one that there is. -/
theorem creator?_start_singleton : (start [f] root).creator? t.name = some (f, 0) := by
  have hcreates : creates t.name f = true := by
    obtain ⟨b, hb, hcreate⟩ := List.any_eq_true.mp h.creates
    obtain ⟨hmem, hpart⟩ := List.mem_filter.mp hb
    rw [Bool.and_eq_true] at hpart
    exact List.any_eq_true.mpr ⟨b, hmem, by rw [hcreate, hpart.1, hpart.2]; rfl⟩
  show (orderedMigrations [f]).find? (fun m => creates t.name m.1) = _
  rw [orderedMigrations_singleton hkind]
  exact List.find?_cons_of_pos hcreates

/-- The closure that an edit rewrites is the one that creates the table, so what is asked of
any such closure is asked of this one. -/
theorem of_closure_start {p : SourceFile → Closure → Prop} (hp : p f c) :
    ∀ m ∈ (start [f] root).creator? t.name, ∀ d ∈ creation? t.name (closures m.1.content),
      p m.1 d := by
  intro m hm d hd
  rw [creator?_start_singleton hkind h] at hm
  obtain rfl := Option.some.inj hm
  have hclosure : creation? t.name (closures f.content) = some c := h.closure
  rw [hclosure] at hd
  obtain rfl := Option.some.inj hd
  exact hp

/-- An edit that changes a character is done, and leaves the session with the migration
that was written. -/
theorem exists_run?_start {e : ColumnEdit} (hu : e.written? t = some u)
    (hne : rewritten f.content.toList c u.columns u.foreignKeys ≠ f.content.toList) :
    ∃ s', e.run? (start [f] root) t.name = some s'
      ∧ s'.analysis = .ofSources s'.files
      ∧ ∀ table, History.story table s'.files
        = blocksOf table (rewritten f.content.toList c u.columns u.foreignKeys) := by
  have hnew : (writeBack f.content t.name u.columns u.foreignKeys).toList
      = rewritten f.content.toList c u.columns u.foreignKeys := toList_writeBack h.closure
  have hchanged : writeBack f.content t.name u.columns u.foreignKeys ≠ f.content := by
    intro heq
    rw [heq] at hnew
    exact hne hnew.symm
  rw [run?_eq_bind, table?_start_singleton hkind h, Option.bind_some, hu, Option.bind_some,
    editTable?, creator?_start_singleton hkind h]
  simp only [Option.bind_eq_bind, Option.bind_some, if_neg hchanged]
  refine ⟨_, rfl, rfl, fun table => ?_⟩
  have hstory :=
    @story_singleton (f.withContent (writeBack f.content t.name u.columns u.foreignKeys))
    hkind table
  exact hstory.trans (congrArg (blocksOf table) hnew)

end OneMigration

end Session

end SchemaAtlas
