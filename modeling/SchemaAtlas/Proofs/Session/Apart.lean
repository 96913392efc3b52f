import SchemaAtlas.Proofs.Migration.Apart
import SchemaAtlas.Proofs.Session.Rewrite

/-!
# `SchemaAtlas.Proofs.Session.Apart`: what an edit leaves of the other tables

Where the closure that an edit rewrites stands apart in its migration
(`Session.WritesApart`), one block of one table takes another's place, and all other
blocks of all tables say what they said (`exists_split_blocksIn_editTable?`). So the
edited table is what its later blocks make of what was written
(`table?_editTable?`), and the other tables are what they were
(`table?_editTable?_of_ne`).

This needs names where names are written. A name with a quote in it changes how the
rest of a migration reads, and its tables may be gone (`lost_addColumn?_quote`).
-/

set_option autoImplicit false

namespace SchemaAtlas

open Migration Scan

namespace History

/-- The blocks of all migrations, in order. -/
def blocksIn (files : List SourceFile) : List Block :=
  (SourceFile.chronological (SourceFile.ofKind .migration files)).flatMap fun f =>
    blocks f.content

/-- The story of a table has the forward blocks for it from all files, wherever in its file
each of them stands. -/
theorem unplaced_story (table : String) (files : List SourceFile) :
    (story table files).map Block.unplaced
      = ((blocksIn files).map Block.unplaced).filter fun b => !b.reverse && b.table == table := by
  rw [List.filter_map]
  rfl

/-- Where the block that creates a table is the first one to do so, the later blocks are
those behind it. -/
theorem laterBlocks_of_first {files : List SourceFile} {table : String}
    {before after : List Block} {b : Block}
    (h : story table files = before ++ b :: after) (hbefore : ∀ d ∈ before, d.kind ≠ .create)
    (hb : b.kind = .create) : laterBlocks table files = after := by
  have hdrop : before.dropWhile (fun b => b.kind != .create) = [] :=
    List.dropWhile_eq_nil_iff.mpr fun d hd => by simpa using hbefore d hd
  rw [laterBlocks, h, List.dropWhile_append, hdrop, List.dropWhile_cons_of_neg (by simp [hb])]
  rfl

end History

namespace Session

/-- Holds if the closure that an edit of the table rewrites stands apart in its
migration. -/
def WritesApart (s : Session) (table : String) : Prop :=
  ∀ m ∈ s.creator? table, ∀ c ∈ creation? table (closures m.1.content), c.Apart m.1.content.toList

instance (s : Session) (table : String) : Decidable (s.WritesApart table) :=
  inferInstanceAs
    (Decidable (∀ m ∈ s.creator? table, ∀ c ∈ creation? table (closures m.1.content),
    c.Apart m.1.content.toList))

section EditTable

variable {s s' : Session} {table : String} {columns : List Column} {fks : List ForeignKey}
  (h : s.editTable? table columns fks = some s') (hn : Named columns fks)
  (hapart : s.WritesApart table)

include h hn hapart

/-- Of all blocks, the first that creates the table on the way forward is another after
an edit. -/
theorem exists_split_blocksIn_editTable? :
    ∃ before b after, History.blocksIn s.files = before ++ b :: after
      ∧ (∀ d ∈ before, ¬(d.kind = .create ∧ d.reverse = false ∧ d.table = table))
      ∧ b.kind = .create ∧ b.reverse = false ∧ b.table = table
      ∧ (History.blocksIn s'.files).map Block.unplaced
        = before.map Block.unplaced ++ sourceBlock ⟨table, columns, fks⟩
          :: after.map Block.unplaced := by
  -- the files are cut at the one that creates the table, and its blocks at the one that does
  obtain ⟨f, i, c, hcreator, hc, hfiles, -⟩ := exists_files_editTable? h
  obtain ⟨-, filesBefore, filesAfter, hfirst, hcut, hcutNew⟩ := exists_cut_of_creator? hcreator
  obtain ⟨front, b, rest, hblocks, hfront, hkind, htable, hreverse, hnew⟩ :=
    exists_split_blocks_writeBack hc hn (hapart (f, i) hcreator c hc)
  refine ⟨(filesBefore.flatMap fun f => blocks f.content) ++ front, b,
    rest ++ filesAfter.flatMap fun f => blocks f.content, ?_, ?_, hkind, hreverse, htable, ?_⟩
  · rw [History.blocksIn, hcut, List.flatMap_append, List.flatMap_cons, hblocks]
    simp only [List.append_assoc, List.cons_append]
  · intro d hd hcreates
    rcases List.mem_append.mp hd with hd | hd
    · obtain ⟨g, hg, hdg⟩ := List.mem_flatMap.mp hd
      have hnone := List.any_eq_false.mp (hfirst g hg) d hdg
      simp [hcreates.1, hcreates.2.1, hcreates.2.2] at hnone
    · exact hfront d hd ⟨hcreates.1, hcreates.2.2⟩
  · have hcontent : (blocks (f.withContent (writeBack f.content table columns fks)).content).map
        Block.unplaced
        = front.map Block.unplaced ++ sourceBlock ⟨table, columns, fks⟩
          :: rest.map Block.unplaced := hnew
    rw [History.blocksIn, hfiles, hcutNew, List.flatMap_append, List.flatMap_cons,
      List.map_append, List.map_append, hcontent, List.map_append, List.map_append]
    simp only [List.append_assoc, List.cons_append]

/-- The edited table is what its later blocks make of what was written into the migration
that creates it. -/
theorem table?_editTable? :
    s'.table? table = (History.laterBlocks table s.files).foldl History.next
      (some (extracted ⟨table, columns, fks⟩)) := by
  obtain ⟨before, b, after, hblocks, hbefore, hkind, hreverse, htable, hnew⟩ :=
    exists_split_blocksIn_editTable? h hn hapart
  obtain ⟨_, _, _, -, -, -, hanalysis⟩ := exists_files_editTable? h
  -- the block that is written takes the place of the first that creates the table
  have hlater : History.laterBlocks table s.files = after.filter fun b =>
      !b.reverse && b.table == table := by
    refine @History.laterBlocks_of_first
      _ _ (before.filter fun b => !b.reverse && b.table == table) _ b ?_ ?_ hkind
    · show (History.blocksIn s.files).filter _ = _
      have hb : (b :: after).filter (fun b => !b.reverse && b.table == table)
          = b :: after.filter fun b => !b.reverse && b.table == table := by
        rw [List.filter_cons, if_pos (by simp [hreverse, htable])]
      rw [hblocks, List.filter_append, hb]
    · intro d hd hcreates
      obtain ⟨hmem, hpart⟩ := List.mem_filter.mp hd
      rw [Bool.and_eq_true, Bool.not_eq_true', beq_iff_eq] at hpart
      exact hbefore d hmem ⟨hcreates, hpart.1, hpart.2⟩
  have hstory : (History.story table s'.files).map Block.unplaced
      = ((before.filter fun b => !b.reverse && b.table == table)
        ++ sourceBlock ⟨table, columns, fks⟩ :: after.filter fun b =>
          !b.reverse && b.table == table).map
          Block.unplaced := by
    have hsource : (sourceBlock ⟨table, columns, fks⟩ :: after.map Block.unplaced).filter
        (fun b => !b.reverse && b.table == table)
        = sourceBlock ⟨table, columns, fks⟩
          :: (after.map Block.unplaced).filter fun b => !b.reverse && b.table == table := by
      rw [List.filter_cons, if_pos (by simp [sourceBlock, Draft.block])]
    rw [History.unplaced_story, hnew, List.filter_append, hsource, List.map_append, List.map_cons,
      List.filter_map, List.filter_map]
    rfl
  have hmade : History.next
      ((before.filter fun b => !b.reverse && b.table == table).foldl History.next none)
      (sourceBlock ⟨table, columns, fks⟩) = some (extracted ⟨table, columns, fks⟩) := rfl
  rw [table?_eq_foldl_story hanalysis, History.foldl_next_of_unplaced hstory, List.foldl_append,
    List.foldl_cons, hmade, hlater]

/-- The other tables are what they were, although all files are read again: their blocks say
what they said before. -/
theorem table?_editTable?_of_ne (hs : s.analysis = .ofSources s.files) {other : String}
    (hother : other ≠ table) :
    s'.table? other = s.table? other := by
  obtain ⟨before, b, after, hblocks, -, -, -, htable, hnew⟩ :=
    exists_split_blocksIn_editTable? h hn hapart
  obtain ⟨_, _, _, -, -, -, hanalysis⟩ := exists_files_editTable? h
  -- neither the old block nor the new one is part of the other table's story
  have hstory : (History.story other s'.files).map Block.unplaced
      = (History.story other s.files).map Block.unplaced := by
    have hskip : ∀ (d : Block) (l : List Block), d.table = table →
        (d :: l).filter (fun b => !b.reverse && b.table == other)
          = l.filter fun b => !b.reverse && b.table == other := by
      intro d l hd
      rw [List.filter_cons, if_neg (by simp [hd, Ne.symm hother])]
    rw [History.unplaced_story, History.unplaced_story, hnew, hblocks, List.map_append,
      List.map_cons, List.filter_append, List.filter_append, hskip _ _ rfl,
      hskip b.unplaced _ htable]
  rw [table?_eq_foldl_story hanalysis, table?_eq_foldl_story hs,
    History.foldl_next_of_unplaced hstory]

end EditTable

/-- After an edit of a table with names where names are written, the table is there, and
every other table is what it was. -/
theorem table?_run?_of_ne {s s' : Session} (hs : Reachable s) {table : String} {e : ColumnEdit}
    (hrun : e.run? s table = some s') (hapart : s.WritesApart table) {t u : Table}
    (ht : s.table? table = some t) (hu : e.written? t = some u)
    (hn : Named u.columns u.foreignKeys) :
    (s'.table? table).isSome = true ∧ ∀ other, other ≠ table →
    s'.table? other = s.table? other := by
  obtain ⟨t₀, u₀, ht₀, hu₀, hedit⟩ := exists_written?_of_run? hrun
  obtain rfl : t₀ = t := Option.some.inj (ht₀.symm.trans ht)
  obtain rfl : u₀ = u := Option.some.inj (hu₀.symm.trans hu)
  refine ⟨?_, fun other hother => table?_editTable?_of_ne hedit hn hapart hs.analysis hother⟩
  obtain ⟨t', ht'⟩ := History.exists_foldl_next (History.laterBlocks table s.files)
    (extracted ⟨table, u₀.columns, u₀.foreignKeys⟩)
  rw [table?_editTable? hedit hn hapart, ht']
  rfl

/-- A migration that creates two tables. -/
def pairMigration : SourceFile :=
  ⟨"1_tags.php", "1_tags.php",
    "Schema::create('tags',function(Blueprint $t)\x7b\x7d);"
      ++ "Schema::create('posts',function(Blueprint $t)\x7b\x7d);",
    .migration⟩

/-- The closure that creates the first of them. -/
def pairClosure : Closure := ⟨⟨.create, "tags", "t"⟩, 45, 45⟩

/-- In the example one migration creates two tables. The tags get a label, and the posts are
what they were. -/
theorem table?_run?_of_ne_posts :
    ∃ s', (ColumnEdit.add "label" .text false).run? (start [pairMigration] none) "tags" = some s'
      ∧ (s'.table? "tags").isSome = true
      ∧ s'.table? "posts" = (start [pairMigration] none).table? "posts" := by
  let e : ColumnEdit := .add "label" .text false
  let t : Table := ⟨"tags", [], []⟩
  let u : Table := ⟨"tags", [{ name := "label", type := .text }], []⟩
  have hu : e.written? t = some u := by decide +kernel
  have hn : Named u.columns u.foreignKeys := ⟨by decide +kernel, by decide +kernel⟩
  have hdecided := of_ofList_append (t := pairMigration.content)
    (p := fun cs => Makes cs t pairClosure ∧ pairClosure.Apart cs
      ∧ rewritten cs pairClosure u.columns u.foreignKeys ≠ cs)
    rfl rfl rfl (by decide +kernel)
  obtain ⟨hmakes, hapart, hne⟩ := hdecided
  obtain ⟨s', hrun, -, -⟩ := exists_run?_start rfl hmakes hu hne
  obtain ⟨hedited, hothers⟩ := table?_run?_of_ne (.start _ _) hrun
    (of_closure_start (p := fun f c => c.Apart f.content.toList) rfl hmakes hapart)
    (table?_start_singleton rfl hmakes) hu hn
  exact ⟨s', hrun, hedited, hothers "posts" (by decide)⟩

/-- Behind a quote the rest of the migration reads as a comment, and no table is left. -/
theorem lost_addColumn?_quote :
    Reachable (start [pairMigration] none)
      ∧ ((start [pairMigration] none).table? "tags").isSome = true
      ∧ ((start [pairMigration] none).table? "posts").isSome = true
      ∧ ∃ s', (start [pairMigration] none).addColumn? "tags" "'/*" .text false = some s'
        ∧ s'.table? "tags" = none ∧ s'.table? "posts" = none := by
  let t : Table := ⟨"tags", [], []⟩
  let u : Table := ⟨"tags", [{ name := "'/*", type := .text }], []⟩
  have hu : (ColumnEdit.add "'/*" .text false).written? t = some u := by decide +kernel
  -- the new body is computed: neither table has a block in it
  have hdecided := of_ofList_append (t := pairMigration.content)
    (p := fun cs => Makes cs t pairClosure
      ∧ ((blocksOf "posts" cs).foldl History.next none).isSome = true
      ∧ rewritten cs pairClosure u.columns u.foreignKeys ≠ cs
      ∧ blocksOf "tags" (rewritten cs pairClosure u.columns u.foreignKeys) = []
      ∧ blocksOf "posts" (rewritten cs pairClosure u.columns u.foreignKeys) = [])
    rfl rfl rfl (by decide +kernel)
  obtain ⟨hmakes, hposts, hne, htagsNew, hpostsNew⟩ := hdecided
  obtain ⟨s', hrun, hanalysis, hstory⟩ := exists_run?_start rfl hmakes hu hne
  have htags : (start [pairMigration] none).table? "tags" = some t :=
    table?_start_singleton rfl hmakes
  refine ⟨.start _ _, by rw [htags]; rfl, ?_, s', hrun, ?_, ?_⟩
  · rw [table?_eq_foldl_story rfl]
    show ((History.story "posts" [pairMigration]).foldl History.next none).isSome = true
    rw [story_singleton rfl]
    exact hposts
  · rw [table?_eq_foldl_story hanalysis, hstory, htagsNew]
    rfl
  · rw [table?_eq_foldl_story hanalysis, hstory, hpostsNew]
    rfl

end Session

end SchemaAtlas
