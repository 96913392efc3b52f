import SchemaAtlas.Proofs.Migration.Apart
import SchemaAtlas.Proofs.Session.Rewrite

/-!
# `SchemaAtlas.Proofs.Session.Direction`: which creation of a table an edit rewrites

An edit goes to the migration that creates the table on its way forward. What it
rewrites there is the first block that creates the table, whichever way the block goes
(`exists_rewrites_editTable?`). That is the block that the table is made of unless a
block of the way back creates the table in front of it. Then the edit is done, the
way back is rewritten, and the table stays as it was (`rewrites_back`).
-/

set_option autoImplicit false

namespace SchemaAtlas

open Migration Scan

namespace Migration

/-- Holds of a block that creates the table, on the way forward or back. -/
def Block.makes (table : String) (b : Block) : Bool :=
  b.kind == .create && b.table == table

/-- Blocks stand one behind the other, in the order in which their bodies start. -/
theorem pairwise_blocks (text : String) :
    (blocks text).Pairwise fun b d => b.bodyStart < d.bodyStart :=
  List.pairwise_map.mpr (pairwise_closures (mask text.toList))

/-- The first closure that creates the table is the first block that makes it, whether it
belongs to the way forward or not. -/
theorem find?_blocks {text table : String} {c : Closure}
    (hc : creation? table (closures text) = some c) :
    (blocks text).find? (Block.makes table)
      = some (c.block (mask text.toList) (downSpan? (mask text.toList))) := by
  have hclosures : (closuresOfMasked (mask text.toList)).find?
      (fun c => c.kind == .create && c.table == table)
      = some c := hc
  rw [blocks, List.find?_map]
  show ((closuresOfMasked (mask text.toList)).find? fun c =>
    c.kind == .create && c.table == table).map _ = _
  rw [hclosures, Option.map_some]

/-- The first block that creates a table goes forward if all that go back stand behind the
first that goes forward. -/
theorem reverse_eq_false_iff {text table : String} {b d : Block}
    (hb : (blocks text).find? (Block.makes table) = some b)
    (hd : (blocks text).find? (fun d => d.makes table && !d.reverse) = some d) :
    (b.reverse = false ↔ b = d)
      ∧ (b.reverse = false
        ↔ ∀ r ∈ blocks text, r.makes table = true → r.reverse = true →
          d.bodyStart < r.bodyStart) := by
  obtain ⟨hmakes, before, after, hcut, hbefore⟩ := List.find?_eq_some_iff_append.mp hb
  -- in front of the first block that creates the table there is none that goes forward either
  have hfront : before.find? (fun d => d.makes table && !d.reverse) = none :=
    List.find?_eq_none.mpr fun r hr =>
      by simpa using fun hr' => absurd hr' (by simpa using hbefore r hr)
  have hd' : (b :: after).find? (fun d => d.makes table && !d.reverse) = some d := by
    rwa [hcut, List.find?_append, hfront, Option.none_or] at hd
  have hdMem : d ∈ b :: after := List.mem_of_find?_eq_some hd'
  have hdForward : d.reverse = false := by
    have hfound := List.find?_some hd
    simp only [Bool.and_eq_true, Bool.not_eq_true'] at hfound
    exact hfound.2
  -- and all others stand behind it
  have hbehind : ∀ r ∈ after, b.bodyStart < r.bodyStart := by
    have hsorted := pairwise_blocks text
    rw [hcut, List.pairwise_append, List.pairwise_cons] at hsorted
    exact hsorted.2.1.1
  have hsame : b.reverse = false ↔ b = d := by
    refine ⟨fun hforward => ?_, fun heq => heq ▸ hdForward⟩
    rw [List.find?_cons_of_pos (by simp [hmakes, hforward])] at hd'
    exact Option.some.inj hd'
  refine ⟨hsame, fun hforward r hr hrMakes hrBack => ?_, fun hall => ?_⟩
  · obtain rfl := hsame.mp hforward
    rw [hcut, List.mem_append, List.mem_cons] at hr
    obtain hr | rfl | hr := hr
    · exact absurd hrMakes (by simpa using hbefore r hr)
    · exact absurd hforward (by simp [hrBack])
    · exact hbehind r hr
  · -- a first block of the way back would stand behind the one that goes forward
    by_contra hback
    have hlt := hall b (List.mem_of_find?_eq_some hb) hmakes (by simpa using hback)
    obtain rfl | hd' := List.mem_cons.mp hdMem
    · exact Nat.lt_irrefl _ hlt
    · exact Nat.lt_asymm hlt (hbehind d hd')

end Migration

namespace Session

/-- Holds of sessions before and after the body of a block of a file was exchanged for
another. -/
def Rewrites (s s' : Session) (f : SourceFile) (b : Block) : Prop :=
  ∃ i body, s.files[i]? = some f ∧ s'.files = s.files.set i (f.withContent (String.ofList
    (f.content.toList.take b.bodyStart ++ body ++ f.content.toList.drop b.bodyEnd)))

/-- What stands in front of the body that is rewritten stays as it was, character by
character. -/
theorem take_of_rewrites_start {f : SourceFile} {text : String} {root : Option Place}
    {s' : Session} {b : Block}
    (h : (start [f] root).Rewrites s' f b) (hfiles : s'.files = [f.withContent text])
    (hle : b.bodyStart ≤ f.content.toList.length) :
    text.toList.take b.bodyStart = f.content.toList.take b.bodyStart := by
  obtain ⟨i, body, hi, hset⟩ := h
  obtain rfl : i = 0 := Nat.lt_one_iff.mp (List.getElem?_eq_some_iff.mp hi).1
  obtain rfl : text = String.ofList _ :=
    congrArg SourceFile.content (List.cons.inj (hfiles.symm.trans hset)).1
  rw [String.toList_ofList, List.append_assoc, List.take_left' (List.length_take_of_le hle)]

/-- The block that a table is made of first is the first that creates it on the way forward
of the migration to which an edit goes. -/
theorem find?_story_of_creator? {s : Session} {table : String} {f : SourceFile} {i : Nat}
    (h : s.creator? table = some (f, i)) :
    ∃ d, (History.story table s.files).find? (fun b => b.kind == .create) = some d
      ∧ (blocks f.content).find? (fun b => b.makes table && !b.reverse) = some d := by
  obtain ⟨hcreates, before, after, hbefore, hcut, -⟩ := exists_cut_of_creator? h
  have hpart : ∀ bs : List Block,
      (bs.filter fun b => !b.reverse && b.table == table).find? (fun b => b.kind == .create)
        = bs.find? fun b => b.makes table && !b.reverse := by
    intro bs
    rw [List.find?_filter]
    congr 1
    funext b
    rw [Block.makes]
    cases b.kind == .create <;> cases b.table == table <;> cases b.reverse <;> rfl
  -- the migrations before this one have no part in the search
  have hnone : (History.blocksFor table before).find? (fun b => b.kind == .create) = none := by
    rw [History.blocksFor, hpart, List.find?_eq_none]
    intro b hb hmade
    obtain ⟨g, hg, hb⟩ := List.mem_flatMap.mp hb
    have hnot := hbefore g hg
    simp only [creates, List.any_eq_false, Bool.and_eq_true] at hnot
    simp only [Block.makes, Bool.and_eq_true] at hmade
    exact hnot b hb ⟨⟨hmade.1.1, hmade.2⟩, hmade.1.2⟩
  have hsome : ∃ d, (blocks f.content).find? (fun b => b.makes table && !b.reverse) = some d := by
    obtain ⟨b, hb, hmade⟩ := List.any_eq_true.mp hcreates
    simp only [Bool.and_eq_true] at hmade
    exact Option.isSome_iff_exists.mp (List.find?_isSome.mpr ⟨b, hb, by
      simp only [Block.makes, Bool.and_eq_true]
      exact ⟨⟨hmade.1.1, hmade.2⟩, hmade.1.2⟩⟩)
  obtain ⟨d, hd⟩ := hsome
  refine ⟨d, ?_, hd⟩
  rw [History.story, hcut, History.blocksFor_append, History.blocksFor_cons, List.find?_append,
    hnone, Option.none_or, List.find?_append, hpart, hd, Option.some_or]

/-- An edit of a table rewrites the body of the first block that creates the table in the
migration it goes to. -/
theorem exists_find?_blocks_editTable? {s s' : Session} {table : String} {columns : List Column}
    {fks : List ForeignKey} (h : s.editTable? table columns fks = some s') :
    ∃ f i b, s.creator? table = some (f, i) ∧ (blocks f.content).find? (Block.makes table)
      = some b
      ∧ s.Rewrites s' f b := by
  obtain ⟨f, i, c, hcreator, hc, hfiles, -⟩ := exists_files_editTable? h
  have htext : writeBack f.content table columns fks
      = String.ofList (rewritten f.content.toList c columns fks) := by
    rw [← toList_writeBack hc, String.ofList_toList]
  rw [htext, rewritten, ← List.append_assoc] at hfiles
  exact ⟨f, i, _, hcreator, find?_blocks hc, i, _, getElem?_of_creator? hcreator, hfiles⟩

/-- An edit of a table rewrites the body of the first block that creates the table in the
migration it goes to. This is the block that the table is made of if it goes forward,
and it goes forward unless a block of the way back creates the table in front of that one. -/
theorem exists_rewrites_editTable? {s s' : Session} {table : String} {columns : List Column}
    {fks : List ForeignKey} (h : s.editTable? table columns fks = some s') :
    ∃ f i b d, s.creator? table = some (f, i)
      ∧ (blocks f.content).find? (Block.makes table) = some b ∧ s.Rewrites s' f b
      ∧ (History.story table s.files).find? (fun b => b.kind == .create) = some d
      ∧ d ∈ blocks f.content
      ∧ (b.reverse = false ↔ b = d)
      ∧ (b.reverse = false
        ↔ ∀ r ∈ blocks f.content, r.makes table = true → r.reverse = true →
          d.bodyStart < r.bodyStart) := by
  obtain ⟨f, i, b, hcreator, hb, hrewrites⟩ := exists_find?_blocks_editTable? h
  obtain ⟨d, hstory, hd⟩ := find?_story_of_creator? hcreator
  obtain ⟨hsame, hfirst⟩ := reverse_eq_false_iff hb hd
  exact ⟨f, i, b, d, hcreator, hb, hrewrites, hstory, List.mem_of_find?_eq_some hd, hsame, hfirst⟩

/-! ### One migration, either way round -/

/-- A method that creates a table on the way forward. -/
def tagsUp : String :=
  "function up()\x7bSchema::create('tags',function(Blueprint $t)\x7b$t->id();\x7d);\x7d"

/-- A method that creates the same table on the way back. -/
def tagsDown : String :=
  "function down()\x7bSchema::create('tags',function(Blueprint $t)\x7b$t->id();\x7d);\x7d"

/-- The migration that goes forward first. -/
def upFirst : SourceFile := ⟨"1_tags.php", "1_tags.php", tagsUp ++ tagsDown, .migration⟩

/-- The migration that goes back first. -/
def downFirst : SourceFile := ⟨"1_tags.php", "1_tags.php", tagsDown ++ tagsUp, .migration⟩

/-- The edit of a migration that goes forward first rewrites the way forward, although its
way back makes the table as well. -/
theorem exists_rewrites_editTable?_upFirst :
    ∃ s' columns fks b, (start [upFirst] none).editTable? "tags" columns fks = some s'
      ∧ (start [upFirst] none).Rewrites s' upFirst b ∧ b ∈ blocks upFirst.content
      ∧ b.reverse = false
      ∧ ∃ r ∈ blocks upFirst.content, r.makes "tags" = true ∧ r.reverse = true := by
  let id : Column := { name := "id", type := .id, isPrimary := true }
  let label : Column := { name := "label", type := .text }
  let t : Table := ⟨"tags", [id], []⟩
  let c : Closure := ⟨⟨.create, "tags", "t"⟩, 59, 68⟩
  -- all that is read of the migration
  have hdecided := of_ofList_append (t := upFirst.content)
    (p := fun cs =>
      let all := (closuresOfMasked (mask cs)).map (Closure.block (mask cs) (downSpan? (mask cs)))
      Makes cs t c ∧ rewritten cs c [id, label] [] ≠ cs
        ∧ (∃ r ∈ all, r.makes "tags" = true ∧ r.reverse = true)
        ∧ ∀ d ∈ (blocksOf "tags" cs).find? (fun b => b.kind == .create), ∀ r ∈ all,
          r.makes "tags" = true → r.reverse = true → d.bodyStart < r.bodyStart)
    rfl rfl rfl (by decide +kernel)
  obtain ⟨hmakes, hne, hback, hbehind⟩ := hdecided
  have hu : (ColumnEdit.add "label" .text false).written? t
      = some { t with columns := [id, label] } := by
    decide +kernel
  obtain ⟨s', hrun, -⟩ := exists_run?_start rfl hmakes hu hne
  obtain ⟨_, u, -, -, hedit⟩ := exists_written?_of_run? hrun
  obtain ⟨f, i, b, d, hcreator, hb, hrewrites, hd, -, -, hforward⟩ :=
    exists_rewrites_editTable? hedit
  rw [creator?_start_singleton rfl hmakes] at hcreator
  obtain ⟨rfl, rfl⟩ := Prod.mk.inj (Option.some.inj hcreator)
  have hstory : (blocksOf "tags" upFirst.content.toList).find? (fun b => b.kind == .create)
      = some d := by
    rw [← story_singleton rfl]
    exact hd
  exact ⟨s', u.columns, u.foreignKeys, b, hedit, hrewrites, List.mem_of_find?_eq_some hb,
    hforward.mpr (hbehind d hstory), hback⟩

/-- The edit of a migration that goes back first is done, and rewrites no block that goes
forward. The table is what it was. -/
theorem rewrites_back :
    ∃ s', (ColumnEdit.add "label" .text false).run? (start [downFirst] none) "tags" = some s'
      ∧ (∃ b ∈ blocks downFirst.content, b.reverse = true
        ∧ (start [downFirst] none).Rewrites s' downFirst b)
      ∧ (∀ b ∈ blocks downFirst.content, b.makes "tags" = true → b.reverse = false →
        ¬(start [downFirst] none).Rewrites s' downFirst b)
      ∧ s'.table? "tags" = (start [downFirst] none).table? "tags" := by
  let id : Column := { name := "id", type := .id, isPrimary := true }
  let label : Column := { name := "label", type := .text }
  let t : Table := ⟨"tags", [id], []⟩
  let c : Closure := ⟨⟨.create, "tags", "t"⟩, 61, 70⟩
  -- what is written differs in front of the block that goes forward
  have hdecided := of_ofList_append (t := downFirst.content)
    (p := fun cs =>
      let all := (closuresOfMasked (mask cs)).map (Closure.block (mask cs) (downSpan? (mask cs)))
      Makes cs t c ∧ rewritten cs c [id, label] [] ≠ cs
        ∧ (all.find? (Block.makes "tags")).any Block.reverse = true
        ∧ (∀ b ∈ all, b.makes "tags" = true → b.reverse = false → b.bodyStart ≤ cs.length
          ∧ (rewritten cs c [id, label] []).take b.bodyStart ≠ cs.take b.bodyStart)
        ∧ (blocksOf "tags" (rewritten cs c [id, label] [])).foldl History.next none = some t)
    rfl rfl rfl (by decide +kernel)
  obtain ⟨hmakes, hne, hback, hdiffers, htable⟩ := hdecided
  have hu : (ColumnEdit.add "label" .text false).written? t
      = some { t with columns := [id, label] } := by
    decide +kernel
  have ht : (start [downFirst] none).table? "tags" = some t := table?_start_singleton rfl hmakes
  obtain ⟨s', hrun, hanalysis, hstory⟩ := exists_run?_start rfl hmakes hu hne
  have hcreator : (start [downFirst] none).creator? "tags" = some (downFirst, 0) :=
    creator?_start_singleton rfl hmakes
  obtain ⟨t', u', ht', hu', hedit⟩ := exists_written?_of_run? hrun
  obtain rfl := Option.some.inj (ht.symm.trans ht')
  obtain rfl := Option.some.inj (hu.symm.trans hu')
  refine ⟨s', hrun, ?_, fun b hb hmade hforward => ?_, ?_⟩
  · obtain ⟨f, i, b, hcreator', hb, hrewrites⟩ := exists_find?_blocks_editTable? hedit
    obtain ⟨rfl, rfl⟩ := Prod.mk.inj (Option.some.inj (hcreator.symm.trans hcreator'))
    refine ⟨b, List.mem_of_find?_eq_some hb, ?_, hrewrites⟩
    have hfirst : ((blocks downFirst.content).find? (Block.makes "tags")).any Block.reverse
        = true := hback
    rwa [hb] at hfirst
  · intro hrewrites
    obtain ⟨f, i, d, hcreator', hc, hfiles, -⟩ := exists_files_editTable? hedit
    obtain ⟨rfl, rfl⟩ := Prod.mk.inj (Option.some.inj (hcreator.symm.trans hcreator'))
    obtain rfl : c = d := Option.some.inj (hmakes.closure.symm.trans hc)
    obtain ⟨hle, hne⟩ := hdiffers b hb hmade hforward
    have hfront := take_of_rewrites_start hrewrites hfiles hle
    rw [toList_writeBack hc] at hfront
    exact hne hfront
  · rw [ht, table?_eq_foldl_story hanalysis, hstory]
    exact htable

end Session

end SchemaAtlas
