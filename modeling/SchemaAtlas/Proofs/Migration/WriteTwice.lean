import SchemaAtlas.Proofs.Migration.Rewritten

/-!
# `SchemaAtlas.Proofs.Migration.WriteTwice`: writing back twice

To write a table back a second time changes nothing more (`writeBack_writeBack`),
whatever the body was like at first: it may have had closures of its own in it,
comments, or no lines at all.

The second run reads a text that the first one wrote. It finds the closure that
the first found (`creation?_writeBack`). No closure in front of it has come to be
closed, since the old body and the new one are the same to the search for a closing
brace: each opens as many braces as it closes and leaves no string open. And it
indents the new lines as the first did (`newBody_writeBack`), whose lines they are.
-/

set_option autoImplicit false

namespace SchemaAtlas.Migration

open SchemaAtlas.Scan SchemaAtlas.Text

section WriteBack

variable {text table : String} {columns : List Column} {fks : List ForeignKey} {t : Closure}

/-! ### The closure is found again -/

/-- The first closure that creates the table is still the first, around the new body. -/
theorem creation?_writeBack (hcode : OpensInCode text.toList)
    (ht : creation? table (closures text) = some t) (h : Named columns fks) :
    creation? table (closures (writeBack text table columns fks))
      = some { t with bodyEnd := t.bodyStart + (newBody text.toList t columns fks).length } := by
  obtain ⟨p⟩ := nonempty_pieces hcode ht h
  obtain ⟨hold, hnew⟩ := p.length_eq
  have hbefore := p.length_before.trans p.start
  have hclosures : closures text = _ := p.mask_text ▸
    closuresOfMasked_append_of_firm p.firm p.inert_old p.outside p.maskedAfter
  have hclosuresNew : closures (writeBack text table columns fks) = _ := p.mask_new ▸
    closuresOfMasked_append_of_firm p.firm p.inert_written p.outside p.maskedAfter
  -- the closure is one of those behind the heads in front of the body, since it begins there
  have hfront : creation? table ((findAll head p.maskedBefore).filterMap
      (closeAround p.maskedAfter (p.maskedBefore.length + p.maskedOld.length))) = some t := by
    rw [hclosures, creation?, List.find?_append, Option.or_eq_some_iff] at ht
    refine ht.resolve_right fun hlater => ?_
    have hlt := lt_bodyStart_of_findAllFrom (List.mem_of_find?_eq_some hlater.2)
    omega
  -- these are the same but for where they end
  rw [hclosuresNew, filterMap_closeAround (n := p.maskedBefore.length + p.maskedOld.length)
    (by omega) p.after.length, creation?, List.find?_append, List.find?_map]
  show ((creation? table _).map _).or _ = _
  rw [hfront, Option.map_some, Option.some_or, ← p.written_eq ht]
  have hstop : p.maskedBefore.length + p.maskedOld.length = t.bodyEnd := by
    rw [p.length_before, p.length_old, p.stop]
  have hend : t.bodyEnd + (t.bodyStart + p.written.length + p.after.length)
      - (t.bodyEnd + p.after.length)
      = t.bodyStart + p.written.length := by omega
  rw [Closure.shifted, hstop, hbefore, if_neg (fun hmove => hmove.2 rfl),
    if_pos (Nat.le_refl _), hend]

/-! ### The lines are indented alike -/

/-- The second new body is the first: the indentation of its lines and of its closing brace
is read off the text that the first one left. -/
theorem newBody_writeBack (hcode : OpensInCode text.toList)
    (ht : creation? table (closures text) = some t) (h : Named columns fks) :
    newBody (writeBack text table columns fks).toList
        { t with bodyEnd := t.bodyStart + (newBody text.toList t columns fks).length } columns fks
      = newBody text.toList t columns fks := by
  obtain ⟨p⟩ := nonempty_pieces hcode ht h
  have hbuilder := isName_builder_of_mem (List.mem_of_find?_eq_some ht)
  -- the brace stands on the line on which it stood
  have hcut : ∀ l : List Char,
      l.take (t.bodyStart - 1) = (l.take t.bodyStart).take (t.bodyStart - 1) := by
    intro l
    rw [List.take_take, Nat.min_eq_left (Nat.sub_le _ _)]
  have hline : (writeBack text table columns fks).toList.take (t.bodyStart - 1)
      = text.toList.take (t.bodyStart - 1) := by
    rw [hcut, p.take_new, hcut text.toList, p.take_text]
  -- and behind it there are the lines of the first run
  have hbody :
      ((writeBack text table columns fks).toList.take (t.bodyStart + p.written.length)).drop
      t.bodyStart
      = p.written := by
    have hnew :=
      congrArg (fun l => (l.take (p.before ++ p.written).length).drop p.before.length) p.new_eq
    rwa [← List.append_assoc, List.take_left, List.drop_left, List.length_append, p.start] at hnew
  have hindent : bodyIndent (writeBack text table columns fks).toList
      { t with bodyEnd := t.bodyStart + p.written.length } = bodyIndent text.toList t := by
    have hfound := find?_indentedLine_bodyText (isBody_newBody hbuilder h text.toList)
      (tableCalls_ne_nil columns fks)
    rw [← newBody_eq_bodyText, ← p.written_eq ht, ← hbody] at hfound
    rw [bodyIndent, hfound, Option.getD_some]
  rw [← p.written_eq ht, newBody_eq_bodyText, hindent, hline, p.written_eq ht,
    newBody_eq_bodyText]

/-! ### Twice is once -/

/-- Writing a table back a second time changes nothing, if every closure opens its brace
outside of strings. -/
theorem writeBack_writeBack (text table : String) (columns : List Column) (fks : List ForeignKey)
    (hcode : OpensInCode text.toList) (h : Named columns fks) :
    writeBack (writeBack text table columns fks) table columns fks
      = writeBack text table columns fks := by
  cases ht : creation? table (closures text) with
  | none =>
      have hsame : writeBack text table columns fks = text := by rw [writeBack, ht]
      rw [hsame, hsame]
  | some t =>
      obtain ⟨p⟩ := nonempty_pieces hcode ht h
      refine String.toList_inj.mp ?_
      rw [toList_writeBack (creation?_writeBack hcode ht h), rewritten,
        newBody_writeBack hcode ht h, ← p.written_eq ht, p.take_new, p.drop_new, ← p.new_eq]

end WriteBack

/-- A migration whose first closure is left open, and whose second one has a third in it. -/
def openTags : String :=
  "// Tags aren't closed.\nSchema::create('tags', function (Blueprint $a) \x7b\n\tSchema::create('tags', "
    ++ "function ($b) \x7b // it's\n\t\tSchema::table('a', function ($c) \x7b\x7d);\n\t\x7d);\n"

/-- In a migration whose outer closure is never closed, the tags are created in the one
inside. Writing them back changes the text once, and leaves it alone when done again. -/
theorem writeBack_writeBack_openTags :
    let columns : List Column := [⟨"label", .string, false, false, false⟩]
    OpensInCode openTags.toList ∧ Named columns []
      ∧ creation? "tags" (closures openTags) = some ⟨⟨.create, "tags", "b"⟩, 111, 161⟩
      ∧ writeBack openTags "tags" columns [] ≠ openTags
      ∧ writeBack (writeBack openTags "tags" columns []) "tags" columns []
        = writeBack openTags "tags" columns [] := by
  intro columns
  have hnamed : Named columns [] := by decide
  have hdecided := of_ofList_append (t := openTags)
    (p := fun cs => OpensInCode cs
      ∧ creation? "tags" (closuresOfMasked (mask cs)) = some ⟨⟨.create, "tags", "b"⟩, 111, 161⟩
      ∧ rewritten cs ⟨⟨.create, "tags", "b"⟩, 111, 161⟩ columns [] ≠ cs)
    rfl rfl rfl (by decide +kernel)
  obtain ⟨hcode, ht, hchanges⟩ := hdecided
  refine ⟨hcode, hnamed, ht, fun hsame => ?_,
    writeBack_writeBack openTags "tags" columns [] hcode hnamed⟩
  rw [← toList_writeBack ht, hsame] at hchanges
  exact hchanges rfl

end SchemaAtlas.Migration
