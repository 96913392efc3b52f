import SchemaAtlas.Proofs.Migration.Extracted

/-!
# `SchemaAtlas.Proofs.Migration.Rewritten`: writing back into a migration that is made here

A table that is written back into its own migration gives the migration of the
new table, letter by letter (`writeBack_source`): the new lines are indented like
the old ones, and the brace behind them like the line that opens the closure. The
names of the old table must not hide its closure; those of the new one may be any.
-/

set_option autoImplicit false

namespace SchemaAtlas.Migration

open SchemaAtlas.Scan SchemaAtlas.Text

/-! ### Indentation -/

/-- The last line of a text is what follows its last line break, so its indentation is read
off that part alone. -/
theorem lastLineIndent_append (x : List Char) {y : List Char} (h : '\n' ∉ y) :
    lastLineIndent (x ++ '\n' :: y) = y.takeWhile isIndent := by
  have hline : (x ++ '\n' :: y).reverse.takeWhile (fun c => c != '\n') = y.reverse := by
    rw [List.reverse_append, List.reverse_cons, List.append_assoc, List.takeWhile_append_of_pos]
    · simp
    · intro c hc
      rw [bne_iff_ne]
      rintro rfl
      exact h (List.mem_reverse.mp hc)
  rw [lastLineIndent, hline, List.reverse_reverse]

/-- An indentation has only characters that count as such, so all of it is taken when an
indentation is read. -/
theorem isIndent_of_indent {x : List Char} (hx : Indent x) : ∀ c ∈ x, isIndent c = true := by
  intro c hc
  rcases hx c hc with rfl | rfl
  · decide
  · decide

/-- The first line of a body tells how its lines are indented, if it has any lines. So a
body that is written again keeps its indentation. -/
theorem find?_indentedLine_bodyText {builder : String} {indent close : List Char}
    {calls : List Call}
    (h : IsBody builder indent close calls) (hne : calls ≠ []) :
    (find? indentedLine (bodyText builder indent close calls)).map Match.value = some indent := by
  obtain ⟨c, rest, rfl⟩ := List.exists_cons_of_ne_nil hne
  obtain ⟨r, hr⟩ : ∃ r,
    bodyText builder indent close (c :: rest) = ('\n' :: indent ++ ['$']) ++ r := by
    refine ⟨(c.text builder).tail ++ ['\n'] ++ (linesText builder indent rest ++ close), ?_⟩
    simp [bodyText, bodyText_cons, lineText, Call.text]
  have hline : indentedLine (('\n' :: indent ++ ['$']) ++ r) = some (indent, r) := by
    have hcut : ('\n' :: indent ++ ['$']) ++ r = '\n' :: (indent ++ '$' :: r) := by simp
    have htake : (indent ++ '$' :: r).takeWhile isIndent = indent := by
      rw [List.takeWhile_append_of_pos (isIndent_of_indent h.indent)]
      simp [isIndent]
    have hdrop : (indent ++ '$' :: r).dropWhile isIndent = '$' :: r := by
      rw [List.dropWhile_append_of_pos (isIndent_of_indent h.indent)]
      simp [isIndent]
    rw [hcut, indentedLine, Scan.char, if_pos rfl]
    simp only [Option.bind_eq_bind, Option.bind_some, hdrop, htake]
    rfl
  rw [find?, hr, findFrom_of_match hline (by simp)]
  rfl

/-! ### A migration at its closure -/

section Source

variable {t : Table}

/-- What comes before the body of a migration's closure. -/
def sourceFront (table : String) : List Char :=
  importCode.toList ++ (upRemark.toList ++ (upCode.toList ++ createText table))

/-- What comes behind it. -/
def sourceRest (table : String) : List Char :=
  closeCode.toList
    ++ (downRemark.toList ++ ("    public ".toList ++ (downText.toList ++ dropText table)))

/-- A migration that creates a table falls into what comes before the body, the body, and
what comes behind it. -/
theorem toList_source_eq (t : Table) :
    (source t).toList = sourceFront t.name ++ (sourceBody t ++ sourceRest t.name) := by
  rw [toList_source, sourceFront, sourceRest]
  simp only [List.append_assoc]

/-- What comes before the body is as long as the place where the closure's body starts. -/
theorem length_sourceFront (t : Table) :
    (sourceFront t.name).length = (sourceClosure t 0).bodyStart := by
  have hremark : (mask upRemark.toList).length = upRemark.toList.length := length_maskFrom _ _
  simp only [sourceFront, sourceClosure, maskedFront, List.length_append, hremark]
  omega

/-- The brace of the closure stands on a line that is indented by eight blanks, whatever the
table is called. -/
theorem lastLineIndent_sourceFront (h : isName t.name = true) :
    lastLineIndent ((source t).toList.take ((sourceClosure t 0).bodyStart - 1))
      = "        ".toList := by
  let line := createBegin.toList
    ++ ((t.name.toList ++ ['\'']) ++ ", function (Blueprint $table) ".toList)
  let before :=
    importCode.toList ++ (upRemark.toList ++ "    public function up(): void\n    \x7b".toList)
  have hup : upCode.toList = "    public function up(): void\n    \x7b".toList ++ '\n'
      :: "        ".toList :=
    rfl
  have hend : createEnd.toList = ", function (Blueprint $table) ".toList ++ ['{'] := rfl
  have hfront : sourceFront t.name = (before ++ '\n' :: ("        ".toList ++ line))
      ++ ['{'] := by
    simp only [sourceFront, createText, hup, hend, before, line, List.append_assoc,
      List.cons_append]
  have htake : (source t).toList.take ((sourceClosure t 0).bodyStart - 1)
      = before ++ '\n' :: ("        ".toList ++ line) := by
    rw [← length_sourceFront, toList_source_eq, hfront, List.length_append, List.length_singleton,
      Nat.add_sub_cancel, List.append_assoc (before ++ '\n' :: ("        ".toList ++ line)),
      List.take_left]
  have hbreak : '\n' ∉ "        ".toList ++ line := by
    have hname : '\n' ∉ t.name.toList := notMem_of_isName h (by decide)
    have hfixed : '\n' ∉ "        ".toList ++ (createBegin.toList ++ (['\'']
        ++ ", function (Blueprint $table) ".toList)) := by
      decide +kernel
    simp only [line, List.mem_append, not_or] at hfixed ⊢
    exact ⟨hfixed.1, hfixed.2.1, ⟨hname, hfixed.2.2.1⟩, hfixed.2.2.2⟩
  rw [htake, lastLineIndent_append _ hbreak]
  rfl

section Spelled

variable (h : Spelled t)

include h

/-- The migration that creates a table has one closure. The method that undoes it drops the
table without one. -/
theorem closures_source : closures (source t) = [sourceClosure t 0] := by
  have hmask : mask (source t).toList = maskedSource t := by
    have hmasks := masks_source h []
    rwa [List.append_nil, show mask [] = [] from rfl, List.append_nil] at hmasks
  have hclose := filterMap_close?_source h 0 []
  rw [List.append_nil] at hclose
  rw [closures, closuresOfMasked, findAll, hmask, hclose]
  rfl

/-- New statements in such a migration are indented like the old, so the new body is the one
that a fresh migration would have. -/
theorem newBody_source (columns : List Column) (fks : List ForeignKey) :
    newBody (source t).toList (sourceClosure t 0) columns fks
      = sourceBody ⟨t.name, columns, fks⟩ := by
  have hbody : ((source t).toList.take (sourceClosure t 0).bodyEnd).drop
      (sourceClosure t 0).bodyStart
      = sourceBody t := by
    have hend : (sourceClosure t 0).bodyEnd = (sourceFront t.name ++ sourceBody t).length := by
      rw [List.length_append, length_sourceFront]
      rfl
    rw [hend, toList_source_eq, ← List.append_assoc, List.take_left, ← length_sourceFront,
      List.drop_left]
  have hindent := find?_indentedLine_bodyText (isBody_source h) (tableCalls_ne_nil _ _)
  rw [newBody, hbody, lastLineIndent_sourceFront h.name, sourceBody, hindent, Option.getD_some]
  show '\n' :: (statementLines (String.ofList "            ".toList)
    (tableStatements usualBuilder columns fks)).toList
    ++ "        ".toList = _
  rw [toList_statementLines]
  rfl

/-- A table that is written back into its own migration gives the text of the migration
of the new table. -/
theorem toList_writeBack_source (columns : List Column) (fks : List ForeignKey) :
    (writeBack (source t) t.name columns fks).toList
      = (source ⟨t.name, columns, fks⟩).toList := by
  have hcreation : creation? t.name (closures (source t)) = some (sourceClosure t 0) := by
    rw [closures_source h]
    simp [creation?, sourceClosure]
  have hend : (sourceClosure t 0).bodyEnd = (sourceFront t.name ++ sourceBody t).length := by
    rw [List.length_append, length_sourceFront]
    rfl
  have htake : (source t).toList.take (sourceClosure t 0).bodyStart = sourceFront t.name := by
    rw [← length_sourceFront, toList_source_eq, List.take_left]
  have hdrop : (source t).toList.drop (sourceClosure t 0).bodyEnd = sourceRest t.name := by
    rw [hend, toList_source_eq, ← List.append_assoc, List.drop_left]
  rw [toList_writeBack hcreation, rewritten, htake, hdrop, newBody_source h, toList_source_eq]

end Spelled

end Source

/-- Let a table have a name, and its columns and the targets of its foreign keys be called
by nothing but the characters of names. Then any columns and foreign keys that are written
back into its migration give the migration that the table has with them. -/
theorem writeBack_source {table : String} {columns : List Column} {fks : List ForeignKey}
    (hname : isName table = true) (hcolumns : ∀ c ∈ columns, c.name.toList.all isWord = true)
    (htargets : ∀ fk ∈ fks, fk.target.toList.all isWord = true) (newColumns : List Column)
    (newFks : List ForeignKey) :
    writeBack (source ⟨table, columns, fks⟩) table newColumns newFks
      = source ⟨table, newColumns, newFks⟩ := by
  have hworded : Worded columns fks := by
    refine ⟨fun c hc => ?_, fun fk hfk => ?_⟩
    · rintro _ ⟨⟩
      exact List.all_eq_true.mp (hcolumns c hc)
    · rintro _ ⟨⟩
      exact List.all_eq_true.mp (htargets fk hfk)
  have hspelled : Spelled ⟨table, columns, fks⟩ := ⟨hname, hworded⟩
  exact String.toList_inj.mp (toList_writeBack_source hspelled newColumns newFks)

/-- Tags with a label are written over with a column and a target that are no names. -/
theorem writeBack_source_tags :
    writeBack (source ⟨"tags", [{ name := "label", type := .string }], [⟨"owner_id", "users"⟩]⟩)
      "tags"
        [{ name := "it's", type := .text }] [⟨"it's", "a b"⟩]
      = source ⟨"tags", [{ name := "it's", type := .text }], [⟨"it's", "a b"⟩]⟩ :=
  writeBack_source (by decide) (by decide) (by decide) _ _

/-! ### What a migration says -/

section Writable

variable {t : Table} (h : Writable t)

include h

/-- A migration is read as one block. It creates the extracted table, with the columns and
the foreign keys that its statements declare. -/
theorem exists_blocks_source_eq : ∃ b, blocks (source t) = [b] ∧ b.unplaced = sourceBlock t := by
  have hall : ∀ u ∈ [t], Writable u := by
    intro u hu
    rwa [List.mem_singleton.mp hu]
  have hblocks := unplaced_blocks_intercalate hall
  rw [List.map_singleton, List.map_singleton] at hblocks
  obtain ⟨b, hb, hunplaced⟩ := List.map_eq_singleton_iff.mp hblocks
  exact ⟨b, by simpa using hb, hunplaced⟩

/-- The block of a migration has the extracted columns and foreign keys of the table, under
the table's name. -/
theorem extracted_of_blocks_source {b : Block} (hb : blocks (source t) = [b]) :
    (⟨b.table, b.columns, b.foreignKeys⟩ : Table) = extracted t := by
  obtain ⟨b', hb', hunplaced⟩ := exists_blocks_source_eq h
  obtain rfl : b = b' := List.singleton_inj.mp (hb.symm.trans hb')
  exact congrArg (fun b : Block => (⟨b.table, b.columns, b.foreignKeys⟩ : Table)) hunplaced

end Writable

end SchemaAtlas.Migration
