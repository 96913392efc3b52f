import SchemaAtlas.Proofs.Migration.WriteBack

/-!
# `SchemaAtlas.Proofs.Migration.Source`: a migration that is made here, read in a longer text

A migration that creates a table is told in pieces: code and remarks in front,
the beginning of the closure, its body, and what is behind. `maskedSource` is
the same text with its remarks blanked out, and each reader of migrations goes
through it in one step, whatever comes behind:

* `masks_source` says that its remarks and strings end inside of it.
* `filterMap_close?_source` finds its one closure.
* `block_sourceClosure` reads the statements of that closure.
* `downSpan?_source` finds its method that undoes the migration, which ends
  before the migration does.
-/

set_option autoImplicit false

namespace SchemaAtlas.Migration

open SchemaAtlas.Scan SchemaAtlas.Text

/-! ### Silent pieces -/

/-- Holds when a piece of text is masked by itself, whatever comes behind it. -/
def Masks (x masked : List Char) : Prop :=
  ∀ r, mask (x ++ r) = masked ++ mask r

/-- Two pieces that are masked by themselves are masked by themselves together, which is how
a migration is put together here. -/
theorem masks_append {x y masked masked' : List Char} (hx : Masks x masked)
    (hy : Masks y masked') : Masks (x ++ y) (masked ++ masked') := by
  intro r
  rw [List.append_assoc, hx, hy, List.append_assoc]

/-- Code without a slash is masked by itself if it ends outside of strings: no remark begins
in it, and no string reaches over its end. -/
theorem masks_of_noSlash {x : List Char} (hslash : '/' ∉ x)
    (hover : Quotes.outside.over x = .outside) : Masks x x := by
  intro r
  rw [mask, maskFrom_append_of_noSlash _ _ _ hslash, hover]
  rfl

/-- A piece of text that is masked by itself and in which neither a closure nor
a method that undoes the migration begins. -/
structure Silent (x masked : List Char) : Prop where
  masks : Masks x masked
  head : Quiet head masked
  down : Quiet downHead masked

/-- Two silent pieces give a silent one. What begins on either side of the seam would have
to begin in one of them. -/
theorem silent_append {x y masked masked' : List Char} (hx : Silent x masked)
    (hy : Silent y masked') : Silent (x ++ y) (masked ++ masked') :=
  ⟨masks_append hx.masks hy.masks, quiet_append hx.head hy.head, quiet_append hx.down hy.down⟩

/-- Holds of a text in which nothing begins that a reader of migrations looks
for: no remark, no string, no closure, no method. -/
def isSilent (x : List Char) : Bool :=
  x.all (fun c => c != '/' && !isQuote c) && clearOf "Schema::".toList x
    && clearOf "function".toList x

/-- For the fixed pieces of a migration, being silent is a check over their characters,
which can be carried out. -/
theorem silent_of_isSilent {x : List Char} (h : isSilent x = true) : Silent x x := by
  simp only [isSilent, Bool.and_eq_true, List.all_eq_true, bne_iff_ne, Bool.not_eq_true'] at h
  obtain ⟨⟨hplain, hhead⟩, hdown⟩ := h
  have hslash : '/' ∉ x := fun hm => (hplain _ hm).1 rfl
  exact ⟨masks_of_noSlash hslash (Quotes.over_outside_of_noQuote x fun c hc => (hplain c hc).2),
    quiet_of_clear leads_head hhead, quiet_of_clear leads_downHead hdown⟩

/-! ### The pieces of a migration -/

/-- The code in front of the first remark. -/
def importCode : String :=
  "<?php\n\nuse Illuminate\\Database\\Migrations\\Migration;\n"
    ++ "use Illuminate\\Database\\Schema\\Blueprint;\n"
    ++ "use Illuminate\\Support\\Facades\\Schema;\n\n"
    ++ "return new class extends Migration\n\x7b\n"

/-- The remark on the way forward. -/
def upRemark : String := "    /**\n     * Run the migrations.\n     */\n"

/-- The beginning of the way forward. -/
def upCode : String := "    public function up(): void\n    \x7b\n        "

/-- The closure that creates a table, up to the name of the table. -/
def createBegin : String := "Schema::create('"

/-- The beginning of that closure behind the name and its quote. -/
def createEnd : String := ", function (Blueprint $table) \x7b"

/-- The end of the closure and of the way forward. -/
def closeCode : String := "\x7d);\n    \x7d\n\n"

/-- The remark on the way back. -/
def downRemark : String := "    /**\n     * Reverse the migrations.\n     */\n"

/-- The beginning of the way back. -/
def downText : String := "function down(): void\n    \x7b"

/-- The way back, up to the name of the table. -/
def dropBegin : String := "\n        Schema::dropIfExists('"

/-- The way back behind the name and its quote, and the end of the code. -/
def dropEnd : String := ");\n    \x7d\n\x7d;\n"

/-- What a migration has before the statements is its fixed pieces, with the table's name
between them. -/
theorem opening_eq (table : String) :
    opening table = importCode ++ (upRemark ++ (upCode
      ++ (createBegin ++ (table ++ ("'" ++ (createEnd ++ "\n")))))) := by
  have hup : upCode = "    public function up(): void\n    \x7b\n" ++ "        " := rfl
  have hbegin : "        Schema::create('" = "        " ++ createBegin := rfl
  have hend : "', function (Blueprint $table) \x7b\n" = "'" ++ (createEnd ++ "\n") := rfl
  rw [hup]
  unfold opening importCode upRemark
  rw [hbegin, hend]
  simp only [String.append_assoc, -String.reduceAppend]

/-- What a migration has behind the statements is its fixed pieces, with the table's name
between them. -/
theorem closing_eq (table : String) :
    closing table = "        " ++ (closeCode ++ (downRemark ++ ("    public " ++ (downText
      ++ (dropBegin ++ (table ++ ("'" ++ dropEnd))))))) := by
  have hclose : "        \x7d);\n    \x7d\n\n" = "        " ++ closeCode := rfl
  have hdown : "    public function down(): void\n    \x7b\n"
      = "    public " ++ (downText ++ "\n") := rfl
  have hbegin : dropBegin = "\n" ++ "        Schema::dropIfExists('" := rfl
  have hend : "');\n    \x7d\n\x7d;\n" = "'" ++ dropEnd := rfl
  rw [hbegin]
  unfold closing downRemark
  rw [hclose, hdown, hend]
  simp only [String.append_assoc, -String.reduceAppend]

/-- The beginning of the closure that creates a table. -/
def createText (table : String) : List Char :=
  createBegin.toList ++ ((table.toList ++ ['\'']) ++ createEnd.toList)

/-- The way back, behind its opening brace, and the end of the code. -/
def dropText (table : String) : List Char :=
  dropBegin.toList ++ ((table.toList ++ ['\'']) ++ dropEnd.toList)

/-- The body of the closure. -/
def sourceBody (t : Table) : List Char :=
  bodyText usualBuilder "            ".toList "        ".toList
    (tableCalls t.columns t.foreignKeys)

/-- The migration that creates a table, in pieces. Each reader is led over these pieces one
by one. -/
theorem toList_source (t : Table) :
    (source t).toList = importCode.toList ++ (upRemark.toList ++ (upCode.toList
      ++ (createText t.name ++ (sourceBody t ++ (closeCode.toList ++ (downRemark.toList
      ++ ("    public ".toList ++ (downText.toList ++ dropText t.name)))))))) := by
  have hlines := toList_statementLines usualBuilder "            ".toList t.columns t.foreignKeys
  rw [String.ofList_toList] at hlines
  have hbreak : "\n".toList = ['\n'] := rfl
  have hquote : "'".toList = ['\''] := rfl
  rw [source, opening_eq, closing_eq, sourceBody, bodyText, createText, dropText]
  simp only [String.toList_append, hlines, hbreak, hquote, List.append_assoc, List.cons_append,
    List.nil_append]

/-- What comes before the closure, with remarks blanked out. -/
def maskedFront : List Char := importCode.toList ++ (mask upRemark.toList ++ upCode.toList)

/-- What comes between the body of the closure and the way back, with remarks
blanked out. -/
def maskedMiddle :
    List Char := closeCode.toList ++ (mask downRemark.toList ++ "    public ".toList)

/-- The migration that creates a table, with remarks blanked out. -/
def maskedSource (t : Table) : List Char :=
  maskedFront ++ (createText t.name ++ (sourceBody t ++ (maskedMiddle ++ (downText.toList
    ++ dropText t.name))))

/-- The imports in front are silent. Although they name the facade's class, its two colons
do not follow. -/
theorem silent_import : Silent importCode.toList importCode.toList := by
  unfold importCode
  rw [String.toList_append, String.toList_append, String.toList_append]
  refine silent_append (silent_append (silent_append ?_ ?_) ?_) ?_
  all_goals exact silent_of_isSilent (by decide_cbv)

/-- The remark about the way forward is silent once it is blanked out: nothing but blanks
and line breaks is left of it. -/
theorem silent_upRemark : Silent upRemark.toList (mask upRemark.toList) := by
  have hblank : Silent (mask upRemark.toList) (mask upRemark.toList) :=
    silent_of_isSilent (by decide_cbv)
  exact ⟨fun _ => rfl, hblank.head, hblank.down⟩

/-- The remark about the way back is silent once it is blanked out, for the same reason. -/
theorem silent_downRemark : Silent downRemark.toList (mask downRemark.toList) := by
  have hblank : Silent (mask downRemark.toList) (mask downRemark.toList) :=
    silent_of_isSilent (by decide_cbv)
  exact ⟨fun _ => rfl, hblank.head, hblank.down⟩

/-- The method of the way forward is silent: it is a function, but not the one that undoes
the migration. -/
theorem silent_upCode : Silent upCode.toList upCode.toList := by
  have hcut : upCode.toList = "    public ".toList
      ++ ('f' :: "unction up(): void\n    \x7b\n        ".toList) := rfl
  have hup : ∀ r, downHead ('f' :: ("unction up(): void\n    \x7b\n        ".toList ++ r))
      = none :=
    fun _ => rfl
  refine ⟨masks_of_noSlash (by decide_cbv) (by decide_cbv),
    quiet_of_clear leads_head (by decide_cbv), ?_⟩
  rw [hcut]
  exact quiet_append (quiet_of_clear leads_downHead (by decide_cbv))
    (quiet_cons hup (quiet_of_clear leads_downHead (by decide_cbv)))

/-- Everything in front of the closure is silent together, so a search through a migration
comes to the closure first. -/
theorem silent_front :
    Silent (importCode.toList ++ (upRemark.toList ++ upCode.toList)) maskedFront :=
  silent_append silent_import (silent_append silent_upRemark silent_upCode)

/-- Everything between the closure's body and the way back is silent together, so the search
goes from the one to the other. -/
theorem silent_middle :
    Silent (closeCode.toList ++ (downRemark.toList ++ "    public ".toList)) maskedMiddle :=
  silent_append (silent_of_isSilent (by decide_cbv))
    (silent_append silent_downRemark (silent_of_isSilent (by decide_cbv)))

/-! ### Pieces with the name of the table -/

section Named

variable {table : String} (h : isName table = true)

include h

/-- A quoted name is a string of its own: behind it, code goes on outside of strings, as it
did before the opening quote. -/
theorem over_quoted {x y : List Char} (hx : Quotes.outside.over x = .inside '\'')
    (hy : Quotes.outside.over y = .outside) :
    Quotes.outside.over (x ++ ((table.toList ++ ['\'']) ++ y)) = .outside := by
  rw [Quotes.over_append, hx, Quotes.over_append, Quotes.over_append,
    Quotes.over_inside_of_plain _ _ (notMem_of_isName h (by decide))
      (notMem_of_isName h (by decide))]
  exact hy

/-- Without a slash around it, a quoted name is masked by itself, together with the code on
either side of it. -/
theorem masks_quoted {x y : List Char} (hx : Quotes.outside.over x = .inside '\'')
    (hy : Quotes.outside.over y = .outside) (hslash : '/' ∉ x ∧ '/' ∉ y) :
    Masks (x ++ ((table.toList ++ ['\'']) ++ y)) (x ++ ((table.toList ++ ['\'']) ++ y)) := by
  refine masks_of_noSlash (fun hm => ?_) (over_quoted h hx hy)
  simp only [List.mem_append, List.mem_singleton] at hm
  rcases hm with hm | (hm | hm) | hm
  · exact hslash.1 hm
  · exact notMem_of_isName h (by decide) hm
  · exact absurd hm (by decide)
  · exact hslash.2 hm

/-- No closure begins in a name and the quote behind it, since the colons of the facade's
call are in neither. -/
theorem quiet_head_quoted : Quiet head (table.toList ++ ['\'']) := by
  refine quiet_of_stop leads_head ?_
  rintro _ rfl
  exact ⟨by decide, ':', by decide, notMem_of_isName h (by decide)⟩

/-- No method that undoes a migration begins there either, since a name has no blank in
it. -/
theorem quiet_downHead_quoted : Quiet downHead (table.toList ++ ['\'']) := by
  refine quiet_of_stop leads_downHead_blank ?_
  rintro _ ⟨b, hb, rfl⟩
  have hquote : '\'' ≠ b := by
    rintro rfl
    exact absurd hb (by decide)
  exact ⟨by simp [hquote], b, by simp, notMem_of_isName h (isWord_of_isBlank hb)⟩

/-- The beginning of the closure is masked as it is: it has one string in it, the table's
name, and no remark. -/
theorem masks_createText : Masks (createText table) (createText table) :=
  masks_quoted h (by decide_cbv) (by decide_cbv) (by decide_cbv)

/-- The beginning of the closure is one of the texts that are recognized, with a blank
wherever such a text may have any. -/
theorem headText_createText : HeadText ⟨.create, table, usualBuilder⟩ (createText table) := by
  have hone : Blanks [' '] := by
    intro c hc
    rw [List.mem_singleton.mp hc]
    decide
  have htype : ParameterTypeText ("Blueprint".toList ++ [' ']) :=
    .inr ⟨"Blueprint".toList, [' '], List.all_eq_true.mp (by decide), List.suffix_refl _, hone,
      by simp, rfl⟩
  have hbegin : createBegin.toList
      = "Schema::".toList ++ (BlockKind.create.method.toList ++ ['(', '\'']) :=
    rfl
  have hend : createEnd.toList
      = ',' :: ' ' :: ("function".toList ++ ' ' :: '(' :: ("Blueprint".toList
      ++ ' ' :: '$' :: (usualBuilder.toList ++ [')', ' ', '{']))) := rfl
  have hu := HeadText.mk (h := ⟨.create, table, usualBuilder⟩) (q := '\'') (by decide) h
    (show isName usualBuilder = true by decide) blanks_nil blanks_nil blanks_nil hone hone
    blanks_nil
    blanks_nil hone (.inl rfl) htype (.inl rfl) (.inl rfl)
  rw [createText, hbegin, hend]
  simpa only [List.append_assoc, List.cons_append, List.nil_append] using hu

/-- So `head` finds it, with the table's name and the usual builder, and goes on behind its
brace. -/
theorem head_createText (r : List Char) :
    head (createText table ++ r) = some (⟨.create, table, usualBuilder⟩, r) :=
  head_of_headText (headText_createText h) r

/-- The function of a closure is not the method of the way back, since it has no name. -/
theorem quiet_downHead_createText : Quiet downHead (createText table) := by
  have hcut : createEnd.toList
      = ", ".toList ++ ('f' :: "unction (Blueprint $table) \x7b".toList) := rfl
  have hfunction : ∀ r, downHead ('f' :: ("unction (Blueprint $table) \x7b".toList ++ r))
      = none :=
    fun _ => rfl
  have hend : Quiet downHead createEnd.toList := by
    rw [hcut]
    exact quiet_append (quiet_of_clear leads_downHead (by decide_cbv))
      (quiet_cons hfunction (quiet_of_clear leads_downHead (by decide_cbv)))
  exact quiet_append (quiet_of_clear leads_downHead (by decide_cbv))
    (quiet_append (quiet_downHead_quoted h) hend)

/-- The body of the way back has no closure and no other way back in it. It drops the table
by one call. -/
theorem silent_dropText : Silent (dropText table) (dropText table) := by
  have hcut : dropBegin.toList = "\n        ".toList ++ ('S' :: "chema::dropIfExists('".toList) :=
    rfl
  have hdrop : ∀ r, head ('S' :: ("chema::dropIfExists('".toList ++ r)) = none := fun _ => rfl
  have hbegin : Quiet head dropBegin.toList := by
    rw [hcut]
    exact quiet_append (quiet_of_clear leads_head (by decide_cbv))
      (quiet_cons hdrop (quiet_of_clear leads_head (by decide_cbv)))
  exact ⟨masks_quoted h (by decide_cbv) (by decide_cbv) (by decide_cbv),
    quiet_append hbegin
      (quiet_append (quiet_head_quoted h) (quiet_of_clear leads_head (by decide_cbv))),
    quiet_append (quiet_of_clear leads_downHead (by decide_cbv))
      (quiet_append (quiet_downHead_quoted h) (quiet_of_clear leads_downHead (by decide_cbv)))⟩

end Named

/-- The beginning of the way back is one, whatever comes behind it. It is fixed text, so
this is by computation. -/
theorem downHead_downText (r : List Char) : downHead (downText.toList ++ r) = some ((), r) := rfl

/-- The beginning of the way back is masked as it is, since it has neither remarks nor
strings. -/
theorem masks_downText : Masks downText.toList downText.toList :=
  masks_of_noSlash (by decide_cbv) (by decide_cbv)

/-- No closure begins in the beginning of the way back, since the facade is not named in
it. -/
theorem quiet_head_downText : Quiet head downText.toList :=
  quiet_of_clear leads_head (by decide_cbv)

/-! ### The migration among other text -/

/-- Holds of tables that can be written as migrations: what is called something
has a name. -/
structure Writable (t : Table) : Prop where
  name : isName t.name = true
  named : Named t.columns t.foreignKeys

/-- Holds of tables whose migrations can be told apart from other text: the table has a
name, and there is nothing but the characters of names where names are expected. -/
structure Spelled (t : Table) : Prop where
  name : isName t.name = true
  worded : Worded t.columns t.foreignKeys

/-- A writable table is a spelled one: its names are names, and this is all that the text of
its migration depends on. -/
theorem Writable.spelled {t : Table} (h : Writable t) : Spelled t := ⟨h.name, h.named.worded⟩

/-- Where the closure of a migration stands when the migration begins at `i`. -/
def sourceClosure (t : Table) (i : Nat) : Closure where
  kind := .create
  table := t.name
  builder := usualBuilder
  bodyStart := i + maskedFront.length + (createText t.name).length
  bodyEnd := i + maskedFront.length + (createText t.name).length + (sourceBody t).length

section Spelled

variable {t : Table} (h : Spelled t)

include h

/-- What stands in the closure is a body of the table's calls, indented as migrations are
that are made here. -/
theorem isBody_source : IsBody usualBuilder "            ".toList "        ".toList
    (tableCalls t.columns t.foreignKeys) := by
  have hspaces : ∀ n, Indent (List.replicate n ' ') :=
    fun n c hc => .inl (List.eq_of_mem_replicate hc)
  exact ⟨by decide, hspaces 12, hspaces 8, wellFormed_tableCalls h.worded⟩

/-- The body of a migration is silent, since nothing begins in a body of well-formed
calls. -/
theorem silent_sourceBody : Silent (sourceBody t) (sourceBody t) :=
  ⟨fun r => maskFrom_bodyText (isBody_source h) r, quiet_head_bodyText (isBody_source h),
    quiet_downHead_bodyText (isBody_source h)⟩

/-- A migration is masked by itself, whatever comes behind it: its remarks and its strings
end in it. -/
theorem masks_source : Masks (source t).toList (maskedSource t) := by
  have hmasks := masks_append silent_front.masks (masks_append (masks_createText h.name)
    (masks_append (silent_sourceBody h).masks (masks_append silent_middle.masks
      (masks_append masks_downText (silent_dropText h.name).masks))))
  rw [toList_source, maskedSource]
  simpa only [List.append_assoc] using hmasks

omit h in
/-- What comes between the closure's body and the way back begins with the brace that closes
the body. -/
theorem exists_maskedMiddle_eq : ∃ x, maskedMiddle = '}' :: x := ⟨_, rfl⟩

/-- A search for closures finds the one of a migration, and goes on behind the
migration. -/
theorem filterMap_close?_source (i : Nat) (r : List Char) :
    (findAllFrom head i 0 (maskedSource t ++ r)).filterMap Head.close?
      = sourceClosure t i
        :: (findAllFrom head (i + (maskedSource t).length) 0 r).filterMap Head.close? := by
  -- behind the head of the closure no other begins before the migration ends
  have hbehind : Quiet head
      (sourceBody t ++ (maskedMiddle ++ (downText.toList ++ dropText t.name))) :=
    quiet_append (silent_sourceBody h).head (quiet_append silent_middle.head
      (quiet_append quiet_head_downText (silent_dropText h.name).head))
  have hcut : maskedSource t ++ r = maskedFront ++ (createText t.name
      ++ ((sourceBody t ++ (maskedMiddle ++ (downText.toList ++ dropText t.name))) ++ r)) := by
    simp only [maskedSource, List.append_assoc]
  have hlength : i + maskedFront.length + (createText t.name).length
      + (sourceBody t ++ (maskedMiddle ++ (downText.toList ++ dropText t.name))).length
      = i + (maskedSource t).length := by
    simp only [maskedSource, List.length_append]
    omega
  have hclose : blockEnd? (i + maskedFront.length + (createText t.name).length)
      ((sourceBody t ++ (maskedMiddle ++ (downText.toList ++ dropText t.name))) ++ r)
      = some (sourceClosure t i).bodyEnd := by
    obtain ⟨x, hx⟩ := exists_maskedMiddle_eq
    rw [blockEnd?, List.append_assoc, sourceBody, closeFrom_bodyText (isBody_source h), hx,
      List.append_assoc, List.cons_append, closeFrom_cons, if_pos ⟨rfl, rfl, rfl⟩]
    rfl
  rw [hcut, findAllFrom_of_quiet silent_front.head,
    findAllFrom_of_match (head_createText h.name _) (headText_createText h.name).ne_nil,
    findAllFrom_of_quiet hbehind, hlength]
  refine List.filterMap_cons_some ?_
  rw [Head.close?, hclose]
  rfl

omit h in
/-- The body of that closure is the one that was written, wherever in a longer text the
migration stands. -/
theorem body_sourceClosure (x r : List Char) :
    (sourceClosure t x.length).body (x ++ (maskedSource t ++ r)) = sourceBody t := by
  have hcut : x ++ (maskedSource t ++ r) = (x ++ (maskedFront ++ createText t.name))
      ++ (sourceBody t ++ (maskedMiddle ++ (downText.toList ++ dropText t.name) ++ r)) := by
    simp only [maskedSource, List.append_assoc]
  have hstart : (sourceClosure t x.length).bodyStart
      = (x ++ (maskedFront ++ createText t.name)).length := by
    simp only [sourceClosure, List.length_append]
    omega
  have hwidth : (sourceClosure t x.length).bodyEnd - (sourceClosure t x.length).bodyStart
      = (sourceBody t).length := by
    simp only [sourceClosure]
    omega
  rw [Closure.body, hwidth, hstart, hcut, List.drop_left, List.take_left]

/-- The way back is closed in its own text, so whatever comes behind the migration is not
part of it. -/
theorem exists_closeFrom_dropText :
    ∃ k, closeFrom .outside 1 0 (dropText t.name) = some k ∧ k ≤ (dropText t.name).length := by
  have hend : dropEnd.toList = ");\n    ".toList ++ '}' :: "\n\x7d;\n".toList := rfl
  have hcut : dropText t.name
      = (dropBegin.toList ++ ((t.name.toList ++ ['\'']) ++ ");\n    ".toList))
      ++ '}' :: "\n\x7d;\n".toList := by
    rw [dropText, hend]
    simp only [List.append_assoc]
  have hover := over_quoted h.name (x := dropBegin.toList) (y := ");\n    ".toList)
    (by decide_cbv) (by decide_cbv)
  -- the brace is the first, since a name has none
  have hnone : ∀ c, c = '{' ∨ c = '}' →
      c ∉ dropBegin.toList ++ ((t.name.toList ++ ['\'']) ++ ");\n    ".toList) := by
    intro c hc hm
    have hword : isWord c = false := by
      rcases hc with rfl | rfl
      · decide
      · decide
    have hfixed : c ∉ dropBegin.toList ++ (['\''] ++ ");\n    ".toList) := by
      rcases hc with rfl | rfl
      · decide_cbv
      · decide_cbv
    simp only [List.mem_append] at hm hfixed
    rcases hm with hm | (hm | hm) | hm
    · exact hfixed (.inl hm)
    · exact notMem_of_isName h.name hword hm
    · exact hfixed (.inr (.inl hm))
    · exact hfixed (.inr (.inr hm))
  refine ⟨0 + (dropBegin.toList ++ ((t.name.toList ++ ['\'']) ++ ");\n    ".toList)).length,
    ?_, ?_⟩
  · rw [hcut, closeFrom_append_of_noBrace _ _ _ _ _ (hnone _ (.inl rfl)) (hnone _ (.inr rfl)),
      hover, closeFrom_cons, if_pos ⟨rfl, rfl, rfl⟩]
  · rw [hcut]
    simp only [List.length_append]
    omega

/-- The way back begins behind the closure and ends before the migration does. So the
closure is part of the way forward. -/
theorem exists_downSpan?_source (r : List Char) :
    ∃ a b, downSpan? (maskedSource t ++ r) = some (a, b) ∧ (sourceClosure t 0).bodyStart < a
      ∧ b ≤ (maskedSource t).length := by
  -- no way back begins in front of the method that is written for it
  have hbefore : Quiet downHead
      (maskedFront ++ (createText t.name ++ (sourceBody t ++ maskedMiddle))) :=
    quiet_append silent_front.down (quiet_append (quiet_downHead_createText h.name)
      (quiet_append (silent_sourceBody h).down silent_middle.down))
  have hcut : maskedSource t ++ r
      = (maskedFront ++ (createText t.name ++ (sourceBody t ++ maskedMiddle)))
      ++ (downText.toList ++ (dropText t.name ++ r)) := by
    simp only [maskedSource, List.append_assoc]
  have hfind := findFrom_of_match (downHead_downText (dropText t.name ++ r)) (by simp [downText])
    (0 + (maskedFront ++ (createText t.name ++ (sourceBody t ++ maskedMiddle))).length)
  obtain ⟨k, hk, hle⟩ := exists_closeFrom_dropText h
  have hmiddle : 0 < maskedMiddle.length := by
    obtain ⟨x, hx⟩ := exists_maskedMiddle_eq
    rw [hx]
    simp
  rw [downSpan?, find?, hcut, findFrom_of_quiet hbefore, hfind]
  refine ⟨_, _, rfl, ?_, ?_⟩
  · simp only [sourceClosure, List.length_append]
    omega
  · show (closeFrom .outside 1 _ (dropText t.name ++ r)).getD _ ≤ _
    have hadd := closeFrom_add .outside 1 0
      (0 + (maskedFront ++ (createText t.name ++ (sourceBody t ++ maskedMiddle))).length
        + downText.toList.length) (dropText t.name)
    rw [hk, Nat.zero_add] at hadd
    rw [Scan.closeFrom_append, hadd, Option.map_some, Option.some_or, Option.getD_some]
    simp only [maskedSource, List.length_append]
    omega

end Spelled

end SchemaAtlas.Migration
