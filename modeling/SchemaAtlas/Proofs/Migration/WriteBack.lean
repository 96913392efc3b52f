import SchemaAtlas.Migration.Block
import SchemaAtlas.Proofs.Migration.Splice

/-!
# `SchemaAtlas.Proofs.Migration.WriteBack`: writing back changes one body only

A table is written back into the first closure that creates it. This module
shows that nothing else in the migration is read differently afterwards: the
closures are those of the old text, moved along behind the new body
(`closures_writeBack`), and a closure that does not enclose the new body says
what it said before (`draft_shifted`).

That takes one thing of the text: where a closure opens its brace, the masking
of comments must not take it for part of a string. A quote that a name in a
comment leaves open is such a case. The masking knows where comments are and
the matching of braces does not, but from a brace on that both take for code
they go through the masked text in step.
-/

set_option autoImplicit false

namespace SchemaAtlas.Migration

open SchemaAtlas.Scan SchemaAtlas.Text

/-! ### The new body -/

/-- What is found as the indentation of a line is one: it has blanks and tabs only. -/
theorem indent_of_indentedLine {cs x r : List Char} (h : indentedLine cs = some (x, r)) :
    Indent x := by
  simp only [indentedLine, Option.bind_eq_bind, Option.bind_eq_some_iff] at h
  obtain ⟨u, -, h⟩ := h
  split at h
  · cases h
  · split at h
    · cases h
    · obtain ⟨rfl, -⟩ := Prod.mk.inj (Option.some.inj h)
      intro c hc
      have hi := List.mem_takeWhile_imp hc
      simpa [isIndent] using hi

/-- The indentation of the last line is one, whatever text the line is the last of. -/
theorem indent_lastLineIndent (before : List Char) : Indent (lastLineIndent before) := by
  intro c hc
  have hi := List.mem_takeWhile_imp hc
  simpa [isIndent] using hi

/-- The indentation of the new body's lines. -/
def bodyIndent (text : List Char) (c : Closure) : List Char :=
  ((find? indentedLine ((text.take c.bodyEnd).drop c.bodyStart)).map Match.value).getD
    (lastLineIndent (text.take (c.bodyStart - 1)) ++ indentStep)

/-- The indentation of the new body's lines is one, be it taken from the old body or made
up. -/
theorem indent_bodyIndent (text : List Char) (c : Closure) : Indent (bodyIndent text c) := by
  rw [bodyIndent]
  cases hf : find? indentedLine ((text.take c.bodyEnd).drop c.bodyStart) with
  | none =>
      intro d hd
      rcases List.mem_append.mp hd with hd | hd
      · exact indent_lastLineIndent _ d hd
      · exact .inl (by simpa [indentStep] using hd)
  | some m =>
      obtain ⟨r, hr⟩ := exists_of_findFrom_eq_some hf
      exact indent_of_indentedLine hr

/-- The new body has a line for each of the table's calls, and its closing brace goes where
the head's line begins. -/
theorem newBody_eq_bodyText (text : List Char) (c : Closure) (columns : List Column)
    (fks : List ForeignKey) :
    newBody text c columns fks = bodyText c.builder (bodyIndent text c)
      (lastLineIndent (text.take (c.bodyStart - 1))) (tableCalls columns fks) := by
  simp only [newBody, toList_statementLines, bodyText, List.cons_append]
  rfl

/-- The new body is a body of well-formed calls if the builder and all names of the table
are names. -/
theorem isBody_newBody {c : Closure} {columns : List Column} {fks : List ForeignKey}
    (hc : isName c.builder = true) (h : Named columns fks) (text : List Char) :
    IsBody c.builder (bodyIndent text c) (lastLineIndent (text.take (c.bodyStart - 1)))
      (tableCalls columns fks) :=
  ⟨hc, indent_bodyIndent text c, indent_lastLineIndent _, wellFormed_tableCalls h.worded⟩

/-- The new body is a body of the table's calls, however its lines and its closing brace are
indented. -/
theorem newBody_eq {text : List Char} {c : Closure} {columns : List Column}
    {fks : List ForeignKey}
    (hc : isName c.builder = true) (h : Named columns fks) :
    ∃ indent close, IsBody c.builder indent close (tableCalls columns fks)
      ∧ newBody text c columns fks = bodyText c.builder indent close (tableCalls columns fks) :=
  ⟨_, _, isBody_newBody hc h text, newBody_eq_bodyText text c columns fks⟩

/-! ### Cutting a text at a closure -/

/-- Each closed closure of a text is cut at its two braces, into what is before, the body,
and what is after. -/
theorem exists_cut_of_mem_closures {text : String} {c : Closure} (hc : c ∈ closures text) :
    ∃ m q before inside body masked after, m ∈ findAll head (mask text.toList)
      ∧ (regions text.toList)[m.stop - 1]? = some (.code q)
      ∧ m.value = c.toHead ∧ m.stop = c.bodyStart
      ∧ OpenedAt text.toList m (q.step '{') before inside
      ∧ ClosedAt (q.step '{') inside body masked after
      ∧ c.bodyEnd = c.bodyStart + body.length := by
  rw [closures, closuresOfMasked, List.mem_filterMap] at hc
  obtain ⟨m, hm, hclose⟩ := hc
  obtain ⟨k, hk, rfl⟩ := Option.map_eq_some_iff.mp hclose
  obtain ⟨q, hregion⟩ := exists_region_of_mem hm
  obtain ⟨before, inside, hopened⟩ := exists_openedAt hm hregion
  rw [hopened.rest] at hk
  obtain ⟨body, masked, after, hclosed, rfl⟩ := exists_closedAt hk
  exact ⟨m, q, before, inside, body, masked, after, hm, hregion, rfl, rfl, hopened, hclosed, rfl⟩

/-- The text up to the body of a closure is what stands before its brace, and the brace. -/
theorem take_bodyStart {text before inside : List Char} {m : Match Head} {q : Quotes}
    {c : Closure}
    (ho : OpenedAt text m q before inside) (hstop : m.stop = c.bodyStart) :
    text.take c.bodyStart = before ++ ['{'] := by
  have hcut : text = (before ++ ['{']) ++ inside := by
    rw [ho.cut]
    simp
  have hlength : c.bodyStart = (before ++ ['{']).length := by
    rw [← hstop, ho.stop]
    simp
  rw [hcut, hlength, List.take_left]

/-- The text behind the body of a closure is the brace that closes it, and what comes
after. -/
theorem drop_bodyEnd {text before inside body masked after : List Char} {m : Match Head}
    {q : Quotes}
    {c : Closure} (ho : OpenedAt text m q before inside)
    (hc : ClosedAt q inside body masked after)
    (hstop : m.stop = c.bodyStart) (hend : c.bodyEnd = c.bodyStart + body.length) :
    text.drop c.bodyEnd = '}' :: after := by
  have hcut : text = (before ++ '{' :: body) ++ '}' :: after := by
    rw [ho.cut, hc.cut]
    simp
  have hlength : c.bodyEnd = (before ++ '{' :: body).length := by
    rw [hend, ← hstop, ho.stop]
    simp only [List.length_append, List.length_cons]
    omega
  rw [hcut, hlength, List.drop_left]

/-- A closure begins with a head, so what is known of the described texts is known of its
table and its builder. -/
theorem exists_headText_of_mem {text : String} {c : Closure} (hc : c ∈ closures text) :
    ∃ used, HeadText c.toHead used := by
  obtain ⟨m, q, before, inside, body, masked, after, -, -, hvalue, -, hopened, -, -⟩ :=
    exists_cut_of_mem_closures hc
  obtain ⟨used, hu, -⟩ := hopened.head
  exact ⟨used, hvalue ▸ hu⟩

/-- The builder of a closure is a name, since a head is recognized with a name there and not
otherwise. -/
theorem isName_builder_of_mem {text : String} {c : Closure} (hc : c ∈ closures text) :
    isName c.builder = true := by
  obtain ⟨used, hu⟩ := exists_headText_of_mem hc
  cases hu with
  | mk _ _ hbuilder => exact hbuilder

/-- The table of a closure is a name, too, so a table that is found in a migration can be
written back. -/
theorem isName_table_of_mem {text : String} {c : Closure} (hc : c ∈ closures text) :
    isName c.table = true := by
  obtain ⟨used, hu⟩ := exists_headText_of_mem hc
  cases hu with
  | mk _ htable _ => exact htable

/-- A text with the body of a closure written anew: pieces of the old text around the
new body. -/
def rewritten (cs : List Char) (t : Closure) (columns : List Column) (fks : List ForeignKey) :
    List Char :=
  cs.take t.bodyStart ++ (newBody cs t columns fks ++ cs.drop t.bodyEnd)

/-- If a closure creates the table, writing it back rewrites that closure's body, the first
one's if there are several. -/
theorem toList_writeBack {text table : String} {columns : List Column} {fks : List ForeignKey}
    {t : Closure} (ht : creation? table (closures text) = some t) :
    (writeBack text table columns fks).toList = rewritten text.toList t columns fks := by
  simp only [writeBack, ht, String.toList_ofList, List.append_assoc, rewritten]

/-! ### What the other closures say -/

/-- The characters of a closure's body. -/
def Closure.body (cs : List Char) (c : Closure) : List Char :=
  (cs.drop c.bodyStart).take (c.bodyEnd - c.bodyStart)

/-- What a closure of a masked text asks for. -/
def Closure.draft (masked : List Char) (c : Closure) : Draft :=
  Draft.ofStatements (statements (c.body masked) c.builder)

/-- Holds when a closure reaches around the body of another, or is that other. -/
def Closure.Encloses (c t : Closure) : Prop :=
  c.bodyStart ≤ t.bodyStart ∧ t.bodyEnd ≤ c.bodyEnd

/-- A closure of a text in three pieces is closed in the first, reaches around
the second, or lies in the third. -/
theorem cases_of_mem_closuresAround {before after : List Char} {n : Nat} {c : Closure}
    (hc : c ∈ closuresAround before after n) :
    (c.bodyStart ≤ before.length ∧ c.bodyEnd < before.length)
      ∨ (c.bodyStart ≤ before.length ∧ n ≤ c.bodyEnd) ∨ (n < c.bodyStart ∧ n ≤ c.bodyEnd) := by
  rw [closuresAround, List.mem_append, List.mem_filterMap, List.mem_map] at hc
  rcases hc with ⟨m, hm, hclose⟩ | ⟨d, hd, rfl⟩
  · obtain ⟨hstop, -, hlt⟩ := le_of_mem_findAll hm
    obtain ⟨k, hk, rfl⟩ := Option.map_eq_some_iff.mp hclose
    -- the head stands in the first piece, and the closing brace in the first or the third
    cases hj : closeFrom .outside 1 m.stop m.rest with
    | some j =>
        rw [hj, Option.some_or] at hk
        obtain rfl := Option.some.inj hk
        exact .inl ⟨hstop, hlt j hj⟩
    | none =>
        rw [hj, Option.none_or, Option.map_eq_some_iff] at hk
        obtain ⟨j, -, rfl⟩ := hk
        exact .inr (.inl ⟨hstop, Nat.le_add_left n j⟩)
  · rw [closuresOfMasked, List.mem_filterMap] at hd
    obtain ⟨m, hm, hclose⟩ := hd
    obtain ⟨k, -, rfl⟩ := Option.map_eq_some_iff.mp hclose
    obtain ⟨-, hpos, -⟩ := le_of_mem_findAll hm
    refine .inr (.inr ⟨?_, ?_⟩)
    · show n < m.stop + n
      omega
    · exact Nat.le_add_left n k

/-- A closure that does not reach around the second of three pieces has the same
body whatever that piece is. -/
theorem body_shifted {x y y' z : List Char} {c : Closure}
    (hc : (c.bodyStart ≤ x.length ∧ c.bodyEnd < x.length)
      ∨ (x.length + y.length < c.bodyStart ∧ x.length + y.length ≤ c.bodyEnd)) :
    (c.shifted x.length (x.length + y.length) (x.length + y.length + z.length)
        (x.length + y'.length + z.length)).body (x ++ (y' ++ z))
      = c.body (x ++ (y ++ z)) := by
  rcases hc with ⟨hstart, hend⟩ | ⟨hstart, hend⟩
  · -- the closure lies in the first piece, and nothing of it moves
    have h1 : ¬(x.length + y.length ≤ c.bodyStart ∧ c.bodyStart ≠ x.length) := by omega
    have h2 : ¬x.length + y.length ≤ c.bodyEnd := by omega
    have hbody : ∀ w, ((x ++ w).drop c.bodyStart).take (c.bodyEnd - c.bodyStart)
        = (x.drop c.bodyStart).take (c.bodyEnd - c.bodyStart) := by
      intro w
      rw [List.drop_append_of_le_length hstart,
        List.take_append_of_le_length (by rw [List.length_drop]; omega)]
    simp only [Closure.body, Closure.shifted, if_neg h1, if_neg h2, hbody]
  · -- it lies in the third piece, and both of its ends move by the same amount
    have h1 : x.length + y.length ≤ c.bodyStart ∧ c.bodyStart ≠ x.length := by omega
    have hdrop : ∀ w : List Char, ∀ i,
        (x ++ (w ++ z)).drop (x.length + w.length + i) = z.drop i := by
      intro w i
      rw [← List.append_assoc, ← List.length_append, List.drop_append]
      simp
    obtain ⟨i, hi⟩ := Nat.exists_eq_add_of_le h1.1
    have hs : c.bodyStart + (x.length + y'.length + z.length) - (x.length + y.length + z.length)
        = x.length + y'.length + i := by
      omega
    have he : c.bodyEnd + (x.length + y'.length + z.length) - (x.length + y.length + z.length)
        - (x.length + y'.length + i) = c.bodyEnd - (x.length + y.length + i) := by
      omega
    simp only [Closure.body, Closure.shifted, if_pos h1, if_pos hend, hs, he, hdrop]
    rw [hi, hdrop]

/-! ### A migration and what it becomes -/

/-- Holds when every closure of a text opens its brace outside of strings, as
the masking of comments sees them. -/
def OpensInCode (text : List Char) : Prop :=
  ∀ m ∈ findAll head (mask text), (regions text)[m.stop - 1]? = some (.code .outside)

instance (text : List Char) : Decidable (OpensInCode text) :=
  inferInstanceAs (Decidable (∀ m ∈ findAll head (mask text), _))

/-- Holds when no closure begins in the body of this one. -/
def NoneBeginsIn (text : List Char) (t : Closure) : Prop :=
  ∀ m ∈ findAll head (mask text), ¬(t.bodyStart ≤ m.start ∧ m.start < t.bodyEnd)

instance (text : List Char) (t : Closure) : Decidable (NoneBeginsIn text t) :=
  inferInstanceAs (Decidable (∀ m ∈ findAll head (mask text), _))

/-- A text and what it becomes when the body of a closure is written anew, in
pieces: what is before the body, the old and the new body, and what is behind
it, as they are and with comments blanked out. -/
structure Pieces (text new : List Char) (t : Closure) where
  before : List Char
  old : List Char
  written : List Char
  after : List Char
  maskedBefore : List Char
  maskedOld : List Char
  maskedAfter : List Char
  text_eq : text = before ++ (old ++ after)
  new_eq : new = before ++ (written ++ after)
  mask_text : mask text = maskedBefore ++ (maskedOld ++ maskedAfter)
  mask_new : mask new = maskedBefore ++ (written ++ maskedAfter)
  start : before.length = t.bodyStart
  stop : before.length + old.length = t.bodyEnd
  length_before : maskedBefore.length = before.length
  length_old : maskedOld.length = old.length
  firm : Firm head maskedBefore
  outside : ∀ m ∈ findAll head maskedBefore, Quotes.outside.over m.rest = .outside
  inert_old : Inert maskedOld
  inert_written : Inert written
  quiet : Quiet head written

/-- Such pieces of a text in which no closure begins in the old body: the closures
are those around it. -/
structure Rewriting (text new : List Char) (t : Closure) extends Pieces text new t where
  closures_text : closuresOfMasked (mask text)
    = closuresAround maskedBefore maskedAfter (before.length + old.length)
  closures_new : closuresOfMasked (mask new)
    = closuresAround maskedBefore maskedAfter (before.length + written.length)

/-- Behind each head the masked text goes on outside of strings. This is what it takes for
closing braces to be found in step with the masking. -/
theorem over_rest_of_opensInCode {text x r : List Char} (hcode : OpensInCode text)
    (hmask : mask text = x ++ r) (hx : Quotes.outside.over x = .outside) (hfirm : Firm head x)
    {m : Match Head} (hm : m ∈ findAll head x) : Quotes.outside.over m.rest = .outside := by
  have hmem : m.extended r ∈ findAll head (mask text) := by
    rw [hmask, findAll, findAllFrom_of_firm hfirm 0 0 (Nat.zero_le _)]
    exact List.mem_append_left _ (List.mem_map_of_mem hm)
  obtain ⟨before, inside, hopened⟩ := exists_openedAt hmem (hcode _ hmem)
  have hcut : (mask before ++ ['{']) ++ (m.rest ++ r) = x ++ r := by
    rw [← hmask, hopened.cut, hopened.masking, ← hopened.rest, Match.extended]
    simp
  rw [← List.append_assoc] at hcut
  have hover := congrArg (Quotes.outside.over) (List.append_cancel_right hcut)
  rw [Quotes.over_append, hopened.quotes, hx] at hover
  exact hover

section Cut

variable {text before inside body masked after : List Char} {m : Match Head}
  (ho : OpenedAt text m .outside before inside)

include ho

/-- Masked, such a text is what stands in front of the closure's body, the masked body and the
masked rest. -/
theorem mask_of_closedAt (hc : ClosedAt .outside inside body masked after) :
    mask text = (mask before ++ ['{']) ++ (masked ++ '}' :: maskFrom (.code .outside) after) := by
  have hm := hc.masking
  rw [hc.inert.quotes, show Quotes.outside.step '}' = .outside from rfl] at hm
  rw [ho.cut, ho.masking, hm, List.append_assoc, List.singleton_append]

/-- Another body of calls is masked in its place as it is, and what comes after it is masked
as before. -/
theorem mask_bodyText {builder : String} {indent close : List Char} {calls : List Call}
    (h : IsBody builder indent close calls) :
    mask ((before ++ ['{']) ++ (bodyText builder indent close calls ++ '}' :: after))
      = (mask before ++ ['{'])
        ++ (bodyText builder indent close calls ++ '}' :: maskFrom (.code .outside) after) := by
  rw [List.append_assoc, List.singleton_append, ho.masking, maskFrom_bodyText h,
    maskFrom_code_cons _ (by decide), show Quotes.outside.step '}' = .outside from rfl,
    List.append_assoc, List.singleton_append]

end Cut

/-- A text falls into such pieces when a table is written back: before, the old or the new
body, and after. -/
theorem nonempty_pieces {text table : String} {columns : List Column} {fks : List ForeignKey}
    {t : Closure} (hcode : OpensInCode text.toList)
    (ht : creation? table (closures text) = some t)
    (h : Named columns fks) :
    Nonempty (Pieces text.toList (writeBack text table columns fks).toList t) := by
  have hmem : t ∈ closures text := List.mem_of_find?_eq_some ht
  obtain ⟨m, q, before, inside, body, masked, after, hm, hregion, -, hstop, ho, hc, hend⟩ :=
    exists_cut_of_mem_closures hmem
  -- the masking is outside of strings where the closure opens its brace
  obtain rfl : q = .outside := by
    have hq := hcode m hm
    rw [hregion] at hq
    exact Region.code.inj (Option.some.inj hq)
  rw [show Quotes.outside.step '{' = .outside from rfl] at ho hc
  obtain ⟨indent, close, hbody, hnew⟩ :=
    @newBody_eq text.toList t columns fks (isName_builder_of_mem hmem) h
  obtain ⟨used, hu, hused⟩ := ho.head
  have hstart : t.bodyStart = before.length + 1 := by rw [← hstop, ho.stop]
  have hlength : (mask before ++ ['{']).length = before.length + 1 := by
    rw [List.length_append, mask, length_maskFrom]
    rfl
  have hmaskText := mask_of_closedAt ho hc
  have hnewText : (writeBack text table columns fks).toList = (before ++ ['{'])
      ++ (bodyText t.builder indent close (tableCalls columns fks) ++ '}' :: after) := by
    rw [toList_writeBack ht, rewritten, take_bodyStart ho hstop,
      drop_bodyEnd ho hc hstop hend, hnew]
  have hmaskNew : mask (writeBack text table columns fks).toList = (mask before ++ ['{'])
      ++ (bodyText t.builder indent close (tableCalls columns fks) ++ '}'
        :: maskFrom (.code .outside) after) := by
    rw [hnewText]
    exact mask_bodyText ho hbody
  have hfirm := firm_head hu.guarded hused
  have hover :=
    fun m' hm' => over_rest_of_opensInCode (m := m') hcode hmaskText ho.quotes hfirm hm'
  refine ⟨⟨before ++ ['{'], body, bodyText t.builder indent close (tableCalls columns fks),
    '}' :: after, mask before ++ ['{'], masked, '}' :: maskFrom (.code .outside) after, ?_,
    hnewText,
    hmaskText, hmaskNew, ?_, ?_, ?_, hc.length, hfirm, hover, hc.inert, inert_bodyText hbody,
    quiet_head_bodyText hbody⟩⟩
  · rw [ho.cut, hc.cut]
    simp
  · rw [hstart]
    simp
  · rw [hend, hstart]
    simp
  · rw [hlength]
    simp

/-- Writing a table back is such a rewriting, if braces open in code and nothing begins in
the old body. -/
theorem nonempty_rewriting {text table : String} {columns : List Column} {fks : List ForeignKey}
    {t : Closure} (hcode : OpensInCode text.toList)
    (ht : creation? table (closures text) = some t)
    (hnone : NoneBeginsIn text.toList t) (h : Named columns fks) :
    Nonempty (Rewriting text.toList (writeBack text table columns fks).toList t) := by
  obtain ⟨p⟩ := nonempty_pieces hcode ht h
  -- no head begins in the old body by hypothesis, and none in the new one since it is quiet
  have hbehind : ∀ m ∈ findAllFrom head p.maskedBefore.length 0 (p.maskedOld ++ p.maskedAfter),
      p.maskedBefore.length + p.maskedOld.length ≤ m.start := by
    intro m hm
    have hmem : m ∈ findAll head (mask text.toList) := by
      rw [p.mask_text, findAll, findAllFrom_of_firm p.firm 0 0 (Nat.zero_le _), Nat.zero_add]
      exact List.mem_append_right _ hm
    obtain ⟨hstart, -, -⟩ := bounds_of_mem_findAllFrom consumes_head hm
    have hout := hnone m hmem
    rw [p.length_before, p.length_old, p.stop]
    rw [p.length_before, p.start] at hstart
    omega
  have hbehindNew : ∀ m ∈ findAllFrom head p.maskedBefore.length 0 (p.written ++ p.maskedAfter),
      p.maskedBefore.length + p.written.length ≤ m.start := by
    intro m hm
    rw [findAllFrom_of_quiet p.quiet] at hm
    exact (bounds_of_mem_findAllFrom consumes_head hm).1
  refine ⟨⟨p, ?_, ?_⟩⟩
  · rw [p.mask_text, closuresOfMasked_append p.firm p.inert_old p.outside hbehind,
      p.length_before, p.length_old]
  · rw [p.mask_new, closuresOfMasked_append p.firm p.inert_written p.outside hbehindNew,
      p.length_before]

section Rewriting

variable {text new : List Char} {t : Closure}

/-- The lengths of the old and the new text differ as the two bodies do, since the rest is
the same. -/
theorem Pieces.length_eq (p : Pieces text new t) :
    text.length = t.bodyEnd + p.after.length
      ∧ new.length = t.bodyStart + p.written.length + p.after.length := by
  have hold := congrArg List.length p.text_eq
  have hnew := congrArg List.length p.new_eq
  have hstart := p.start
  have hstop := p.stop
  simp only [List.length_append] at hold hnew
  constructor
  · omega
  · omega

/-! The pieces as they are cut out of the texts. -/

/-- The old text begins with the piece that comes before the body, up to where the body
starts. -/
theorem Pieces.take_text (p : Pieces text new t) : text.take t.bodyStart = p.before := by
  have htake := congrArg (List.take p.before.length) p.text_eq
  rwa [List.take_left, p.start] at htake

/-- The new text begins with that piece as well, so the body starts at the same place. -/
theorem Pieces.take_new (p : Pieces text new t) : new.take t.bodyStart = p.before := by
  have htake := congrArg (List.take p.before.length) p.new_eq
  rwa [List.take_left, p.start] at htake

/-- Behind the end of the old body, the old text has the piece that comes after. -/
theorem Pieces.drop_text (p : Pieces text new t) : text.drop t.bodyEnd = p.after := by
  have hdrop := congrArg (List.drop (p.before ++ p.old).length) p.text_eq
  rwa [← List.append_assoc, List.drop_left, List.length_append, p.stop] at hdrop

/-- Behind the end of the written body, the new text has that piece as well. -/
theorem Pieces.drop_new (p : Pieces text new t) :
    new.drop (t.bodyStart + p.written.length) = p.after := by
  have hdrop := congrArg (List.drop (p.before ++ p.written).length) p.new_eq
  rwa [← List.append_assoc, List.drop_left, List.length_append, p.start] at hdrop

/-- Where a table is written back, the piece that is written is the new body. -/
theorem Pieces.written_eq {text table : String} {columns : List Column} {fks : List ForeignKey}
    (ht : creation? table (closures text) = some t)
    (p : Pieces text.toList (writeBack text table columns fks).toList t) :
    p.written = newBody text.toList t columns fks := by
  have hpieces := (toList_writeBack ht).symm.trans p.new_eq
  rw [rewritten, p.take_text, p.drop_text] at hpieces
  exact (List.append_cancel_right (List.append_cancel_left hpieces)).symm

/-- The closures of the rewritten text are those of the old one, moved along where they
reach behind the body. -/
theorem Rewriting.closures_eq (r : Rewriting text new t) :
    closuresOfMasked (mask new) = (closuresOfMasked (mask text)).map
      (Closure.shifted t.bodyStart t.bodyEnd text.length new.length) := by
  obtain ⟨hold, hnew⟩ := r.length_eq
  have h := @closuresAround_eq_map_shifted r.maskedBefore r.maskedAfter
    (r.before.length + r.old.length) (r.before.length + r.written.length)
    (by rw [r.length_before]; omega) r.after.length
  rw [r.closures_text, r.closures_new, h, r.stop, r.length_before, r.start, hold, hnew]

/-- A closure that does not reach around the new body has the body it had, with
its comments and without. -/
theorem Rewriting.body_eq (r : Rewriting text new t) {c : Closure}
    (hc : c ∈ closuresOfMasked (mask text)) (hout : ¬c.Encloses t) :
    (c.shifted t.bodyStart t.bodyEnd text.length new.length).body new = c.body text
      ∧ (c.shifted t.bodyStart t.bodyEnd text.length new.length).body (mask new)
        = c.body (mask text) := by
  have hstart := r.start
  have hstop := r.stop
  have hcase : (c.bodyStart ≤ r.before.length ∧ c.bodyEnd < r.before.length)
      ∨ (r.before.length + r.old.length < c.bodyStart
        ∧ r.before.length + r.old.length ≤ c.bodyEnd) := by
    rw [r.closures_text] at hc
    have hlength := r.length_before
    rcases cases_of_mem_closuresAround hc with ⟨h1, h2⟩ | ⟨h1, h2⟩ | h3
    · exact .inl ⟨by omega, by omega⟩
    · exact absurd ⟨by omega, by omega⟩ hout
    · exact .inr h3
  obtain ⟨hold, hnew⟩ := r.length_eq
  have hafter : r.maskedAfter.length = r.after.length := by
    have hmask := congrArg List.length r.mask_text
    rw [mask, length_maskFrom] at hmask
    simp only [List.length_append, r.length_before, r.length_old] at hmask
    omega
  -- the text and the masked text are cut at the same places, so one lemma serves for both
  have hraw := @body_shifted r.before r.old r.written r.after c hcase
  have hmasked := @body_shifted r.maskedBefore r.maskedOld r.written r.maskedAfter c
    (by rw [r.length_before, r.length_old]; exact hcase)
  rw [← r.text_eq, ← r.new_eq, hstop, hstart, ← hold, ← hnew] at hraw
  rw [← r.mask_text, ← r.mask_new, r.length_before, r.length_old, hafter, hstop, hstart, ← hold,
    ← hnew]
    at hmasked
  exact ⟨hraw, hmasked⟩

end Rewriting

/-! ### Writing back is local -/

/-- Holds when two blocks say the same about their table. -/
structure Block.Agrees (a b : Block) : Prop where
  columns : a.columns = b.columns
  foreignKeys : a.foreignKeys = b.foreignKeys
  dropped : a.dropped = b.dropped
  droppedForeign : a.droppedForeign = b.droppedForeign
  renamed : a.renamed = b.renamed

/-- What a block says is read off the body and the builder, so closures that have these in
common give blocks that agree. -/
theorem agrees_of_body_eq {masked masked' : List Char} (down down' : Option (Nat × Nat))
    {c c' : Closure} (hbody : c.body masked = c'.body masked')
    (hbuilder : c.builder = c'.builder) :
    (c.block masked down).Agrees (c'.block masked' down') := by
  have hstatements : statements (c.body masked) c.builder
      = statements (c'.body masked') c'.builder := by
    rw [hbody, hbuilder]
  have h := congrArg Draft.ofStatements hstatements
  exact ⟨congrArg Draft.finalColumns h, congrArg Draft.finalForeignKeys h,
    congrArg Draft.dropped h,
    congrArg Draft.droppedForeign h, congrArg Draft.renamed h⟩

/-- Writing a table back is local. Outside of the body of the first closure that
creates the table, the text stays as it is. The closures of the new text are
those of the old one, with every offset from the end of that body on moved by
the difference in length; only the start of the body itself stays when the body
was empty. So every closure that does not enclose the new body keeps its own
body and says what it said. A migration that does not create the table is not
touched. -/
theorem closures_writeBack (text table : String) (columns : List Column) (fks : List ForeignKey)
    (h : Named columns fks) :
    (∀ t, creation? table (closures text) = some t → OpensInCode text.toList →
      NoneBeginsIn text.toList t →
      (∃ body, (writeBack text table columns fks).toList
        = text.toList.take t.bodyStart ++ body ++ text.toList.drop t.bodyEnd)
      ∧ closures (writeBack text table columns fks) = (closures text).map
          (Closure.shifted t.bodyStart t.bodyEnd text.length
            (writeBack text table columns fks).length)
      ∧ ∀ c ∈ closures text, ¬c.Encloses t →
          let new := writeBack text table columns fks
          let c' := c.shifted t.bodyStart t.bodyEnd text.length new.length
          c'.body new.toList = c.body text.toList
            ∧ (c'.block (mask new.toList) (downSpan? (mask new.toList))).Agrees
                (c.block (mask text.toList) (downSpan? (mask text.toList))))
    ∧ (creation? table (closures text) = none → writeBack text table columns fks = text) := by
  refine ⟨fun t ht hcode hnone => ?_, fun hnone => by rw [writeBack, hnone]⟩
  obtain ⟨r⟩ := nonempty_rewriting hcode ht hnone h
  rw [← String.length_toList, ← String.length_toList]
  refine ⟨⟨newBody text.toList t columns fks, ?_⟩, r.closures_eq, fun c hc hout => ?_⟩
  · rw [toList_writeBack ht, rewritten, List.append_assoc]
  · obtain ⟨hraw, hmasked⟩ := r.body_eq hc hout
    exact ⟨hraw, agrees_of_body_eq _ _ hmasked rfl⟩

/-- A migration that creates a table and alters another. -/
def twoClosures : String :=
  "Schema::create('tags', function (Blueprint $t) \x7b\n    $t->id();\n\x7d);\n"
    ++ "Schema::table('posts', function (Blueprint $t) \x7b $t->dropColumn('tag'); \x7d);\n"

/-- The closure that creates a table there. -/
def tagsClosure : Closure := ⟨⟨.create, "tags", "t"⟩, 48, 63⟩

/-- In a migration with two closures, the tags are written back. Both closures are found
again, and the second one has moved along with its text. -/
theorem closures_writeBack_twoClosures :
    Named [⟨"label", .string, false, false, false⟩] []
      ∧ creation? "tags" (closures twoClosures) = some tagsClosure
      ∧ OpensInCode twoClosures.toList ∧ NoneBeginsIn twoClosures.toList tagsClosure
      ∧ closures (writeBack twoClosures "tags" [⟨"label", .string, false, false, false⟩] [])
        = (closures twoClosures).map (Closure.shifted 48 63 twoClosures.length
            (writeBack twoClosures "tags" [⟨"label", .string, false, false, false⟩]
              []).length) := by
  have hnamed : Named [⟨"label", .string, false, false, false⟩] [] := by
    refine ⟨fun c hc => ?_, fun fk hfk => by cases hfk⟩
    rw [List.mem_singleton.mp hc]
    decide
  have hdecided := of_ofList_append (t := twoClosures)
    (p := fun cs => creation? "tags" (closuresOfMasked (mask cs)) = some tagsClosure
      ∧ OpensInCode cs
      ∧ NoneBeginsIn cs tagsClosure)
    rfl rfl rfl (by decide +kernel)
  obtain ⟨ht, hcode, hnone⟩ := hdecided
  exact ⟨hnamed, ht, hcode, hnone,
    ((closures_writeBack twoClosures "tags" _ _ hnamed).1 tagsClosure ht hcode hnone).2.1⟩

/-- The start of an empty body is also the offset of its closing brace, and does
not move with it. -/
theorem closures_writeBack_emptyBody :
    let text := "Schema::create('t', function (Blueprint $t) \x7b\x7d);"
    let new := writeBack text "t" [] []
    let t : Closure := ⟨⟨.create, "t", "t"⟩, 45, 45⟩
    Named [] [] ∧ creation? "t" (closures text) = some t ∧ OpensInCode text.toList
      ∧ NoneBeginsIn text.toList t
      ∧ closures new ≠ (closures text).map fun c =>
          { c with
            bodyStart :=
              if t.bodyEnd ≤ c.bodyStart then c.bodyStart + new.length - text.length
              else c.bodyStart
            bodyEnd :=
              if t.bodyEnd ≤ c.bodyEnd then c.bodyEnd + new.length - text.length
                else c.bodyEnd } := by
  intro text new t
  -- this can be computed for a list of characters, but not through a string
  have hdecided := of_ofList (s := text)
    (p := fun cs => creation? "t" (closuresOfMasked (mask cs)) = some t ∧ OpensInCode cs
      ∧ NoneBeginsIn cs t
      ∧ closuresOfMasked (mask (rewritten cs t [] [])) ≠ (closuresOfMasked (mask cs)).map fun c =>
          { c with
            bodyStart :=
              if t.bodyEnd ≤ c.bodyStart then
                c.bodyStart + (rewritten cs t [] []).length - cs.length
              else c.bodyStart
            bodyEnd :=
              if t.bodyEnd ≤ c.bodyEnd then c.bodyEnd + (rewritten cs t [] []).length - cs.length
              else c.bodyEnd })
    rfl (by decide +kernel)
  obtain ⟨ht, hcode, hnone, hmoved⟩ := hdecided
  have hnew : new.toList = rewritten text.toList t [] [] := toList_writeBack ht
  rw [← hnew, String.length_toList, String.length_toList] at hmoved
  exact ⟨⟨fun _ hc => absurd hc List.not_mem_nil, fun _ hfk => absurd hfk List.not_mem_nil⟩, ht,
    hcode, hnone,
    hmoved⟩

end SchemaAtlas.Migration
