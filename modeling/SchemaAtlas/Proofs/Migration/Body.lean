import SchemaAtlas.Proofs.Migration.Call
import SchemaAtlas.Proofs.Migration.Guarded

/-!
# `SchemaAtlas.Proofs.Migration.Body`: the body of a closure, written and read

The body of a closure that is made here is a line for each call, indented alike
(`bodyText`). `statements_bodyText` reads the calls back.

Such a body is also inert for everything that reads the text around it: it has
no slash that could begin a comment, leaves no string open, opens and closes no
brace, and neither a closure nor a method that undoes a migration begins in it,
whatever follows (`quiet_head_bodyText`, `quiet_downHead_bodyText`).
-/

set_option autoImplicit false

namespace SchemaAtlas.Migration

open SchemaAtlas.Scan SchemaAtlas.Text

/-! ### Lines of calls -/

/-- Spaces and tabs only. -/
def Indent (x : List Char) : Prop :=
  ∀ c ∈ x, c = ' ' ∨ c = '\t'

/-- A call on a line of its own. -/
def lineText (builder : String) (indent : List Char) (c : Call) : List Char :=
  indent ++ (c.text builder ++ ['\n'])

/-- Calls on lines of their own. -/
def linesText (builder : String) (indent : List Char) (calls : List Call) : List Char :=
  calls.flatMap (lineText builder indent)

/-- The body of a closure: a line for each call, and the indentation of the
closing brace. -/
def bodyText (builder : String) (indent close : List Char) (calls : List Call) : List Char :=
  '\n' :: (linesText builder indent calls ++ close)

/-- What goes into a body that is made here: a name for the builder, spaces and
tabs for the indentation, and calls with names where names are expected. -/
structure IsBody (builder : String) (indent close : List Char) (calls : List Call) : Prop where
  builder : isName builder = true
  indent : Indent indent
  close : Indent close
  calls : ∀ c ∈ calls, c.WellFormed

section Body

variable {builder : String} {indent close : List Char} {calls : List Call}

/-- A body without its first call is a body, so facts about bodies can be proved call by
call. -/
theorem IsBody.of_cons {c : Call} (h : IsBody builder indent close (c :: calls)) :
    IsBody builder indent close calls :=
  ⟨h.builder, h.indent, h.close, fun d hd => h.calls d (List.mem_cons_of_mem c hd)⟩

/-- The first call of a body is well formed. -/
theorem IsBody.wellFormed {c : Call} (h : IsBody builder indent close (c :: calls)) :
    c.WellFormed :=
  h.calls c List.mem_cons_self

/-- The lines of some calls are the line of the first one, followed by those of the
others. -/
theorem bodyText_cons (c : Call) :
    linesText builder indent (c :: calls) = lineText builder indent c
      ++ linesText builder indent calls :=
  List.flatMap_cons

/-! ### Characters -/

/-- The characters of a body that are in no name: none of them is a slash, a
brace or a colon. -/
def bodySigns : List Char := ['\n', ' ', '\t', '$', '-', '>', '(', ')', '\'', ';']

/-- Every character of a call is in a name or one of the signs that bodies are written
with. -/
theorem mem_text {c : Call} (hb : isName builder = true) (h : c.WellFormed) {d : Char}
    (hd : d ∈ c.text builder) : isWord d = true ∨ d ∈ bodySigns := by
  simp only [Call.text, List.mem_cons, List.mem_append, List.not_mem_nil, or_false] at hd
  rcases hd with rfl | hd | rfl | rfl | hd | rfl | hd | rfl
  · exact .inr (by decide)
  · exact .inl (isWord_of_mem_name hb hd)
  · exact .inr (by decide)
  · exact .inr (by decide)
  · exact .inl (isWord_of_mem_name h.method hd)
  · exact .inr (by decide)
  · have ht := isTailChar_of_mem_tail h hd
    simp only [isTailChar, Bool.or_eq_true, beq_iff_eq, or_assoc] at ht
    rcases ht with hw | rfl | rfl | rfl | rfl | rfl
    · exact .inl hw
    all_goals exact .inr (by decide)
  · exact .inr (by decide)

/-- An indent is made of blanks and tabs, which are among the signs of a body. -/
theorem mem_indent {x : List Char} (hx : Indent x) {d : Char} (hd : d ∈ x) : d ∈ bodySigns := by
  rcases hx d hd with rfl | rfl
  · decide
  · decide

/-- Every character of a body is in a name or one of the signs that bodies are written with,
line breaks and indents included. -/
theorem mem_bodyText (h : IsBody builder indent close calls) {d : Char}
    (hd : d ∈ bodyText builder indent close calls) : isWord d = true ∨ d ∈ bodySigns := by
  simp only [bodyText, List.mem_cons, List.mem_append, linesText, List.mem_flatMap] at hd
  rcases hd with rfl | ⟨c, hc, hd⟩ | hd
  · exact .inr (by decide)
  · simp only [lineText, List.mem_append, List.mem_singleton] at hd
    rcases hd with hd | hd | rfl
    · exact .inr (mem_indent h.indent hd)
    · exact mem_text h.builder (h.calls c hc) hd
    · exact .inr (by decide)
  · exact .inr (mem_indent h.close hd)

/-- A sign that is not among those of a body is not in it, for instance a brace or a
slash. -/
theorem notMem_bodyText (h : IsBody builder indent close calls) {d : Char} (hw : isWord d = false)
    (hd : d ∉ bodySigns) : d ∉ bodyText builder indent close calls := by
  intro hm
  rcases mem_bodyText h hm with hw' | hd'
  · rw [hw] at hw'
    cases hw'
  · exact hd hd'

/-! ### Quotes, braces and comments -/

/-- An indent has no quotes and leaves no string open. -/
theorem over_indent {x : List Char} (hx : Indent x) : Quotes.outside.over x = .outside := by
  refine Quotes.over_outside_of_noQuote x fun c hc => ?_
  rcases hx c hc with rfl | rfl
  · decide
  · decide

/-- A line with one call leaves no string open, as the quotes of the call are closed. -/
theorem over_lineText (hb : isName builder = true) (hi : Indent indent) {c : Call}
    (h : c.WellFormed) : Quotes.outside.over (lineText builder indent c) = .outside := by
  rw [lineText, Quotes.over_append, over_indent hi, Quotes.over_append, over_text hb h]
  rfl

/-- A body leaves no string open, however many lines it has. -/
theorem over_bodyText (h : IsBody builder indent close calls) :
    Quotes.outside.over (bodyText builder indent close calls) = .outside := by
  have hlines : Quotes.outside.over (linesText builder indent calls) = .outside := by
    induction calls with
    | nil => rfl
    | cons c calls ih =>
        rw [bodyText_cons, Quotes.over_append, over_lineText h.builder h.indent h.wellFormed]
        exact ih h.of_cons
  rw [bodyText, Quotes.over_cons, Quotes.over_append]
  show Quotes.over (Quotes.over .outside _) _ = _
  rw [hlines, over_indent h.close]

/-- A body neither opens nor closes a brace, so the search for a closing brace goes through
it with the depth that it came with. -/
theorem closeFrom_bodyText (h : IsBody builder indent close calls) (d : Int) (i : Nat)
    (r : List Char) :
    closeFrom .outside d i (bodyText builder indent close calls ++ r)
      = closeFrom .outside d (i + (bodyText builder indent close calls).length) r := by
  rw [closeFrom_append_of_noBrace _ _ _ _ _ (notMem_bodyText h (by decide) (by decide))
    (notMem_bodyText h (by decide) (by decide)), over_bodyText h]

/-- A body is code throughout: there is no comment in it, and none begins in it with the
text behind. -/
theorem maskFrom_bodyText (h : IsBody builder indent close calls) (r : List Char) :
    maskFrom (.code .outside) (bodyText builder indent close calls ++ r)
      = bodyText builder indent close calls ++ maskFrom (.code .outside) r := by
  rw [maskFrom_append_of_noSlash _ _ _ (notMem_bodyText h (by decide) (by decide)),
    over_bodyText h]

/-! ### Reading the calls -/

/-- A text without a dollar sign has no statement in it, nor the beginning of one. -/
theorem quiet_statementHead {x : List Char} (h : '$' ∉ x) : Quiet (statementHead builder) x :=
  quiet_of_notMem (leads_statementHead builder) (fun _ hl => hl.1) h

/-- A character other than blank and tab is not in an indent. -/
theorem notMem_of_indent {x : List Char} (hx : Indent x) {d : Char} (hs : d ≠ ' ')
    (ht : d ≠ '\t') :
    d ∉ x := by
  intro hm
  rcases hx d hm with rfl | rfl
  · exact hs rfl
  · exact ht rfl

/-- The statements of lines of calls, wherever the search for them begins, are those of the
calls, in order and none of them twice. -/
theorem map_ofHead_findAllFrom (h : IsBody builder indent close calls) (i : Nat) :
    (findAllFrom (statementHead builder) i 0 (linesText builder indent calls ++ close)).map
        Statement.ofHead = calls.map Call.statement := by
  induction calls generalizing i with
  | nil =>
      have hquiet : Quiet (statementHead builder) close :=
        quiet_statementHead (notMem_of_indent h.close (by decide) (by decide))
      show (findAllFrom (statementHead builder) i 0 close).map _ = []
      rw [findAllFrom_quiet hquiet]
      rfl
  | cons c calls ih =>
      have hc := h.wellFormed
      -- nothing is found in the indentation, then the head of the call, and nothing in its tail
      have hcut : linesText builder indent (c :: calls) ++ close
          = indent ++ (('$' :: (builder.toList ++ '-' :: '>' :: (c.method.toList ++ ['('])))
            ++ (c.tail ++ ';' :: '\n' :: (linesText builder indent calls ++ close))) := by
        simp [bodyText_cons, lineText, Call.text]
      have hhead := statementHead_append builder hc.method
        (c.tail ++ ';' :: '\n' :: (linesText builder indent calls ++ close))
      have hrest : c.tail ++ ';' :: '\n' :: (linesText builder indent calls ++ close)
          = (c.tail ++ [';', '\n']) ++ (linesText builder indent calls ++ close) := by
        simp
      have hindent : Quiet (statementHead builder) indent :=
        quiet_statementHead (notMem_of_indent h.indent (by decide) (by decide))
      have htail : Quiet (statementHead builder) (c.tail ++ [';', '\n']) := by
        refine quiet_statementHead fun hm => ?_
        rcases List.mem_append.mp hm with hm | hm
        · exact notMem_tail hc (by decide) hm
        · exact absurd hm (by decide)
      rw [hcut, findAllFrom_of_quiet hindent, findAllFrom_of_match hhead (by simp), List.map_cons,
        ofHead_append hc, hrest, findAllFrom_of_quiet htail, ih h.of_cons]
      rfl

/-- The statements of a body are its calls. So what is written as calls is read as what the
calls say. -/
theorem statements_bodyText (h : IsBody builder indent close calls) :
    statements (bodyText builder indent close calls) builder = calls.map Call.statement := by
  have hbreak : Quiet (statementHead builder) ['\n'] := quiet_statementHead (by decide)
  have hcut : bodyText builder indent close calls
      = ['\n'] ++ (linesText builder indent calls ++ close) := rfl
  rw [statements, findAll, hcut, findAllFrom_of_quiet hbreak]
  exact map_ofHead_findAllFrom h _

/-! ### Nothing else begins in a body -/

/-- A body ends in a blank, and in no more than blanks behind its last line
break. -/
theorem exists_bodyText_eq (h : IsBody builder indent close calls) :
    ∃ x, bodyText builder indent close calls = x ++ ['\n'] ++ close
      ∧ ∀ d ∈ x, isWord d = true ∨ d ∈ bodySigns := by
  obtain ⟨x, hx⟩ : ∃ x, '\n' :: linesText builder indent calls = x ++ ['\n'] := by
    rcases List.eq_nil_or_concat calls with rfl | ⟨calls, c, rfl⟩
    · exact ⟨[], rfl⟩
    · refine ⟨'\n' :: (linesText builder indent calls ++ (indent ++ c.text builder)), ?_⟩
      simp [linesText, lineText]
  have hbody : bodyText builder indent close calls = x ++ ['\n'] ++ close := by
    rw [← hx]
    rfl
  refine ⟨x, hbody, fun d hd => mem_bodyText h ?_⟩
  rw [hbody]
  simp [hd]

/-- No closure begins in a body, as the head of a closure has two colons and a body has
none. -/
theorem quiet_head_bodyText (h : IsBody builder indent close calls) :
    Quiet head (bodyText builder indent close calls) := by
  obtain ⟨x, hx, hsigns⟩ := exists_bodyText_eq h
  have hcolon : ':' ∉ x := by
    intro hm
    rcases hsigns ':' hm with hw | hs
    · exact absurd hw (by decide)
    · exact absurd hs (by decide)
  rw [hx]
  refine quiet_append (quiet_of_stop leads_head ?_) (quiet_of_notMem leads_head (c := 'S') ?_ ?_)
  · rintro _ rfl
    exact ⟨by decide, ':', by decide, hcolon⟩
  · rintro _ rfl
    rfl
  · exact notMem_of_indent h.close (by decide) (by decide)

/-- Holds when every character of a name is followed by one that is no blank. -/
def Unjoined : List Char → Prop
  | [] => True
  | a :: x => (isWord a = true → ∃ b z, x = b :: z ∧ isBlank b = false) ∧ Unjoined x

/-- Two unjoined texts one after the other are unjoined, since a word that ends the first is
followed by no blank in either. -/
theorem unjoined_append {x y : List Char} (hx : Unjoined x) (hy : Unjoined y) :
    Unjoined (x ++ y) := by
  induction x with
  | nil => exact hy
  | cons a x ih =>
      refine ⟨fun ha => ?_, ih hx.2⟩
      obtain ⟨b, z, rfl, hb⟩ := hx.1 ha
      exact ⟨b, z ++ y, rfl, hb⟩

/-- The end of an unjoined text is unjoined. -/
theorem unjoined_of_suffix {x y : List Char} (hx : Unjoined x) (hy : y <:+ x) : Unjoined y := by
  obtain ⟨z, rfl⟩ := hy
  induction z with
  | nil => exact hx
  | cons a z ih => exact ih hx.2

/-- Text without blanks that ends in a sign is unjoined: no word in it can have a blank
behind it. -/
theorem unjoined_of_noBlank {x : List Char} {d : Char} (hx : ∀ c ∈ x, isBlank c = false)
    (hd : isWord d = false) (hb : isBlank d = false) : Unjoined (x ++ [d]) := by
  induction x with
  | nil => exact ⟨fun h => absurd h (by rw [hd]; decide), trivial⟩
  | cons a x ih =>
      refine ⟨fun _ => ?_, ih fun c hc => hx c (List.mem_cons_of_mem a hc)⟩
      cases x with
      | nil => exact ⟨d, [], rfl, hb⟩
      | cons b z => exact ⟨b, z ++ [d], rfl, hx b (by simp)⟩

/-- Text without characters of names has no words in it, and so none with a blank behind. -/
theorem unjoined_of_noWord {x : List Char} (hx : ∀ c ∈ x, isWord c = false) : Unjoined x := by
  induction x with
  | nil => trivial
  | cons a x ih =>
      refine ⟨fun h => ?_, ih fun c hc => hx c (List.mem_cons_of_mem a hc)⟩
      rw [hx a List.mem_cons_self] at h
      cases h

/-- A line break by itself is unjoined. -/
theorem unjoined_break : Unjoined ['\n'] := by
  refine unjoined_of_noWord fun c hc => ?_
  rw [List.mem_singleton.mp hc]
  decide

/-- A word that ends before a blank does not begin in unjoined text, unless it is empty. -/
theorem Unjoined.eq_nil {y r w t : List Char} {b : Char} (hy : Unjoined y) (hne : y ≠ [])
    (hw : ∀ c ∈ w, isWord c = true) (hb : isBlank b = true) (h : y ++ r = w ++ b :: t) :
    w = [] := by
  induction w generalizing y with
  | nil => rfl
  | cons c w ih =>
      exfalso
      cases y with
      | nil => exact hne rfl
      | cons a y =>
          obtain ⟨rfl, htail⟩ := List.cons.inj h
          obtain ⟨d, z, rfl, hd⟩ := hy.1 (hw a List.mem_cons_self)
          obtain rfl := ih hy.2 (by simp) (fun c hc => hw c (List.mem_cons_of_mem a hc)) htail
          obtain ⟨hdb, -⟩ := List.cons.inj htail
          rw [hdb, hb] at hd
          cases hd

/-- No method that undoes a migration begins in unjoined text, for the word `function` would
have a blank behind it. -/
theorem quiet_downHead_of_unjoined {x : List Char} (h : Unjoined x) : Quiet downHead x := by
  intro y hne hy r
  refine leads_downHead_blank.eq_none ?_
  rintro _ ⟨b, hb, rfl⟩ ⟨t, ht⟩
  have hw : ∀ c ∈ "function".toList, isWord c = true := List.all_eq_true.mp (by decide)
  rw [List.append_assoc] at ht
  have hnil := (unjoined_of_suffix h hy).eq_nil hne hw hb ht.symm
  exact absurd hnil (by simp)

/-- An indent has no characters of names and so is unjoined. -/
theorem unjoined_indent {x : List Char} (hx : Indent x) : Unjoined x := by
  refine unjoined_of_noWord fun c hc => ?_
  rcases hx c hc with rfl | rfl
  · decide
  · decide

/-- A call is written without blanks: neither names nor the signs between them are any. -/
theorem isBlank_of_mem_text {c : Call} (hb : isName builder = true) (h : c.WellFormed) {d : Char}
    (hd : d ∈ c.text builder) : isBlank d = false := by
  simp only [Call.text, List.mem_cons, List.mem_append, List.not_mem_nil, or_false] at hd
  rcases hd with rfl | hd | rfl | rfl | hd | rfl | hd | rfl
  · decide
  · exact isBlank_of_isWord (isWord_of_mem_name hb hd)
  · decide
  · decide
  · exact isBlank_of_isWord (isWord_of_mem_name h.method hd)
  · decide
  · have ht := isTailChar_of_mem_tail h hd
    simp only [isTailChar, Bool.or_eq_true, beq_iff_eq, or_assoc] at ht
    rcases ht with hw | rfl | rfl | rfl | rfl | rfl
    · exact isBlank_of_isWord hw
    all_goals decide
  · decide

/-- A line with one call is unjoined. Its indent has no words, its call has no blanks, and
it ends in a semicolon and a line break. -/
theorem unjoined_lineText (hb : isName builder = true) (hi : Indent indent) {c : Call}
    (h : c.WellFormed) : Unjoined (lineText builder indent c) := by
  have hcut : c.text builder
      = ('$' :: (builder.toList ++ '-' :: '>' :: (c.method.toList ++ '(' :: c.tail)))
        ++ [';'] := by
    simp [Call.text]
  have htext : Unjoined (c.text builder) := by
    rw [hcut]
    refine unjoined_of_noBlank (fun d hd => isBlank_of_mem_text hb h ?_) (by decide) (by decide)
    rw [hcut]
    exact List.mem_append_left _ hd
  exact unjoined_append (unjoined_indent hi)
    (unjoined_append htext unjoined_break)

/-- No method that undoes a migration begins in a body, so writing one does not move the way
back. -/
theorem quiet_downHead_bodyText (h : IsBody builder indent close calls) :
    Quiet downHead (bodyText builder indent close calls) := by
  have hlines : Unjoined (linesText builder indent calls) := by
    induction calls with
    | nil => trivial
    | cons c calls ih =>
        rw [bodyText_cons]
        exact unjoined_append (unjoined_lineText h.builder h.indent h.wellFormed) (ih h.of_cons)
  exact quiet_downHead_of_unjoined
    (unjoined_append unjoined_break (unjoined_append hlines (unjoined_indent h.close)))

end Body

end SchemaAtlas.Migration
