import SchemaAtlas.Proofs.Migration.HeadText

/-!
# `SchemaAtlas.Proofs.Migration.Guarded`: the braces that open a body

The brace that ends the beginning of a closure, or of the method that undoes a
migration, is preceded by a closing parenthesis with no opening one in between.
Any other brace in such a text stands behind an opening parenthesis with no
closing one in between. Texts like that are called `Guarded`, and none of them
reaches over the end of another (`Guarded.prefix_of_append_eq`).

So a text that ends in such a beginning can be searched by itself: whatever is
written behind it neither adds a closure to it nor takes one away (`firm_head`).
-/

set_option autoImplicit false

namespace SchemaAtlas.Migration

open SchemaAtlas.Scan SchemaAtlas.Text

/-! ### Where the braces stand -/

/-- The last parenthesis of a text. -/
def lastParenthesis? (cs : List Char) : Option Char :=
  (cs.filter fun c => c == '(' || c == ')').getLast?

/-- The empty text has no last parenthesis. It is where the inductions over the pieces of a
head begin. -/
@[simp] theorem lastParenthesis?_nil : lastParenthesis? [] = none := rfl

/-- The last parenthesis of a text is looked for in its second piece first, and in the first
piece only if the second one has none. -/
theorem lastParenthesis?_append (x y : List Char) :
    lastParenthesis? (x ++ y) = (lastParenthesis? y).or (lastParenthesis? x) := by
  simp only [lastParenthesis?, List.filter_append, List.getLast?_append]

/-- One character in front matters only to a text without any parenthesis: then it is the
last one itself, or there is none. -/
theorem lastParenthesis?_cons (c : Char) (y : List Char) :
    lastParenthesis? (c :: y)
      = (lastParenthesis? y).or (if c = '(' ∨ c = ')' then some c else none) := by
  rw [← List.singleton_append, lastParenthesis?_append]
  by_cases h : c = '(' ∨ c = ')'
  · simp [lastParenthesis?, h]
  · simp [lastParenthesis?, h]

/-- A text without either sign has no last parenthesis, so it leaves the one of whatever
stands before it in force. -/
theorem lastParenthesis?_of_none {x : List Char} (ho : '(' ∉ x) (hc : ')' ∉ x) :
    lastParenthesis? x = none := by
  have h : x.filter (fun c => c == '(' || c == ')') = [] := by
    refine List.filter_eq_nil_iff.mpr fun c hm => ?_
    have h1 : c ≠ '(' := fun e => ho (e ▸ hm)
    have h2 : c ≠ ')' := fun e => hc (e ▸ hm)
    simp [h1, h2]
  rw [lastParenthesis?, h]
  rfl

/-- A text ends in a brace behind a closing parenthesis, and any other brace in
it stands behind an opening one. -/
def Guarded (used : List Char) : Prop :=
  ∃ u, used = u ++ ['{'] ∧ lastParenthesis? u = some ')'
    ∧ ∀ x, x ++ ['{'] <+: u → lastParenthesis? x = some '('

/-- If a text ends in a guarded one, no guarded text that begins in it reaches
over its end. -/
theorem Guarded.prefix_of_append_eq {last y r used rest : List Char} (hlast : Guarded last)
    (hused : Guarded used) {cs : List Char} (hcs : last <:+ cs) (hne : y ≠ []) (hy : y <:+ cs)
    (h : y ++ r = used ++ rest) : used <+: y := by
  obtain ⟨l, rfl, hl, -⟩ := hlast
  obtain ⟨u, rfl, -, hu⟩ := hused
  rcases List.append_eq_append_iff.mp h with ⟨t, ht, -⟩ | ⟨t, ht, -⟩
  · cases t with
    | nil => exact ⟨[], by simpa using ht⟩
    | cons c t =>
        exfalso
        -- `y` ends in the brace of `last`, which is not the last brace of `used`
        obtain ⟨z, rfl⟩ := hcs
        obtain ⟨y', rfl⟩ : ∃ y', y = y' ++ ['{'] := by
          obtain ⟨w, hw⟩ := hy
          refine ⟨y.dropLast, ?_⟩
          have hlast : (w ++ y).getLast (by simp [hne]) = '{' := by
            simp [hw]
          rw [List.getLast_append_of_ne_nil _ hne] at hlast
          rw [← hlast, List.dropLast_concat_getLast]
        have hprefix : y' ++ ['{'] <+: u := by
          have h2 : (u ++ ['{']).dropLast = (y' ++ ['{'] ++ (c :: t)).dropLast := by rw [ht]
          rw [List.dropLast_concat, List.dropLast_append_of_ne_nil (by simp)] at h2
          exact ⟨_, h2.symm⟩
        have hopen := hu y' hprefix
        obtain ⟨w, hw⟩ := hy
        rw [← List.append_assoc, ← List.append_assoc] at hw
        have hsame : lastParenthesis? (w ++ y') = lastParenthesis? (z ++ l) := by
          rw [List.append_cancel_right hw]
        rw [lastParenthesis?_append, lastParenthesis?_append, hopen, hl] at hsame
        simp at hsame
  · exact ⟨t, ht.symm⟩

/-- Holds of a text without parentheses and opening braces. -/
def Smooth (x : List Char) : Prop :=
  ∀ c ∈ x, c ≠ '(' ∧ c ≠ ')' ∧ c ≠ '{'

/-- The empty text is smooth: it stands for every part of a head that may be left out. -/
theorem smooth_nil : Smooth [] := fun _ hc => absurd hc List.not_mem_nil

/-- For the fixed words of a head, being smooth is a check over their characters, which can
be carried out. -/
theorem smooth_of_all {x : List Char}
    (h : (x.all fun c => c != '(' && c != ')' && c != '{') = true) : Smooth x := by
  intro c hc
  have hall := List.all_eq_true.mp h c hc
  simpa [and_assoc] using hall

/-- Two smooth texts give a smooth one, so a head can be taken apart into the pieces between
its parentheses. -/
theorem smooth_append {x y : List Char} (hx : Smooth x) (hy : Smooth y) : Smooth (x ++ y) :=
  fun c hc => (List.mem_append.mp hc).elim (hx c) (hy c)

/-- A smooth text stays smooth behind one more character that is neither a parenthesis nor
an opening brace. -/
theorem smooth_cons {c : Char} {x : List Char} (hc : c ≠ '(' ∧ c ≠ ')' ∧ c ≠ '{')
    (hx : Smooth x) : Smooth (c :: x) := by
  intro d hd
  rcases List.mem_cons.mp hd with rfl | hd
  · exact hc
  · exact hx d hd

/-- A text of one class of characters is smooth if neither parenthesis and no opening brace
belongs to the class. Names, blanks and types are such texts. -/
theorem smooth_of_class {p : Char → Bool} {x : List Char} (hx : ∀ c ∈ x, p c = true)
    (ho : p '(' = false) (hc : p ')' = false) (hb : p '{' = false) : Smooth x :=
  fun c hm => ⟨ne_of_class (hx c hm) ho, ne_of_class (hx c hm) hc, ne_of_class (hx c hm) hb⟩

/-- Blanks are smooth. They may stand between any two pieces of a head without changing
where its braces are. -/
theorem smooth_blanks {b : List Char} (hb : Blanks b) : Smooth b :=
  smooth_of_class hb (by decide) (by decide) (by decide)

/-- Names are smooth, since a name has word characters only. This is what a table name
between quotes comes down to. -/
theorem smooth_name {s : String} (hs : isName s = true) : Smooth s.toList := by
  have hword : ∀ c ∈ s.toList, isWord c = true := by
    obtain ⟨c, w, hcw, hc, hw⟩ := exists_cons_of_isName hs
    rw [hcw]
    simpa [hc] using hw
  exact smooth_of_class hword (by decide) (by decide) (by decide)

/-- The word `static` in front of a closure is smooth, with the blanks behind it or without
the word altogether. -/
theorem smooth_static {x : List Char} (hx : StaticText x) : Smooth x := by
  rcases hx with rfl | ⟨b, hb, -, rfl⟩
  · exact smooth_nil
  · have hword : Smooth "static".toList := smooth_of_all (by decide)
    exact smooth_append hword (smooth_blanks hb)

/-- The type of a closure's parameter is smooth: it is a class name with blanks behind it,
if there is one. -/
theorem smooth_parameterType {x : List Char} (hx : ParameterTypeText x) : Smooth x := by
  rcases hx with rfl | ⟨w, b, hw, -, hb, -, rfl⟩
  · exact smooth_nil
  · exact smooth_append (smooth_of_class hw (by decide) (by decide) (by decide))
      (smooth_blanks hb)

/-- The return type of a closure is smooth: a colon and the word `void`, with blanks around
it, or nothing at all. -/
theorem smooth_returnType {x : List Char} (hx : ReturnTypeText x) : Smooth x := by
  rcases hx with rfl | ⟨b, b', hb, hb', rfl⟩
  · exact smooth_nil
  · have hvoid : Smooth "void".toList := smooth_of_all (by decide)
    exact smooth_cons (by decide)
      (smooth_append (smooth_blanks hb) (smooth_append hvoid (smooth_blanks hb')))

/-- The result's type of the method that undoes a migration is smooth: a colon and a name,
with blanks around it, or nothing at all. -/
theorem smooth_resultType {x : List Char} (hx : ResultTypeText x) : Smooth x := by
  rcases hx with rfl | ⟨b, n, b', hb, hn, hb', rfl⟩
  · exact smooth_nil
  · exact smooth_cons (by decide)
      (smooth_append (smooth_blanks hb) (smooth_append (smooth_name hn) (smooth_blanks hb')))

/-- A smooth text has no last parenthesis. Behind one that opens or closes a list, that one
stays the last. -/
theorem Smooth.lastParenthesis? {x : List Char} (h : Smooth x) : lastParenthesis? x = none :=
  lastParenthesis?_of_none (fun hm => (h _ hm).1 rfl) (fun hm => (h _ hm).2.1 rfl)

/-- No brace opens in a smooth text, so none of the braces of a head stands in one of its
smooth pieces. -/
theorem Smooth.noBrace {x : List Char} (h : Smooth x) : '{' ∉ x :=
  fun hm => (h _ hm).2.2 rfl

/-- A character that is not in the first of two pieces stands in the second. -/
theorem exists_of_append_cons_eq {x t a b : List Char} {c : Char} (h : x ++ c :: t = a ++ b)
    (hc : c ∉ a) : ∃ z, x = a ++ z ∧ z ++ c :: t = b := by
  rcases List.append_eq_append_iff.mp h with ⟨z, rfl, hz⟩ | ⟨z, rfl, hz⟩
  · cases z with
    | nil => exact ⟨[], by simp, hz⟩
    | cons d z =>
        obtain ⟨rfl, -⟩ := List.cons.inj hz
        simp at hc
  · exact ⟨z, rfl, hz.symm⟩

/-- A character that is not in the second of two pieces stands in the first. -/
theorem exists_of_append_cons_eq' {x t a b : List Char} {c : Char} (h : x ++ c :: t = a ++ b)
    (hc : c ∉ b) : ∃ z, t = z ++ b ∧ x ++ c :: z = a := by
  rcases List.append_eq_append_iff.mp h with ⟨z, rfl, hz⟩ | ⟨z, rfl, hz⟩
  · cases z with
    | nil => exact absurd (by rw [List.nil_append] at hz; rw [← hz]; simp) hc
    | cons d z =>
        obtain ⟨rfl, rfl⟩ := List.cons.inj hz
        exact ⟨z, rfl, rfl⟩
  · exact absurd (by rw [hz]; simp) hc

/-- A guarded text is made of a piece whose last parenthesis opens, one that no
parenthesis closes in, and a piece whose last parenthesis closes. -/
theorem guarded_of_parts {pre : List Char} (w post : List Char) (hpre : '{' ∉ pre)
    (hopen : lastParenthesis? pre = some '(') (hw : ')' ∉ w) (hpost : '{' ∉ post)
    (hclose : lastParenthesis? post = some ')') : Guarded (pre ++ (w ++ post) ++ ['{']) := by
  refine ⟨_, rfl, by simp [lastParenthesis?_append, hclose], ?_⟩
  rintro x ⟨t, ht⟩
  -- the brace stands in `w`
  rw [List.append_assoc, List.singleton_append] at ht
  obtain ⟨z, rfl, hz⟩ := exists_of_append_cons_eq ht hpre
  obtain ⟨t', rfl, ht'⟩ := exists_of_append_cons_eq' hz hpost
  have hclosed : ')' ∉ z := fun hm => hw (by rw [← ht']; exact List.mem_append_left _ hm)
  rw [lastParenthesis?_append, hopen]
  cases hl : lastParenthesis? z with
  | none => rfl
  | some c =>
      have hm := List.mem_of_getLast? hl
      rw [List.mem_filter] at hm
      have hne : c ≠ ')' := fun e => hclosed (e ▸ hm.1)
      have hc : c = '(' := by simpa [hne] using hm.2
      rw [hc, Option.some_or]

/-- Whatever stands before it, a parenthesis that opens a list of parameters is the last one
of a text that goes on smoothly behind it. -/
theorem lastParenthesis?_append_open {x y : List Char} (hy : Smooth y) :
    lastParenthesis? (x ++ '(' :: y) = some '(' := by
  simp [lastParenthesis?_append, lastParenthesis?_cons, hy.lastParenthesis?]

/-- A parenthesis that closes a list is the last one of a text that goes on smoothly behind
it, such as a return type. -/
theorem lastParenthesis?_close {y : List Char} (hy : Smooth y) :
    lastParenthesis? (')' :: y) = some ')' := by
  simp [lastParenthesis?_cons, hy.lastParenthesis?]

section Brace

variable {x y : List Char}

/-- No brace opens in a text that is put together from two pieces if none opens in either of
them. -/
theorem noBrace_append (hx : '{' ∉ x) (hy : '{' ∉ y) : '{' ∉ x ++ y := fun hm =>
  (List.mem_append.mp hm).elim hx hy

/-- Nor does one open if the two pieces have a character between them that is no opening
brace, in practice a parenthesis. -/
theorem noBrace_append_parenthesis {c : Char} (hc : '{' ≠ c) (hx : '{' ∉ x) (hy : '{' ∉ y) :
    '{' ∉ x ++ c :: y :=
  noBrace_append hx (List.not_mem_cons_of_ne_of_not_mem hc hy)

end Brace

/-- A quote is neither a parenthesis nor an opening brace, so the quotes around a table name
do not disturb a smooth piece. -/
theorem smooth_quote {q : Char} (hq : isQuote q = true) : q ≠ '(' ∧ q ≠ ')' ∧ q ≠ '{' := by
  simp only [isQuote, Bool.or_eq_true, beq_iff_eq] at hq
  rcases hq with rfl | rfl
  · decide
  · decide

/-- The beginnings of closures are guarded. The brace that opens the body stands behind a
closed list, of parameters or of captured variables, and any brace before it stands within
that list. -/
theorem HeadText.guarded {h : Head} {used : List Char} (hu : HeadText h used) : Guarded used := by
  obtain ⟨hq, htable, hbuilder, hb₁, hb₂, hb₃, hb₄, hb₅, hb₆, hb₇, hb₈, hstatic, htype, hreturn,
    hcaptures⟩ := hu
  rename_i q b₁ b₂ b₃ b₄ b₅ b₆ b₇ b₈ static type return_ captures
  -- the pieces that the parentheses of the text cut it into
  have hlead : Smooth ("Schema::".toList ++ (h.kind.method.toList ++ b₁)) := by
    refine smooth_append (smooth_of_all (by decide)) (smooth_append ?_ (smooth_blanks hb₁))
    cases h.kind with
    | create => exact smooth_of_all (by decide)
    | alter => exact smooth_of_all (by decide)
  have hmiddle : Smooth (b₂ ++ q :: (h.table.toList ++ q :: (b₃ ++ ',' :: (b₄ ++ (static
      ++ ("function".toList ++ b₅)))))) := by
    have hword : Smooth ("function".toList ++ b₅) :=
      smooth_append (smooth_of_all (by decide)) (smooth_blanks hb₅)
    have hcomma : Smooth (b₃ ++ ',' :: (b₄ ++ (static ++ ("function".toList ++ b₅)))) :=
      smooth_append (smooth_blanks hb₃) (smooth_cons (by decide)
        (smooth_append (smooth_blanks hb₄) (smooth_append (smooth_static hstatic) hword)))
    exact smooth_append (smooth_blanks hb₂) (smooth_cons (smooth_quote hq)
      (smooth_append (smooth_name htable) (smooth_cons (smooth_quote hq) hcomma)))
  have hparameter : Smooth (b₆ ++ (type ++ '$' :: (h.builder.toList ++ b₇))) :=
    smooth_append (smooth_blanks hb₆) (smooth_append (smooth_parameterType htype)
      (smooth_cons (by decide) (smooth_append (smooth_name hbuilder) (smooth_blanks hb₇))))
  have hresult : Smooth (b₈ ++ return_) :=
    smooth_append (smooth_blanks hb₈) (smooth_returnType hreturn)
  have hopen : '{' ≠ '(' := by decide
  have hcloses : '{' ≠ ')' := by decide
  rcases hcaptures with rfl | ⟨b, w, b', hb, hw, hb', rfl⟩
  · have hbefore := noBrace_append_parenthesis hopen hlead.noBrace
      (noBrace_append_parenthesis hopen hmiddle.noBrace hparameter.noBrace)
    have hg := guarded_of_parts [] (')' :: (b₈ ++ return_)) hbefore
      (by rw [← List.cons_append, ← List.append_assoc]
          exact lastParenthesis?_append_open hparameter)
      (by simp) (by simpa using hresult.noBrace) (lastParenthesis?_close hresult)
    simpa only [List.append_assoc, List.cons_append, List.nil_append, List.append_nil] using hg
  · have hcaptured : Smooth ((b₈ ++ return_) ++ ("use".toList ++ b)) :=
      smooth_append hresult (smooth_append (smooth_of_all (by decide)) (smooth_blanks hb))
    have hlist := noBrace_append_parenthesis hcloses hparameter.noBrace
      (noBrace_append_parenthesis hopen hcaptured.noBrace List.not_mem_nil)
    have hbefore := noBrace_append_parenthesis hopen hlead.noBrace
      (noBrace_append_parenthesis hopen hmiddle.noBrace hlist)
    have hg := guarded_of_parts w (')' :: b') hbefore
      (by simp [lastParenthesis?_append, lastParenthesis?_cons])
      hw (by simpa using (smooth_blanks hb').noBrace) (lastParenthesis?_close (smooth_blanks hb'))
    simpa only [List.append_assoc, List.cons_append, List.nil_append, List.append_nil] using hg

/-- The beginnings of methods that undo a migration are guarded. The last brace stands
behind the list of parameters, and any brace before it stands within that list. -/
theorem DownText.guarded {used : List Char} (hu : DownText used) : Guarded used := by
  obtain ⟨hb₁, hne, hb₂, hw, hb₃, hresult⟩ := hu
  rename_i b₁ b₂ w b₃ result
  have hlead : Smooth ("function".toList ++ (b₁ ++ ("down".toList ++ b₂))) :=
    smooth_append (smooth_of_all (by decide)) (smooth_append (smooth_blanks hb₁)
      (smooth_append (smooth_of_all (by decide)) (smooth_blanks hb₂)))
  have hclose : Smooth (b₃ ++ result) :=
    smooth_append (smooth_blanks hb₃) (smooth_resultType hresult)
  have hpre : '{' ∉ ("function".toList ++ (b₁ ++ ("down".toList ++ b₂))) ++ '(' :: [] :=
    noBrace_append_parenthesis (by decide) hlead.noBrace List.not_mem_nil
  have hg := guarded_of_parts w (')' :: (b₃ ++ result)) hpre
    (lastParenthesis?_append_open smooth_nil)
    hw (by simpa using hclose.noBrace) (lastParenthesis?_close hclose)
  simpa only [List.append_assoc, List.cons_append, List.nil_append, List.append_nil] using hg

/-! ### Searching up to such a text -/

/-- In a text that ends in a guarded one, what is recognized does not depend on
what comes behind. -/
theorem firm_of_guarded {α : Type} {p : Recognizer α} {T : α → List Char → Prop}
    (hp : ∀ cs rest a, p cs = some (a, rest) ↔ ∃ used, T a used ∧ cs = used ++ rest)
    (hT : ∀ a used, T a used → Guarded used) {last x : List Char} (hlast : Guarded last)
    (hx : last <:+ x) : Firm p x := by
  intro y hne hy r
  cases hm : p y with
  | some m =>
      obtain ⟨used, hused, hcut⟩ := (hp y m.2 m.1).mp hm
      refine (hp _ _ m.1).mpr ⟨used, hused, ?_⟩
      rw [hcut, List.append_assoc]
  | none =>
      cases hm' : p (y ++ r) with
      | none => rfl
      | some m =>
          obtain ⟨used, hused, hcut⟩ := (hp _ m.2 m.1).mp hm'
          obtain ⟨t, rfl⟩ := hlast.prefix_of_append_eq (hT _ _ hused) hx hne hy hcut
          have h := (hp _ t m.1).mpr ⟨used, hused, rfl⟩
          rw [hm] at h
          cases h

/-- A text that ends in a guarded one can be searched for closures by itself: no beginning
of a closure reaches over its end. -/
theorem firm_head {last x : List Char} (hlast : Guarded last) (hx : last <:+ x) : Firm head x :=
  firm_of_guarded head_eq_some_iff (fun _ _ => HeadText.guarded) hlast hx

/-- The same text can be searched by itself for the method that undoes the migration, since
the beginning of that method is guarded, too. -/
theorem firm_downHead {last x : List Char} (hlast : Guarded last) (hx : last <:+ x) :
    Firm downHead x :=
  firm_of_guarded (T := fun _ => DownText) (fun cs rest _ => downHead_eq_some_iff cs rest)
    (fun _ _ => DownText.guarded) hlast hx

/-- The beginning of a closure is never empty, so a search that has found one makes progress
behind it. -/
theorem HeadText.ne_nil {h : Head} {used : List Char} (hu : HeadText h used) : used ≠ [] := by
  obtain ⟨u, rfl, -, -⟩ := hu.guarded
  simp

/-- The beginning of the method that undoes a migration is never empty either: it has at
least its brace. -/
theorem DownText.ne_nil {used : List Char} (hu : DownText used) : used ≠ [] := by
  obtain ⟨u, rfl, -, -⟩ := hu.guarded
  simp

/-- Whatever `head` recognizes, it consumes some of the text. The general lemmas about
searching ask for this. -/
theorem consumes_head : Consumes head := by
  intro cs h rest hh
  obtain ⟨used, hu, hcut⟩ := headText_of_head hh
  exact ⟨used, hu.ne_nil, hcut⟩

/-- Whatever `downHead` recognizes, it consumes some of the text, by the same argument as
for `head`. -/
theorem consumes_downHead : Consumes downHead := by
  intro cs _ rest hh
  obtain ⟨used, hu, hcut⟩ := (downHead_eq_some_iff cs rest).mp hh
  exact ⟨used, hu.ne_nil, hcut⟩

/-- All closures begin with one and the same word, the name of the facade, so none begins in
a text without it. -/
theorem leads_head : Leads (· = "Schema::".toList) head := by
  intro cs m hm
  obtain ⟨used, ⟨⟩, rfl⟩ := @headText_of_head cs m.2 m.1 hm
  exact ⟨_, rfl, by simp only [List.append_assoc]; exact List.prefix_append _ _⟩

/-- All methods that undo a migration begin with the word `function` and one blank. So none
begins in a text where no blank follows upon that word. -/
theorem leads_downHead_blank :
    Leads (fun lead => ∃ b, isBlank b = true ∧ lead = "function".toList ++ [b]) downHead := by
  intro cs m hm
  obtain ⟨used, ⟨hb, hne, -, -, -, -⟩, rfl⟩ := (downHead_eq_some_iff cs m.2).mp hm
  rename_i b₁ b₂ w b₃ result
  cases b₁ with
  | nil => exact absurd rfl hne
  | cons b b₁ =>
      refine ⟨_, ⟨b, hb b (by simp), rfl⟩, ?_⟩
      simp only [List.append_assoc, List.cons_append, List.prefix_append_right_inj,
        List.nil_append]
      exact List.cons_prefix_cons.mpr ⟨rfl, List.nil_prefix⟩

/-- Without the blank, the lead of such a method is the word alone, which is easier to find
missing in a text. -/
theorem leads_downHead : Leads (· = "function".toList) downHead := by
  intro cs m hm
  obtain ⟨used, ⟨⟩, rfl⟩ := (downHead_eq_some_iff cs m.2).mp hm
  exact ⟨_, rfl, by simp only [List.append_assoc]; exact List.prefix_append _ _⟩

end SchemaAtlas.Migration
