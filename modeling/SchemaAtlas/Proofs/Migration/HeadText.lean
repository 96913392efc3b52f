import SchemaAtlas.Migration.Closure
import SchemaAtlas.Proofs.Scan.Search

/-!
# `SchemaAtlas.Proofs.Migration.HeadText`: the texts that open a closure

`head` recognizes the beginning of a closure and `downHead` that of the method
that undoes a migration. `HeadText` and `DownText` spell the recognized texts
out as grammars, and `head_eq_some_iff` and `downHead_eq_some_iff` say that the
recognizers take exactly these texts, whatever comes behind them.
-/

set_option autoImplicit false

namespace SchemaAtlas.Migration

open SchemaAtlas.Scan SchemaAtlas.Text

/-! ### Optional parts -/

/-- The word `static` and blanks, or nothing. -/
def StaticText (s : List Char) : Prop :=
  s = [] ∨ ∃ b, Blanks b ∧ b ≠ [] ∧ s = "static".toList ++ b

/-- The type of the closure's parameter and blanks, or nothing. -/
def ParameterTypeText (s : List Char) : Prop :=
  s = [] ∨ ∃ w b, (∀ c ∈ w, isClassPart c = true) ∧ "Blueprint".toList <:+ w ∧ Blanks b ∧ b ≠ []
    ∧ s = w ++ b

/-- The closure's return type, or nothing. -/
def ReturnTypeText (s : List Char) : Prop :=
  s = [] ∨ ∃ b b', Blanks b ∧ Blanks b' ∧ s = ':' :: (b ++ ("void".toList ++ b'))

/-- The list of captured variables, or nothing. -/
def CapturesText (s : List Char) : Prop :=
  s = [] ∨ ∃ b w b', Blanks b ∧ ')' ∉ w ∧ Blanks b'
    ∧ s = "use".toList ++ (b ++ '(' :: (w ++ ')' :: b'))

/-- The type of a method's result, or nothing. -/
def ResultTypeText (s : List Char) : Prop :=
  s = [] ∨ ∃ b n b', Blanks b ∧ isName n = true ∧ Blanks b' ∧ s = ':' :: (b ++ (n.toList ++ b'))

/-- The builder's method that a closure of a kind is handed to. -/
def BlockKind.method : BlockKind → String
  | create => "create"
  | alter => "table"

/-- The beginning of a closure, opening brace included. -/
inductive HeadText : Head → List Char → Prop
  | mk {h : Head} {q : Char} {b₁ b₂ b₃ b₄ b₅ b₆ b₇ b₈ static type return_ captures : List Char}
      (quote : isQuote q = true) (table : isName h.table = true)
      (builder : isName h.builder = true)
      (blanks₁ : Blanks b₁) (blanks₂ : Blanks b₂) (blanks₃ : Blanks b₃) (blanks₄ : Blanks b₄)
      (blanks₅ : Blanks b₅) (blanks₆ : Blanks b₆) (blanks₇ : Blanks b₇) (blanks₈ : Blanks b₈)
      (hstatic : StaticText static) (htype : ParameterTypeText type)
      (hreturn : ReturnTypeText return_) (hcaptures : CapturesText captures) :
      HeadText h ("Schema::".toList ++ (h.kind.method.toList ++ (b₁ ++ '(' :: (b₂ ++ q ::
        (h.table.toList ++ q
          :: (b₃ ++ ',' :: (b₄ ++ (static ++ ("function".toList ++ (b₅ ++ '(' ::
        (b₆ ++ (type ++ '$' :: (h.builder.toList ++ (b₇ ++ ')' :: (b₈ ++ (return_ ++ (captures
        ++ ['{'])))))))))))))))))

/-- The beginning of the method that undoes a migration, opening brace included. -/
inductive DownText : List Char → Prop
  | mk {b₁ b₂ w b₃ result : List Char}
      (blanks₁ : Blanks b₁) (some₁ : b₁ ≠ []) (blanks₂ : Blanks b₂) (closed : ')' ∉ w)
      (blanks₃ : Blanks b₃) (hresult : ResultTypeText result) :
      DownText ("function".toList ++ (b₁ ++ ("down".toList ++ (b₂ ++ '(' :: (w ++ ')' ::
        (b₃ ++ (result ++ ['{'])))))))

/-! ### Recognizers of the parts -/

/-- The builder's method is read off its word: `create` or `table`, and the rest of the text
is what stands behind that word. -/
theorem builderMethod_eq_some_iff (cs r : List Char) (kind : BlockKind) :
    builderMethod cs = some (kind, r) ↔ cs = kind.method.toList ++ r := by
  constructor
  · intro h
    simp only [builderMethod] at h
    split at h
    · rename_i u hu
      obtain ⟨rfl, rfl⟩ := Prod.mk.inj (Option.some.inj h)
      exact (literal_eq_some_iff _ _ _).mp hu
    · simp only [Option.map_eq_some_iff, Prod.mk.injEq] at h
      obtain ⟨u, hu, rfl, rfl⟩ := h
      exact (literal_eq_some_iff _ _ _).mp hu
  · rintro rfl
    cases kind with
    | create => simp [builderMethod, BlockKind.method, literal, afterLead?]
    | alter => simp [builderMethod, BlockKind.method, literal, afterLead?]

/-- `skipStatic` skips such a text in front of `function`, and it stops there: the word
`function` itself is not taken for `static`. -/
theorem skipStatic_append {static : List Char} (h : StaticText static) (r : List Char) :
    skipStatic (static ++ ("function".toList ++ r)) = "function".toList ++ r := by
  rcases h with rfl | ⟨b, hb, hne, rfl⟩
  · simp [skipStatic, literal, afterLead?]
  · have hsome : someBlanks (b ++ ("function".toList ++ r)) = some ("function".toList ++ r) :=
      (someBlanks_eq_some_iff _ _).mpr ⟨b, hb, hne, rfl, by simp [isBlank]⟩
    rw [List.append_assoc]
    simp only [skipStatic, literal_append, Option.bind_some, hsome, Option.getD_some]

/-- The blanks in front of `static`, or of `function` where the word is left out, belong to
what stands before them. -/
theorem skipBlanks_static {b static : List Char} (hb : Blanks b) (h : StaticText static)
    (r : List Char) :
    skipBlanks (b ++ (static ++ ("function".toList ++ r)))
      = static ++ ("function".toList ++ r) := by
  rw [skipBlanks_append hb]
  rcases h with rfl | ⟨b', -, -, rfl⟩
  · simp [skipBlanks, isBlank]
  · simp [skipBlanks, isBlank]

/-- Conversely, whatever `skipStatic` skips is the word `static` with its blanks, or nothing
at all. -/
theorem exists_skipStatic (cs : List Char) : ∃ s, StaticText s ∧ cs = s ++ skipStatic cs := by
  unfold skipStatic
  cases hl : (literal "static" cs).bind someBlanks with
  | none => exact ⟨[], .inl rfl, rfl⟩
  | some r =>
      obtain ⟨u, hu, hr⟩ := Option.bind_eq_some_iff.mp hl
      obtain rfl := (literal_eq_some_iff _ _ _).mp hu
      obtain ⟨b, hb, hne, rfl, -⟩ := (someBlanks_eq_some_iff _ _).mp hr
      exact ⟨_, .inr ⟨b, hb, hne, rfl⟩, by simp⟩

/-- No blank is part of a class name, so the blanks behind a type mark its end. -/
theorem isClassPart_of_isBlank {c : Char} (h : isBlank c = true) : isClassPart c = false := by
  have hw := isWord_of_isBlank h
  have hb : c ≠ '\\' := ne_of_class h (by decide)
  simp [isClassPart, hw, hb]

/-- Whatever `skipParameterType` skips is a type with blanks behind it, or nothing. This is
the half that reads the description off a successful match. -/
theorem parameterTypeText_of_skipParameterType {cs r : List Char}
    (h : skipParameterType cs = some r) :
    ∃ t, ParameterTypeText t ∧ cs = t ++ r := by
  simp only [skipParameterType] at h
  split at h
  · exact ⟨[], .inl rfl, Option.some.inj h⟩
  · rename_i w u hrun
    split at h
    · rename_i hsuffix
      obtain ⟨rfl, -, hw, -⟩ := (run_eq_some_iff _ _ _ _).mp hrun
      obtain ⟨b, hb, hne, rfl, -⟩ := (someBlanks_eq_some_iff _ _).mp h
      exact ⟨w ++ b,
        .inr ⟨w, b, hw, List.isSuffixOf_iff_suffix.mp hsuffix, hb, hne, rfl⟩, by simp⟩
    · cases h

/-- A type ends where the blanks behind it begin: the run of its characters takes the whole
type and leaves the blanks. -/
theorem run_isClassPart_append {w b : List Char} (hne : w ≠ [])
    (hw : ∀ c ∈ w, isClassPart c = true)
    (hb : Blanks b) (hb' : b ≠ []) (r : List Char) :
    run isClassPart (w ++ (b ++ r)) = some (w, b ++ r) := by
  refine (run_eq_some_iff _ _ _ _).mpr ⟨rfl, hne, hw, ?_⟩
  cases b with
  | nil => exact absurd rfl hb'
  | cons c b =>
      intro d hd
      obtain rfl : c = d := by simpa using hd
      exact isClassPart_of_isBlank (hb c List.mem_cons_self)

/-- `skipParameterType` skips the type of the parameter, however it is written, and leaves
the dollar sign that the parameter begins with. -/
theorem skipParameterType_append {t : List Char} (ht : ParameterTypeText t) (r : List Char) :
    skipParameterType (t ++ '$' :: r) = some ('$' :: r) := by
  have hblank : isBlank '$' = false := by decide
  have hpart : isClassPart '$' = false := by decide
  rcases ht with rfl | ⟨w, b, hw, hsuffix, hb, hne, rfl⟩
  · simp [skipParameterType, run, hpart]
  · have hwne : w ≠ [] := by
      rintro rfl
      exact absurd (List.suffix_nil.mp hsuffix) (by simp)
    have hsome : someBlanks (b ++ '$' :: r) = some ('$' :: r) :=
      (someBlanks_eq_some_iff _ _).mpr ⟨b, hb, hne, rfl, by simp [hblank]⟩
    have hs : "Blueprint".toList.isSuffixOf w = true := List.isSuffixOf_iff_suffix.mpr hsuffix
    rw [List.append_assoc]
    simp only [skipParameterType, run_isClassPart_append hwne hw hb hne, if_pos hs, hsome]

/-- The blanks in front of the parameter's type, or of the parameter if it has none, belong
to what stands before them. -/
theorem skipBlanks_parameterType {b t : List Char} (hb : Blanks b) (ht : ParameterTypeText t)
    (r : List Char) :
    skipBlanks (b ++ (t ++ '$' :: r)) = t ++ '$' :: r := by
  rw [skipBlanks_append hb]
  rcases ht with rfl | ⟨w, b, hw, hsuffix, -, -, rfl⟩
  · simp [skipBlanks, isBlank]
  · cases w with
    | nil => exact absurd (List.suffix_nil.mp hsuffix) (by simp)
    | cons c w =>
        have hc : isBlank c = false := by
          cases hc : isBlank c with
          | false => rfl
          | true => exact (hw c List.mem_cons_self).symm.trans (isClassPart_of_isBlank hc)
        rw [List.append_assoc, List.cons_append, skipBlanks_cons hc]

/-- Whatever `skipReturnType` skips is a return type with its colon, or nothing. It is the
reading half, as for the parameter's type. -/
theorem returnTypeText_of_skipReturnType {cs r : List Char} (h : skipReturnType cs = some r) :
    ∃ s, ReturnTypeText s ∧ cs = s ++ r := by
  simp only [skipReturnType] at h
  split at h
  · exact ⟨[], .inl rfl, Option.some.inj h⟩
  · rename_i u hu
    obtain rfl := (char_eq_some_iff _ _ _).mp hu
    simp only [Option.map_eq_some_iff] at h
    obtain ⟨v, hv, rfl⟩ := h
    obtain ⟨b, hb, hu, -⟩ := exists_skipBlanks u
    obtain ⟨b', hb', hv', -⟩ := exists_skipBlanks v
    have hlit := (literal_eq_some_iff _ _ _).mp hv
    refine ⟨_, .inr ⟨b, b', hb, hb', rfl⟩, ?_⟩
    rw [List.cons_append, List.append_assoc, List.append_assoc, ← hv', ← hlit, ← hu]

/-- `skipReturnType` skips the return type in front of anything but a blank or a colon, and
nothing if there is no return type. -/
theorem skipReturnType_append {s : List Char} (hs : ReturnTypeText s) {c : Char}
    (hblank : isBlank c = false) (hcolon : c ≠ ':') (r : List Char) :
    skipReturnType (s ++ c :: r) = some (c :: r) := by
  rcases hs with rfl | ⟨b, b', hb, hb', rfl⟩
  · simp [skipReturnType, char, hcolon]
  · have hvoid : skipBlanks (b ++ ("void".toList ++ (b' ++ c :: r)))
        = "void".toList ++ (b' ++ c :: r) := by
      rw [skipBlanks_append hb]
      simp [skipBlanks, isBlank]
    simp only [skipReturnType, List.cons_append, List.append_assoc, char_cons, hvoid,
      literal_append, Option.map_some, skipBlanks_append_cons hb' hblank]

/-- `parenthesized` recognizes a pair of parentheses and what they hold. The pair ends at
the first closing parenthesis, so what it holds has none. -/
theorem parenthesized_eq_some_iff (cs r : List Char) :
    parenthesized cs = some r ↔ ∃ w, ')' ∉ w ∧ cs = '(' :: (w ++ ')' :: r) := by
  constructor
  · intro h
    simp only [parenthesized, Option.bind_eq_bind, Option.bind_eq_some_iff] at h
    obtain ⟨u, hu, hr⟩ := h
    obtain rfl := (char_eq_some_iff _ _ _).mp hu
    have hdrop := (char_eq_some_iff _ _ _).mp hr
    refine ⟨u.takeWhile fun c => c != ')', ?_, by rw [← hdrop, List.takeWhile_append_dropWhile]⟩
    intro hm
    have hp := List.mem_takeWhile_imp hm
    exact absurd hp (by decide)
  · rintro ⟨w, hw, rfl⟩
    have hall : ∀ c ∈ w, (c != ')') = true := by
      intro c hc
      have hne : c ≠ ')' := fun e => hw (e ▸ hc)
      simpa using hne
    have hdrop : (w ++ ')' :: r).dropWhile (fun c => c != ')') = ')' :: r := by
      rw [List.dropWhile_append_of_pos hall]
      rfl
    simp only [parenthesized, Option.bind_eq_bind, char_cons, Option.bind_some, hdrop]

/-- Whatever `skipCaptures` skips is a list of captured variables with its `use`, or
nothing. It is the reading half once more. -/
theorem capturesText_of_skipCaptures {cs r : List Char} (h : skipCaptures cs = some r) :
    ∃ s, CapturesText s ∧ cs = s ++ r := by
  simp only [skipCaptures] at h
  split at h
  · exact ⟨[], .inl rfl, Option.some.inj h⟩
  · rename_i u hu
    obtain rfl := (literal_eq_some_iff _ _ _).mp hu
    simp only [Option.map_eq_some_iff] at h
    obtain ⟨v, hv, rfl⟩ := h
    obtain ⟨b, hb, hu, -⟩ := exists_skipBlanks u
    obtain ⟨b', hb', hv', -⟩ := exists_skipBlanks v
    obtain ⟨w, hw, hpar⟩ := (parenthesized_eq_some_iff _ _).mp hv
    refine ⟨_, .inr ⟨b, w, b', hb, hw, hb', rfl⟩, ?_⟩
    rw [List.append_assoc, List.append_assoc, List.cons_append, List.append_assoc,
      List.cons_append, ← hv', ← hpar, ← hu]

/-- `skipCaptures` skips the list of captured variables in front of the body, or nothing
where a closure captures none. -/
theorem skipCaptures_append {s : List Char} (hs : CapturesText s) (r : List Char) :
    skipCaptures (s ++ '{' :: r) = some ('{' :: r) := by
  have hbrace : isBlank '{' = false := by decide
  have hparen : isBlank '(' = false := by decide
  rcases hs with rfl | ⟨b, w, b', hb, hw, hb', rfl⟩
  · simp [skipCaptures, literal, afterLead?]
  · have hpar : parenthesized ('(' :: (w ++ ')' :: (b' ++ '{' :: r))) = some (b' ++ '{' :: r) :=
      (parenthesized_eq_some_iff _ _).mpr ⟨w, hw, rfl⟩
    simp only [skipCaptures, List.append_assoc, List.cons_append, literal_append,
      skipBlanks_append_cons hb hparen, hpar, Option.map_some, skipBlanks_append_cons hb' hbrace]

/-- Whatever `skipResultType` skips is the result's type of a method, or nothing. It is the
reading half for `downHead`. -/
theorem resultTypeText_of_skipResultType {cs r : List Char} (h : skipResultType cs = some r) :
    ∃ s, ResultTypeText s ∧ cs = s ++ r := by
  simp only [skipResultType] at h
  split at h
  · exact ⟨[], .inl rfl, Option.some.inj h⟩
  · rename_i u hu
    obtain rfl := (char_eq_some_iff _ _ _).mp hu
    simp only [Option.map_eq_some_iff, Prod.exists] at h
    obtain ⟨n, v, hn, rfl⟩ := h
    obtain ⟨b, hb, hu, -⟩ := exists_skipBlanks u
    obtain ⟨b', hb', hv', -⟩ := exists_skipBlanks v
    obtain ⟨hnv, hname, -⟩ := (name_eq_some_iff _ _ _).mp hn
    refine ⟨_, .inr ⟨b, n, b', hb, hname, hb', rfl⟩, ?_⟩
    rw [List.cons_append, List.append_assoc, List.append_assoc, ← hv', ← hnv, ← hu]

/-- `skipResultType` skips the result's type in front of the body, or nothing where a method
names no result. -/
theorem skipResultType_append {s : List Char} (hs : ResultTypeText s) (r : List Char) :
    skipResultType (s ++ '{' :: r) = some ('{' :: r) := by
  have hbrace : isBlank '{' = false := by decide
  have hword : isWord '{' = false := by decide
  rcases hs with rfl | ⟨b, n, b', hb, hn, hb', rfl⟩
  · simp [skipResultType, char]
  · simp only [skipResultType, List.cons_append, List.append_assoc, char_cons,
      skipBlanks_append_name hb hn, name_append hn hb' hword, Option.map_some,
      skipBlanks_append_cons hb' hbrace]

/-! ### The whole texts -/

/-- Where a certain character is found behind blanks, the text is those blanks, the
character, and the rest. -/
theorem eq_of_char_skipBlanks {x : Char} {cs r : List Char}
    (h : char x (skipBlanks cs) = some r) :
    ∃ b, Blanks b ∧ cs = b ++ x :: r := by
  obtain ⟨b, hb, hcs, -⟩ := exists_skipBlanks cs
  rw [(char_eq_some_iff _ _ _).mp h] at hcs
  exact ⟨b, hb, hcs⟩

/-- Whatever `head` recognizes is one of the described texts, for the very method, table and
builder that it reports. -/
theorem headText_of_head {cs rest : List Char} {h : Head} (hh : head cs = some (h, rest)) :
    ∃ used, HeadText h used ∧ cs = used ++ rest := by
  simp only [head, Option.bind_eq_bind, Option.bind_eq_some_iff, Prod.exists, Option.pure_def,
    Option.some.injEq, Prod.mk.injEq] at hh
  obtain ⟨c₁, h₁, kind, c₂, h₂, c₃, h₃, table, c₄, h₄, c₅, h₅, c₆, h₆, c₇, h₇, c₈, h₈, c₉, h₉,
    builder, c₁₀, h₁₀, c₁₁, h₁₁, c₁₂, h₁₂, c₁₃, h₁₃, c₁₄, h₁₄, rfl, rfl⟩ := hh
  -- what each step leaves, and the piece in front of it
  have e₁ := (literal_eq_some_iff _ _ _).mp h₁
  have e₂ := (builderMethod_eq_some_iff _ _ _).mp h₂
  obtain ⟨b₁, hb₁, e₃⟩ := eq_of_char_skipBlanks h₃
  obtain ⟨b₂, hb₂, e₄, -⟩ := exists_skipBlanks c₃
  obtain ⟨q, hq, htable, e₅⟩ := (quotedName_eq_some_iff _ _ _).mp h₄
  obtain ⟨b₃, hb₃, e₆⟩ := eq_of_char_skipBlanks h₅
  obtain ⟨b₄, hb₄, e₇, -⟩ := exists_skipBlanks c₅
  obtain ⟨static, hstatic, e₈⟩ := exists_skipStatic (skipBlanks c₅)
  have e₉ := (literal_eq_some_iff _ _ _).mp h₆
  obtain ⟨b₅, hb₅, e₁₀⟩ := eq_of_char_skipBlanks h₇
  obtain ⟨b₆, hb₆, e₁₁, -⟩ := exists_skipBlanks c₇
  have e₁₂ := (char_eq_some_iff _ _ _).mp h₉
  obtain ⟨type, htype, e₁₃⟩ := parameterTypeText_of_skipParameterType h₈
  obtain ⟨e₁₄, hbuilder, -⟩ := (name_eq_some_iff _ _ _).mp h₁₀
  obtain ⟨b₇, hb₇, e₁₅⟩ := eq_of_char_skipBlanks h₁₁
  obtain ⟨b₈, hb₈, e₁₆, -⟩ := exists_skipBlanks c₁₁
  obtain ⟨return_, hreturn, e₁₇⟩ := returnTypeText_of_skipReturnType h₁₂
  obtain ⟨captures, hcaptures, e₁₈⟩ := capturesText_of_skipCaptures h₁₃
  have e₁₉ := (char_eq_some_iff _ _ _).mp h₁₄
  refine ⟨_, HeadText.mk hq htable hbuilder hb₁ hb₂ hb₃ hb₄ hb₅ hb₆ hb₇ hb₈ hstatic htype hreturn
    hcaptures, ?_⟩
  simp only [List.append_assoc, List.cons_append, List.nil_append]
  rw [← e₁₉, ← e₁₈, ← e₁₇, ← e₁₆, ← e₁₅, ← e₁₄, ← e₁₂, ← e₁₃, ← e₁₁, ← e₁₀, ← e₉, ← e₈, ← e₇,
    ← e₆, ← e₅, ← e₄, ← e₃, ← e₂, ← e₁]

/-- The list of captured variables, and the body where there is none, begins with no blank
and no colon. So the return type before it is read to its end. -/
theorem exists_cons_of_captures {s : List Char} (hs : CapturesText s) (r : List Char) :
    ∃ c t, s ++ '{' :: r = c :: t ∧ isBlank c = false ∧ c ≠ ':' := by
  rcases hs with rfl | ⟨b, w, b', -, -, -, rfl⟩
  · exact ⟨'{', r, rfl, by decide, by decide⟩
  · exact ⟨'u', _, rfl, by decide, by decide⟩

/-- The return type is skipped in front of that list and of the body, with the blanks before
it and whether or not it is there. -/
theorem skipReturnType_captures {b t s : List Char} (hb : Blanks b) (ht : ReturnTypeText t)
    (hs : CapturesText s)
    (r : List Char) :
    skipReturnType (skipBlanks (b ++ (t ++ (s ++ '{' :: r)))) = some (s ++ '{' :: r) := by
  obtain ⟨c, u, hcu, hblank, hcolon⟩ := exists_cons_of_captures hs r
  rw [hcu, ← skipReturnType_append ht hblank hcolon u, skipBlanks_append hb]
  rcases ht with rfl | ⟨b, b', -, -, rfl⟩
  · rw [List.nil_append, skipBlanks_cons hblank]
  · rw [List.cons_append, skipBlanks_cons (by decide)]

/-- Conversely, `head` recognizes every one of the described texts and stops right behind
it, whatever comes next. -/
theorem head_of_headText {h : Head} {used : List Char} (hu : HeadText h used) (rest : List Char) :
    head (used ++ rest) = some (h, rest) := by
  obtain ⟨hq, htable, hbuilder, hb₁, hb₂, hb₃, hb₄, hb₅, hb₆, hb₇, hb₈, hstatic, htype, hreturn,
    hcaptures⟩ := hu
  rename_i q b₁ b₂ b₃ b₄ b₅ b₆ b₇ b₈ static type return_ captures
  have hmethod :=
    fun r => (builderMethod_eq_some_iff (h.kind.method.toList ++ r) r h.kind).mpr rfl
  have hquoteBlank : isBlank q = false := by
    simp only [isQuote, Bool.or_eq_true, beq_iff_eq] at hq
    rcases hq with rfl | rfl
    · decide
    · decide
  have hquoted :=
    fun r => (quotedName_eq_some_iff (q :: (h.table.toList ++ q :: r)) r h.table).mpr
    ⟨q, hq, htable, rfl⟩
  simp only [head, Option.bind_eq_bind, List.append_assoc, List.cons_append, List.nil_append,
    literal_append, Option.bind_some, hmethod,
    char_skipBlanks hb₁ (show isBlank '(' = false by decide),
    skipBlanks_append_cons hb₂ hquoteBlank, hquoted,
    char_skipBlanks hb₃ (show isBlank ',' = false by decide), skipBlanks_static hb₄ hstatic,
    skipStatic_append hstatic, char_skipBlanks hb₅ (show isBlank '(' = false by decide),
    skipBlanks_parameterType hb₆ htype, skipParameterType_append htype, char_cons,
    name_append hbuilder hb₇ (show isWord ')' = false by decide),
    char_skipBlanks hb₇ (show isBlank ')' = false by decide),
    skipReturnType_captures hb₈ hreturn hcaptures, skipCaptures_append hcaptures, Option.pure_def]

/-- What `head` recognizes, whatever comes behind it: the described texts, all of them and
nothing else. -/
theorem head_eq_some_iff (cs rest : List Char) (h : Head) :
    head cs = some (h, rest) ↔ ∃ used, HeadText h used ∧ cs = used ++ rest := by
  constructor
  · exact headText_of_head
  · rintro ⟨used, hu, rfl⟩
    exact head_of_headText hu rest

/-- What `downHead` recognizes, whatever comes behind it: the described beginnings of the
method that undoes a migration, and nothing else. -/
theorem downHead_eq_some_iff (cs rest : List Char) :
    downHead cs = some ((), rest) ↔ ∃ used, DownText used ∧ cs = used ++ rest := by
  constructor
  · intro hd
    simp only [downHead, Option.bind_eq_bind, Option.bind_eq_some_iff, Option.pure_def,
      Option.some.injEq, Prod.mk.injEq, true_and] at hd
    obtain ⟨c₁, h₁, c₂, h₂, c₃, h₃, c₄, h₄, c₅, h₅, c₆, h₆, rfl⟩ := hd
    -- each recognizer says which piece it has taken; put together these are the grammar
    have e₁ := (literal_eq_some_iff _ _ _).mp h₁
    obtain ⟨b₁, hb₁, hne, e₂, -⟩ := (someBlanks_eq_some_iff _ _).mp h₂
    have e₃ := (literal_eq_some_iff _ _ _).mp h₃
    obtain ⟨b₂, hb₂, e₄, -⟩ := exists_skipBlanks c₃
    obtain ⟨w, hw, e₅⟩ := (parenthesized_eq_some_iff _ _).mp h₄
    obtain ⟨b₃, hb₃, e₆, -⟩ := exists_skipBlanks c₄
    obtain ⟨result, hresult, e₇⟩ := resultTypeText_of_skipResultType h₅
    have e₈ := (char_eq_some_iff _ _ _).mp h₆
    refine ⟨_, DownText.mk hb₁ hne hb₂ hw hb₃ hresult, ?_⟩
    simp only [List.append_assoc, List.cons_append, List.nil_append]
    rw [← e₈, ← e₇, ← e₆, ← e₅, ← e₄, ← e₃, ← e₂, ← e₁]
  · rintro ⟨used, ⟨hb₁, hne, hb₂, hw, hb₃, hresult⟩, rfl⟩
    rename_i b₁ b₂ w b₃ result
    -- conversely, each piece is taken whole, because the next one begins with another character
    have hblanks : ∀ r, someBlanks (b₁ ++ ("down".toList ++ r)) = some ("down".toList ++ r) :=
      fun r => (someBlanks_eq_some_iff _ _).mpr ⟨b₁, hb₁, hne, rfl, by simp [isBlank]⟩
    have hpar := fun r => (parenthesized_eq_some_iff ('(' :: (w ++ ')' :: r)) r).mpr ⟨w, hw, rfl⟩
    have hblank₃ : ∀ r, skipResultType (skipBlanks (b₃ ++ (result ++ '{' :: r)))
        = some ('{' :: r) := by
      intro r
      rw [← skipResultType_append hresult r, skipBlanks_append hb₃]
      rcases hresult with rfl | ⟨b, n, b', -, -, -, rfl⟩
      · rw [List.nil_append, skipBlanks_cons (by decide)]
      · rw [List.cons_append, skipBlanks_cons (by decide)]
    simp only [downHead, Option.bind_eq_bind, List.append_assoc, List.cons_append,
      List.nil_append, literal_append, Option.bind_some, hblanks, skipBlanks_append_cons hb₂
      (show isBlank '(' = false by decide), hpar, hblank₃, char_cons, Option.pure_def]

end SchemaAtlas.Migration
