import SchemaAtlas.Migration.Render
import SchemaAtlas.Proofs.Migration.Chain

/-!
# `SchemaAtlas.Proofs.Migration.Call`: statements as calls, and how they are read

A rendered statement is a call of a builder's method with at most one quoted
name as its argument, and a chain of modifiers of the same kind behind it.
`Call` is that structure and `Call.text` its text. This module says what the
readers of statements find in the text of a call, whatever the names in it:

* `statementHead_append` and `statementEnd_append` cut the statement out of
  what follows it.
* `firstArgument?_tail` reads the argument.
* `modifier?_tail` finds the first modifier of a name. No name in the text can
  be mistaken for a modifier, since names are followed by quotes or
  parentheses and modifiers are preceded by an arrow.
-/

set_option autoImplicit false

namespace SchemaAtlas.Migration

open SchemaAtlas.Scan SchemaAtlas.Text

/-! ### Calls -/

/-- The text of an argument: a name between quotes, or nothing. -/
def argumentText : Option String → List Char
  | none => []
  | some s => '\'' :: (s.toList ++ ['\''])

/-- No argument is written as nothing between the parentheses. -/
@[simp] theorem argumentText_none : argumentText none = [] := rfl

/-- An argument is written between single quotes. -/
@[simp] theorem argumentText_some (s : String) :
    argumentText (some s) = '\'' :: (s.toList ++ ['\'']) :=
  rfl

/-- A modifier and its argument. -/
structure Modifier where
  name : String
  argument : Option String := none
  deriving DecidableEq, Repr

/-- The text of a modifier. -/
def Modifier.text (m : Modifier) : List Char :=
  '-' :: '>' :: (m.name.toList ++ '(' :: (argumentText m.argument ++ [')']))

/-- The text of a chain of modifiers. -/
def modifiersText (ms : List Modifier) : List Char :=
  ms.flatMap Modifier.text

/-- A call of a method, its argument, and its modifiers. -/
structure Call where
  method : String
  argument : Option String := none
  modifiers : List Modifier := []
  deriving DecidableEq, Repr

namespace Call

/-- What follows the opening parenthesis of a call, up to the semicolon. -/
def tail (c : Call) : List Char :=
  argumentText c.argument ++ ')' :: modifiersText c.modifiers

/-- The text of a call, semicolon included. -/
def text (builder : String) (c : Call) : List Char :=
  '$' :: (builder.toList ++ '-' :: '>' :: (c.method.toList ++ '(' :: (c.tail ++ [';'])))

/-- The statement that a call is read as. -/
def statement (c : Call) : Statement := ⟨c.method, c.tail⟩

end Call

/-- Holds when an argument, if there is one, is made of the characters of names.
It may be empty: the reference of a column `_id` to any table's rows has no stem. -/
def IsArgument (argument : Option String) : Prop :=
  ∀ s ∈ argument, ∀ c ∈ s.toList, isWord c = true

/-- A modifier is a name, and its argument is made of the characters of names. -/
structure Modifier.WellFormed (m : Modifier) : Prop where
  name : isName m.name = true
  argument : IsArgument m.argument

/-- A method is a name, and its modifiers are well-formed. -/
structure Call.WellFormed (c : Call) : Prop where
  method : isName c.method = true
  argument : IsArgument c.argument
  modifiers : ∀ m ∈ c.modifiers, m.WellFormed

/-! ### Characters of a call -/

/-- The characters of a call's tail: those of names, quotes, parentheses and
arrows. -/
def isTailChar (c : Char) : Bool :=
  isWord c || c == '\'' || c == '(' || c == ')' || c == '-' || c == '>'

/-- The characters of names may stand in the tail of a call. -/
theorem isTailChar_of_isWord {c : Char} (h : isWord c = true) : isTailChar c = true := by
  simp [isTailChar, h]

/-- An argument is made of characters of names and of its two quotes. -/
theorem isTailChar_of_mem_argument {a : Option String} (ha : IsArgument a) {c : Char}
    (hc : c ∈ argumentText a) : isWord c = true ∨ c = '\'' := by
  cases a with
  | none => cases hc
  | some s =>
      simp only [argumentText, List.mem_cons, List.mem_append, List.not_mem_nil, or_false] at hc
      rcases hc with rfl | hc | rfl
      · exact .inr rfl
      · exact .inl (ha s rfl _ hc)
      · exact .inr rfl

/-- The tail of a call has only the characters that such tails are made of. -/
theorem isTailChar_of_mem_tail {c : Call} (h : c.WellFormed) {d : Char} (hd : d ∈ c.tail) :
    isTailChar d = true := by
  have hargument : ∀ {a : Option String}, IsArgument a → d ∈ argumentText a →
      isTailChar d = true := by
    intro a ha hm
    rcases isTailChar_of_mem_argument ha hm with hw | rfl
    · exact isTailChar_of_isWord hw
    · decide
  simp only [Call.tail, List.mem_append, List.mem_cons, modifiersText, List.mem_flatMap] at hd
  rcases hd with hd | rfl | ⟨m, hm, hd⟩
  · exact hargument h.argument hd
  · decide
  · simp only [Modifier.text, List.mem_append, List.mem_cons, List.not_mem_nil, or_false] at hd
    rcases hd with rfl | rfl | hd | rfl | hd | rfl
    · decide
    · decide
    · exact isTailChar_of_isWord (isWord_of_mem_name (h.modifiers m hm).name hd)
    · decide
    · exact hargument (h.modifiers m hm).argument hd
    · decide

/-- A call's tail has no character of another kind, in particular no semicolon, which would
end the statement. -/
theorem notMem_tail {c : Call} (h : c.WellFormed) {d : Char} (hd : isTailChar d = false) :
    d ∉ c.tail := by
  intro hm
  rw [isTailChar_of_mem_tail h hm] at hd
  cases hd

/-! ### A call's modifiers as a chain -/

/-- A name between quotes, or nothing, as an argument of modifiers. -/
def linkArgument : Option String → Argument
  | none => .empty
  | some s => .quoted '\'' s

/-- A modifier as a link of a chain. -/
def Modifier.link (m : Modifier) : Link := ⟨m.name, linkArgument m.argument⟩

/-- The argument of a modifier is written as the same argument of a call is. -/
theorem text_linkArgument (a : Option String) : (linkArgument a).text = argumentText a := by
  cases a with
  | none => rfl
  | some s => rfl

/-- The modifiers of a call are written as a chain of links. -/
theorem chainText_map_link (ms : List Modifier) :
    chainText (ms.map Modifier.link) = modifiersText ms := by
  have hlink : ∀ m : Modifier, m.link.text = m.text := by
    intro m
    rw [Link.text, Modifier.link, text_linkArgument, Modifier.text]
  rw [chainText, List.flatMap_map, modifiersText]
  exact congrArg ms.flatMap (funext hlink)

/-- An argument that is a name is well formed as the argument of a link. -/
theorem IsArgument.link {a : Option String} (h : IsArgument a) : (linkArgument a).WellFormed := by
  cases a with
  | none => trivial
  | some s => exact ⟨by decide, h s rfl⟩

/-- The modifiers of a call that is well formed are links that are well formed. -/
theorem Call.WellFormed.links {c : Call} (h : c.WellFormed) :
    ∀ l ∈ c.modifiers.map Modifier.link, l.WellFormed := by
  intro l hl
  obtain ⟨m, hm, rfl⟩ := List.mem_map.mp hl
  exact ⟨(h.modifiers m hm).name, (h.modifiers m hm).argument.link⟩

/-! ### Quotes of a call -/

/-- The quotes of a call's tail are closed, so the statement ends at the semicolon behind
it. -/
theorem over_tail {c : Call} (h : c.WellFormed) : Quotes.outside.over c.tail = .outside := by
  have hargument : Quotes.outside.over (argumentText c.argument) = .outside := by
    rw [← text_linkArgument]
    exact over_argument (s := .outside) trivial rfl h.argument.link
  rw [Call.tail, Quotes.over_append, hargument, Quotes.over_cons, ← chainText_map_link]
  exact over_outside_chainText h.links

/-- The quotes of a whole call are closed, as neither its builder nor its method has any. -/
theorem over_text {builder : String} (hb : isName builder = true) {c : Call} (h : c.WellFormed) :
    Quotes.outside.over (c.text builder) = .outside := by
  rw [Call.text, Quotes.over_cons, Quotes.over_append]
  show Quotes.over (Quotes.over .outside builder.toList) _ = _
  rw [over_name hb, Quotes.over_cons, Quotes.over_cons, Quotes.over_append]
  show Quotes.over (Quotes.over .outside c.method.toList) _ = _
  rw [over_name h.method, Quotes.over_cons, Quotes.over_append]
  show Quotes.over (Quotes.over .outside c.tail) _ = _
  rw [over_tail h]
  rfl

/-! ### Cutting out a statement -/

/-- All statements begin with a dollar sign, so none is found in a text without one. -/
theorem leads_statementHead (builder : String) :
    Leads (fun lead => lead.head? = some '$' ∧ lead = ['$']) (statementHead builder) := by
  intro cs m hm
  simp only [statementHead, Option.bind_eq_bind, Option.bind_eq_some_iff] at hm
  obtain ⟨r, hr, -⟩ := hm
  rw [(char_eq_some_iff _ _ _).mp hr]
  exact ⟨['$'], ⟨rfl, rfl⟩, by simp⟩

/-- The beginning of a statement is recognized where it is written, up to its
parenthesis. -/
theorem statementHead_append (builder : String) {method : String} (h : isName method = true)
    (r : List Char) :
    statementHead builder
      (('$' :: (builder.toList ++ '-' :: '>' :: (method.toList ++ ['(']))) ++ r)
      = some (method, r) := by
  have hname : name (method.toList ++ '(' :: r) = some (method, '(' :: r) :=
    (name_eq_some_iff _ _ _).mpr ⟨rfl, h, by
      intro d hd
      obtain rfl : '(' = d := by simpa using hd
      decide⟩
  have harrow : literal "->" ('-' :: '>' :: (method.toList ++ '(' :: r))
      = some (method.toList ++ '(' :: r) := (literal_eq_some_iff _ _ _).mpr rfl
  have hblank : skipBlanks (method.toList ++ '(' :: r) = method.toList ++ '(' :: r :=
    skipBlanks_append_name blanks_nil h _
  simp only [statementHead, List.cons_append, List.append_assoc, List.nil_append,
    Option.bind_eq_bind, char_cons, Option.bind_some, literal_append,
    skipBlanks_cons (show isBlank '-' = false by decide), harrow, hblank, hname,
    skipBlanks_cons (show isBlank '(' = false by decide), Option.pure_def]

/-- The end of a statement is the first semicolon outside of strings, and so the one behind
the tail. -/
theorem statementEnd_append {c : Call} (h : c.WellFormed) (r : List Char) :
    statementEnd (c.tail ++ ';' :: r) 0 = c.tail.length := by
  have hend := semicolonFrom_append .outside 0 c.tail r (notMem_tail h (by decide)) (over_tail h)
  rw [statementEnd, List.drop_zero, hend]
  simp

/-- The statement behind its beginning has the method and the tail of the call, whatever
follows. -/
theorem ofHead_append {c : Call} (h : c.WellFormed) (i j : Nat) (r : List Char) :
    Statement.ofHead ⟨i, j, c.method, c.tail ++ ';' :: r⟩ = c.statement := by
  rw [Statement.ofHead]
  simp only [statementEnd_append h, List.take_left, Call.statement]

/-! ### Arguments and modifiers -/

/-- The first argument of a call is read from its tail, unless it is empty: two quotes with
nothing between are no name. -/
theorem firstArgument?_tail {c : Call} (h : c.WellFormed) :
    firstArgument? c.tail = c.argument.filter fun s => !s.isEmpty := by
  cases ha : c.argument with
  | none =>
      simp [firstArgument?, Call.tail, ha, argumentText, skipBlanks, isBlank, quote, isQuote]
  | some s =>
      have hcut : c.tail = '\'' :: (s.toList ++ '\'' :: (')' :: modifiersText c.modifiers)) := by
        simp [Call.tail, ha]
      rw [hcut, firstArgument?_quoted (by decide) (h.argument s ha)]
      by_cases he : s.isEmpty = true
      · simp [Option.filter, he]
      · simp [Option.filter, he]

/-- A character that is neither in names nor a single quote is not in an argument. -/
theorem notMem_argumentText {a : Option String} (ha : IsArgument a) {d : Char}
    (hd : isWord d = false) (hq : d ≠ '\'') : d ∉ argumentText a := by
  intro hm
  rcases isTailChar_of_mem_argument ha hm with h | h
  · rw [hd] at h
    cases h
  · exact hq h

/-- The word that a modifier has for its argument is the argument itself, unless it is
empty. -/
theorem word?_linkArgument (a : Option String) :
    (linkArgument a).word? = a.filter fun s => !s.isEmpty := by
  cases a with
  | none => rfl
  | some s =>
      by_cases h : s.isEmpty = true
      · simp [linkArgument, Argument.word?, Option.filter, h]
      · simp [linkArgument, Argument.word?, Option.filter, h]

/-- The first modifier of a name in a call is looked for in its chain, as the first argument
in front of it has no arrow. -/
theorem modifier?_tail {n : String} (hn : isName n = true) {c : Call} (h : c.WellFormed) :
    modifier? n c.tail = linkRest? n [] (c.modifiers.map Modifier.link) := by
  have hquiet : '-' ∉ argumentText c.argument ++ [')'] := by
    have h1 : '-' ∉ argumentText c.argument :=
      notMem_argumentText h.argument (by decide) (by decide)
    simp [h1]
  have hcut : c.tail = (argumentText c.argument ++ [')'])
      ++ (chainText (c.modifiers.map Modifier.link) ++ []) := by
    simp [Call.tail, chainText_map_link]
  rw [modifier?, find?, hcut, findFrom_of_quiet (quiet_modifierCall n hquiet),
    map_rest_findFrom_chainText hn h.links]
  exact Option.or_none

/-- What a reader makes of the first modifier of a name, if it reads nothing but the
argument, can be computed from the modifiers themselves. -/
theorem map_modifier?_tail {n : String} (hn : isName n = true) {c : Call} (h : c.WellFormed)
    {β : Type}
    {f : List Char → β} {g : Argument → β}
    (hf : ∀ a : Argument, a.WellFormed → ∀ r, f (a.text ++ ')' :: r) = g a) :
    (modifier? n c.tail).map f
      = (c.modifiers.find? fun m => m.name == n).map fun m => g (linkArgument m.argument) := by
  rw [modifier?_tail hn h, map_linkRest? h.links hf, List.find?_map, Option.map_map]
  rfl

/-- The argument of the first modifier of a name in a call, unless it is empty. -/
theorem modifierArgument?_tail {n : String} (hn : isName n = true) {c : Call} (h : c.WellFormed) :
    modifierArgument? n c.tail
      = ((c.modifiers.find? fun m => m.name == n).bind Modifier.argument).filter fun s =>
        !s.isEmpty := by
  rw [modifierArgument?_eq_join, map_modifier?_tail hn h map_quotedName_argument]
  cases c.modifiers.find? fun m => m.name == n with
  | none => rfl
  | some m => exact word?_linkArgument m.argument

/-- A call makes its column nullable by the modifier of that name, wherever it stands in the
chain. -/
theorem isNullable_tail {c : Call} (h : c.WellFormed) :
    isNullable c.tail = c.modifiers.any fun m => m.name == "nullable" := by
  rw [isNullable_eq_getD, map_modifier?_tail (by decide) h isNone_literal_argument,
    ← List.isSome_find?]
  cases c.modifiers.find? fun m => m.name == "nullable" with
  | none => rfl
  | some m => cases ha : m.argument <;> simp [linkArgument, ha]

/-- A call puts its column into the primary key by the modifier of that name. -/
theorem isPrimary_tail {c : Call} (h : c.WellFormed) :
    isPrimary c.tail = c.modifiers.any fun m => m.name == "primary" := by
  have hread :=
    map_modifier?_tail (n := "primary") (by decide) h (f := fun _ => ()) (g := fun _ => ())
    fun _ _ _ => rfl
  rw [isPrimary, ← Option.isSome_map, hread, Option.isSome_map, List.isSome_find?]

end SchemaAtlas.Migration
