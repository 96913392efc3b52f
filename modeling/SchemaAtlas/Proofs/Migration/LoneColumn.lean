import SchemaAtlas.Proofs.Migration.Interchange

/-!
# `SchemaAtlas.Proofs.Migration.LoneColumn`: a closure that declares one column

The body of a closure is one statement that declares a column, with a chain of modifiers
behind it (`LoneColumn`):

    $table->foreignId('author_id')->nullable(false)->on('people')->constrained('users');

`LoneColumn.column` and `LoneColumn.keys` say what it declares, modifier by modifier and
without a word about their order: `constrained` comes before `on`, and `nullable(false)`
is no `nullable`. `blocks_withBody` is the main result. With the modifiers in any other
order, all closures of the migration have the columns and the foreign keys that they had,
also those that reach around this one, and this one has the column and the key just said.
-/

set_option autoImplicit false

namespace SchemaAtlas.Migration

open SchemaAtlas.Scan SchemaAtlas.Text

/-- A statement that declares a column, alone in the body of a closure: `before` is blank,
and `behind` has blanks and semicolons. -/
structure LoneColumn where
  before : List Char := []
  method : String
  quote : Char
  name : String
  links : List Link := []
  behind : List Char := [';']

/-- A chain has no blanks, and each of its names ends at a sign, so no word in it is
followed by a blank. -/
theorem unjoined_chainText {ls : List Link} (h : ∀ l ∈ ls, l.WellFormed) :
    Unjoined (chainText ls) := by
  induction ls with
  | nil => trivial
  | cons l ls ih =>
      have hl := h l List.mem_cons_self
      have hcut : l.text = ('-' :: '>' :: (l.name.toList ++ '(' :: l.argument.text))
          ++ [')'] := by simp [Link.text]
      have hlink : Unjoined l.text := by
        have hblank : ∀ c ∈ chainSigns, (!isBlank c) = true := List.all_eq_true.mp (by decide)
        rw [hcut]
        refine unjoined_of_noBlank (fun c hc => ?_) (by decide) (by decide)
        have hm : c ∈ l.text := by
          rw [hcut]
          exact List.mem_append_left _ hc
        exact (mem_linkText hl hm).elim isBlank_of_isWord fun hsign =>
          by simpa using hblank c hsign
      rw [chainText_cons]
      exact unjoined_append hlink (ih fun l' hl' => h l' (List.mem_cons_of_mem l hl'))

namespace LoneColumn

/-- The argument, quotes included. -/
def argument (s : LoneColumn) : Argument := .quoted s.quote s.name

/-- The body up to the parenthesis behind the argument. -/
def front (builder : String) (s : LoneColumn) : List Char :=
  s.before ++ ('$' :: (builder.toList ++ '-' :: '>' :: (s.method.toList ++ ['(']))
    ++ s.argument.text)

/-- The body. -/
def text (builder : String) (s : LoneColumn) : List Char :=
  s.front builder ++ ')' :: (chainText s.links ++ s.behind)

/-- Names where names are expected, and nothing else around the statement. -/
structure WellFormed (s : LoneColumn) : Prop where
  before : Blanks s.before
  method : isName s.method = true
  quote : isQuote s.quote = true
  name : isName s.name = true
  links : ∀ l ∈ s.links, l.WellFormed
  behind : ∀ c ∈ s.behind, isBlank c = true ∨ c = ';'

/-- The statement that the body is read as. -/
def statement (s : LoneColumn) : Statement :=
  ⟨s.method, s.argument.text ++ ')' :: (chainText s.links ++ Quotes.outside.upTo s.behind)⟩

/-! ### What is declared -/

/-- The argument of the modifier of a name, if there is one. -/
def argument? (s : LoneColumn) (n : String) : Option Argument :=
  (s.links.find? fun l => l.name == n).map Link.argument

/-- The table that is named: `constrained` comes before `on`. -/
def target? (s : LoneColumn) : Option String :=
  ((s.argument? "constrained").bind Argument.word?).or ((s.argument? "on").bind Argument.word?)

/-- Holds when the column refers to another table. -/
def isForeign (s : LoneColumn) (type : ColumnType) : Bool :=
  type = .foreignId || s.method = "foreignUuid" || s.target?.isSome

/-- The column. -/
def column (s : LoneColumn) (type : ColumnType) : Column where
  name := s.name
  type := type
  isPrimary :=
    type = .id || (s.argument? "primary").isSome || (type = .uuid && s.name = Naming.identifier)
  isForeign := s.isForeign type
  nullable := (s.argument? "nullable").any (· ≠ .flag false)

/-- The foreign key, if there is one. -/
def keys (s : LoneColumn) (type : ColumnType) : List ForeignKey :=
  if s.isForeign type then [⟨s.name, s.target?.getD (Naming.defaultTarget s.name)⟩] else []

section Reading

variable {s : LoneColumn} (hs : s.WellFormed)

include hs

/-- The name of the column has word characters only, so it ends at the quote behind it. -/
theorem WellFormed.word : ∀ c ∈ s.name.toList, isWord c = true :=
  fun _ hc => isWord_of_mem_name hs.name hc

/-- The quoted name is a well-formed argument, which lets the lemmas about modifiers'
arguments serve for it as well. -/
theorem WellFormed.argument : s.argument.WellFormed := ⟨hs.quote, hs.word⟩

/-! ### Characters -/

/-- The characters of a body that are in no name and are no blanks. -/
def signs : List Char := ['$', ';', '-', '>', '(', ')', '\'', '"']

/-- A body has blanks, word characters and a few signs in it. What follows says of the signs
that nothing can begin with them. -/
theorem mem_text {builder : String} (hb : isName builder = true) {c : Char}
    (hc : c ∈ s.text builder) :
    isBlank c = true ∨ isWord c = true ∨ c ∈ signs := by
  have hsigns : chainSigns ⊆ signs := by decide
  simp only [text, front, List.mem_append, List.mem_cons, List.not_mem_nil, or_false] at hc
  rcases hc with (hc | (rfl | hc | rfl | rfl | hc | rfl) | hc) | rfl | hc | hc
  · exact .inl (hs.before c hc)
  · exact .inr (.inr (by decide))
  · exact .inr (.inl (isWord_of_mem_name hb hc))
  · exact .inr (.inr (by decide))
  · exact .inr (.inr (by decide))
  · exact .inr (.inl (isWord_of_mem_name hs.method hc))
  · exact .inr (.inr (by decide))
  · exact .inr
      ((mem_argument hs.argument hc).imp_right fun hq => hsigns (mem_chainSigns_of_isQuote hq))
  · exact .inr (.inr (by decide))
  · exact .inr ((mem_chainText hs.links hc).imp_right fun hm => hsigns hm)
  · rcases hs.behind c hc with hc | rfl
    · exact .inl hc
    · exact .inr (.inr (by decide))

/-- A body has no other sign in it. Slashes, braces and colons are of this sort, which rules
out comments, blocks and the facade's name. -/
theorem notMem_text {builder : String} (hb : isName builder = true) {c : Char}
    (hblank : isBlank c = false)
    (hword : isWord c = false) (hsign : c ∉ signs) : c ∉ s.text builder := by
  intro hm
  rcases mem_text hs hb hm with hc | hc | hc
  · rw [hblank] at hc
    cases hc
  · rw [hword] at hc
    cases hc
  · exact hsign hc

/-- No method that undoes a migration begins in a body, since its word would have to be
followed by a blank. -/
theorem unjoined_text {builder : String} (hb : isName builder = true) :
    Unjoined (s.text builder ++ ['}']) := by
  -- no word stands around the call, and no blank in it up to its chain
  have hbefore : Unjoined s.before :=
    unjoined_of_noWord fun c hc => isWord_of_isBlank (hs.before c hc)
  have hhead : Unjoined
      (('$' :: (builder.toList ++ '-' :: '>' :: (s.method.toList ++ '(' :: s.argument.text)))
      ++ [')']) := by
    refine unjoined_of_noBlank (fun c hc => ?_) (by decide) (by decide)
    simp only [List.mem_cons, List.mem_append] at hc
    rcases hc with rfl | hc | rfl | rfl | hc | rfl | hc
    · decide
    · exact isBlank_of_isWord (isWord_of_mem_name hb hc)
    · decide
    · decide
    · exact isBlank_of_isWord (isWord_of_mem_name hs.method hc)
    · decide
    · exact (mem_argument hs.argument hc).elim isBlank_of_isWord isBlank_of_isQuote
  have hbehind : Unjoined (s.behind ++ ['}']) := by
    refine unjoined_of_noWord fun c hc => ?_
    rcases List.mem_append.mp hc with hc | hc
    · rcases hs.behind c hc with hc | rfl
      · exact isWord_of_isBlank hc
      · decide
    · rw [List.mem_singleton.mp hc]
      decide
  have hcut : s.text builder ++ ['}'] = s.before ++
      ((('$' :: (builder.toList ++ '-' :: '>' :: (s.method.toList ++ '(' :: s.argument.text)))
        ++ [')'])
        ++ (chainText s.links ++ (s.behind ++ ['}']))) := by
    simp [text, front]
  rw [hcut]
  exact unjoined_append hbefore
    (unjoined_append hhead (unjoined_append (unjoined_chainText hs.links) hbehind))

/-- Nothing begins in a body, and no brace stands in it, so a body can be interchanged with
one of its own length. -/
theorem still_text {builder : String} (hb : isName builder = true) : Still (s.text builder) where
  quietHead := by
    refine quiet_of_stop leads_head ?_
    rintro _ rfl
    exact ⟨by decide, ':', by decide, notMem_text hs hb (by decide) (by decide) (by decide)⟩
  quietDown := quiet_downHead_of_unjoined (unjoined_text hs hb)
  opened := notMem_text hs hb (by decide) (by decide) (by decide)
  closed := notMem_text hs hb (by decide) (by decide) (by decide)

/-! ### Reading the statement -/

/-- The body is read as its one statement. What stands behind the chain is part of the tail,
up to the first semicolon. -/
theorem statements_text (builder : String) :
    statements (s.text builder) builder = [s.statement] := by
  have hdollar : ∀ x : List Char, (∀ c ∈ x, isBlank c = true ∨ c = ';') →
      Quiet (statementHead builder) x := by
    refine fun x hx => quiet_statementHead fun hm => ?_
    rcases hx _ hm with h | h
    · exact absurd h (by decide)
    · exact absurd h (by decide)
  have htail : Quiet (statementHead builder) (s.argument.text ++ ')' :: chainText s.links) := by
    refine quiet_statementHead fun hm => ?_
    rcases List.mem_append.mp hm with hm | hm
    · exact notMem_argument hs.argument (by decide) (by decide) hm
    · rcases List.mem_cons.mp hm with h | hm
      · exact absurd h (by decide)
      · exact notMem_chainText hs.links (by decide) (by decide) hm
  have hcut : s.text builder
      = s.before ++ (('$' :: (builder.toList ++ '-' :: '>' :: (s.method.toList ++ ['('])))
      ++ ((s.argument.text ++ ')' :: chainText s.links) ++ s.behind)) := by
    simp [text, front]
  have hhead :=
    statementHead_append builder hs.method
    ((s.argument.text ++ ')' :: chainText s.links) ++ s.behind)
  -- the statement ends at the first semicolon behind its chain
  have hsemicolon : ';' ∉ s.argument.text ++ ')' :: chainText s.links := by
    have h1 : ';' ∉ s.argument.text := notMem_argument hs.argument (by decide) (by decide)
    have h2 : ';' ∉ chainText s.links := notMem_chainText hs.links (by decide) (by decide)
    simp [h1, h2]
  have hover : Quotes.outside.over (s.argument.text ++ ')' :: chainText s.links) = .outside := by
    have h1 := over_argument (s := .outside) trivial rfl hs.argument
    rw [Quotes.over_append, h1, Quotes.over_cons]
    exact over_outside_chainText hs.links
  rw [statements, findAll, hcut,
    findAllFrom_of_quiet (hdollar s.before fun c hc => .inl (hs.before c hc)),
    findAllFrom_of_match hhead (by simp), findAllFrom_of_quiet htail,
    findAllFrom_quiet (hdollar s.behind hs.behind)]
  show [Statement.mk s.method
    (Quotes.outside.upTo ((s.argument.text ++ ')' :: chainText s.links) ++ s.behind))] = _
  rw [Quotes.upTo_append_of_notMem _ hsemicolon, hover, List.append_assoc, List.cons_append]
  rfl

/-- What a reader makes of the first modifier of a name, if it reads nothing but the
argument. -/
theorem map_modifier?_statement {β : Type} {f : List Char → β} (hf : Blind f) {n : String}
    (hn : isName n = true) :
    (modifier? n s.statement.tail).map f = (s.argument? n).map fun a => f (a.text ++ [')']) := by
  have hargument : '-' ∉ s.argument.text ++ [')'] := by
    have h : '-' ∉ s.argument.text := notMem_argument hs.argument (by decide) (by decide)
    simp [h]
  have hbehind : '-' ∉ Quotes.outside.upTo s.behind := by
    intro hm
    rcases hs.behind '-' (List.mem_of_mem_take hm) with h | h
    · exact absurd h (by decide)
    · exact absurd h (by decide)
  show (modifier? n
    (s.argument.text ++ ')' :: (chainText s.links ++ Quotes.outside.upTo s.behind))).map f = _
  rw [map_modifier?_chain hf hn hs.links, modifier?_of_notMem n hargument,
    modifier?_of_notMem n hbehind, argument?, Option.map_map]
  exact Option.or_none

/-- The argument that is found for a modifier is well-formed, since every link of the chain
is. -/
theorem wellFormed_of_argument? {n : String} {a : Argument} (ha : s.argument? n = some a) :
    a.WellFormed := by
  obtain ⟨l, hl, rfl⟩ := Option.map_eq_some_iff.mp ha
  exact (hs.links l (List.mem_of_find?_eq_some hl)).argument

/-- A modifier that is looked for in the statement is found in the chain, and its argument
is the word of the first link of the name. -/
theorem modifierArgument?_statement {n : String} (hn : isName n = true) :
    modifierArgument? n s.statement.tail = (s.argument? n).bind Argument.word? := by
  rw [modifierArgument?_eq_join, map_modifier?_statement hs fenced_quotedName.blind hn]
  cases ha : s.argument? n with
  | none => rfl
  | some a => exact map_quotedName_argument a (wellFormed_of_argument? hs ha) []

/-- A column is nullable if the chain has a `nullable`, unless its argument is the word that
denies it. -/
theorem isNullable_statement :
    isNullable s.statement.tail = (s.argument? "nullable").any (· ≠ .flag false) := by
  rw [isNullable_eq_getD,
    map_modifier?_statement hs (stops_literal (by decide)).blind (by decide)]
  cases ha : s.argument? "nullable" with
  | none => rfl
  | some a => exact isNone_literal_argument a (wellFormed_of_argument? hs ha) []

/-- A column is primary if the chain has a `primary`, whatever the argument of that modifier
may be. -/
theorem isPrimary_statement : isPrimary s.statement.tail = (s.argument? "primary").isSome := by
  have hread := map_modifier?_statement hs (blind_const ()) (n := "primary") (by decide)
  rw [isPrimary, ← Option.isSome_map, hread, Option.isSome_map]

/-- The first argument of the statement is the quoted name, and no argument of a modifier
behind it. -/
theorem firstArgument?_statement : firstArgument? s.statement.tail = some s.name := by
  have hcut : s.statement.tail = s.quote :: (s.name.toList ++ s.quote ::
      (')' :: (chainText s.links ++ Quotes.outside.upTo s.behind))) := by
    simp [statement, argument, Argument.text]
  rw [hcut, firstArgument?_quoted hs.quote hs.word, isEmpty_of_isName hs.name]
  rfl

/-- The statement asks for the column and, before it, for the foreign key, if it has one.
Both are the ones that the chain describes. -/
theorem columnRequests_statement (type : ColumnType) :
    columnRequests s.method type s.name s.statement.tail
      = (s.keys type).map .refer ++ [.declare (s.column type)] := by
  have htarget : (modifierArgument? "constrained" s.statement.tail).or
      (modifierArgument? "on" s.statement.tail)
      = s.target? := by
    rw [modifierArgument?_statement hs (by decide), modifierArgument?_statement hs (by decide),
      target?]
  have hforeign : (type = .foreignId || s.method = "foreignUuid" || s.target?.isSome)
      = s.isForeign type := rfl
  simp only [columnRequests, htarget, isPrimary_statement hs, isNullable_statement hs, hforeign,
    keys, column]
  cases s.isForeign type with
  | false => rfl
  | true => rfl

end Reading

end LoneColumn

/-! ### Methods that declare a column -/

/-- The methods that are read apart from those that declare a column of a type. -/
def apartMethods : List String :=
  ["id", "timestamps", "timestampsTz", "nullableTimestamps", "softDeletes", "softDeletesTz",
    "rememberToken",
    "foreign", "foreignIdFor", "dropColumn", "dropForeign", "dropMorphs", "dropSoftDeletes",
    "dropRememberToken",
    "renameColumn"] ++ morphMethods.map Prod.fst

/-- A method that declares a column of some type is none of those that are read apart, with
the identifier as the one exception. -/
theorem notMem_apartMethods {method : String} {type : ColumnType}
    (h : ColumnType.ofBuilder? method = some type)
    (hid : method ≠ "id") : method ∉ apartMethods := by
  -- `id` is the only method of both kinds
  have hall : ∀ entry ∈ ColumnType.builderMethods, entry.1 ≠ "id" → entry.1 ∉ apartMethods := by
    decide
  obtain ⟨before, after, hmethods, -⟩ := List.lookup_eq_some_iff.mp h
  exact hall (method, type) (by rw [hmethods]; simp) hid

/-- Of such a method, the requests are those of the column of its type and name, modifiers
included. -/
theorem requests_of_ofBuilder? {method : String} {type : ColumnType}
    (h : ColumnType.ofBuilder? method = some type)
    (hid : method ≠ "id") {tail : List Char} {name : String}
    (hname : firstArgument? tail = some name) :
    Statement.requests ⟨method, tail⟩ = columnRequests method type name tail := by
  have hapart := notMem_apartMethods h hid
  have hmorph : morphMethods.lookup method = none := by
    refine List.lookup_eq_none_iff.mpr fun entry hentry => ?_
    have hne : method ≠ entry.1 :=
      fun e => hapart (e ▸ List.mem_append_right _ (List.mem_map_of_mem hentry))
    simpa using hne
  unfold Statement.requests
  simp only [hname]
  split
  case h_16 => simp only [hmorph, h]
  all_goals exact absurd (by decide) hapart

namespace LoneColumn

variable {s : LoneColumn}

/-- The one column of the statement and its foreign key are what the draft of the body comes
to, whatever else could be asked for. -/
theorem final_statement (hs : s.WellFormed) {type : ColumnType}
    (htype : ColumnType.ofBuilder? s.method = some type) (hid : s.method ≠ "id") :
    (Draft.ofStatements [s.statement]).finalColumns = [s.column type]
      ∧ (Draft.ofStatements [s.statement]).finalForeignKeys = s.keys type := by
  have hrequests : s.statement.requests = (s.keys type).map .refer
      ++ [.declare (s.column type)] :=
    (requests_of_ofBuilder? htype hid (firstArgument?_statement hs)).trans
      (columnRequests_statement hs type)
  rw [Draft.ofStatements, List.flatMap_singleton, hrequests, keys]
  cases s.isForeign type with
  | false => exact ⟨rfl, rfl⟩
  | true => exact ⟨rfl, rfl⟩

/-- An identifier is declared without regard to its modifiers: the draft has the identifier
column of the name, and no foreign key. -/
theorem final_identifier (hs : s.WellFormed) (hid : s.method = "id") :
    (Draft.ofStatements [s.statement]).finalColumns = [Draft.identifierColumn s.name]
      ∧ (Draft.ofStatements [s.statement]).finalForeignKeys = [] := by
  have hrequests : s.statement.requests = [.identify s.name] := by
    have hfirst := firstArgument?_statement hs
    show Statement.requests ⟨s.method, s.statement.tail⟩ = _
    rw [hid, Statement.requests]
    simp only [hfirst, Option.getD_some]
  rw [Draft.ofStatements, List.flatMap_singleton, hrequests]
  exact ⟨rfl, rfl⟩

/-! ### The modifiers in another order -/

/-- The same column with its modifiers in this order. -/
def withLinks (s : LoneColumn) (links : List Link) : LoneColumn := { s with links := links }

variable {links : List Link}

/-- The statement stays well-formed in any order of its links, since each link is judged by
itself. -/
theorem WellFormed.withLinks (hs : s.WellFormed) (hperm : s.links.Perm links) :
    (s.withLinks links).WellFormed :=
  { hs with links := fun l hl => hs.links l (hperm.mem_iff.mpr hl) }

/-- The two bodies can stand in one another's place: they have the same characters in
another order, and each link closes its own quotes. -/
theorem interchangeable_text {builder : String} (hb : isName builder = true) (hs : s.WellFormed)
    (h : Rearranged s.links links) :
    Interchangeable (s.text builder) ((s.withLinks links).text builder) where
  still := still_text hs hb
  still' := still_text (hs.withLinks h.perm) hb
  length := by
    simp only [text, LoneColumn.withLinks, front, argument, List.length_append, List.length_cons,
      h.length_chainText]
  quotes q hq := by
    have hfront : (s.withLinks links).front builder = s.front builder := rfl
    have hstep := (hq.over (s.front builder)).step ')'
    rw [text, text, hfront, Quotes.over_append, Quotes.over_append, Quotes.over_cons,
      Quotes.over_cons, Quotes.over_append, Quotes.over_append, h.over_eq hstep]
    rfl

/-- No modifier is found by its order: with distinct names, the first of a name is the only
one of it. -/
theorem argument?_withLinks (h : Rearranged s.links links) (n : String) :
    (s.withLinks links).argument? n = s.argument? n :=
  congrArg (Option.map Link.argument) (h.find?_eq n).symm

/-- The table that is named stays the same, since `constrained` comes before `on` by its
name and not by its place. -/
theorem target?_withLinks (h : Rearranged s.links links) :
    (s.withLinks links).target? = s.target? := by
  rw [target?, target?, argument?_withLinks h, argument?_withLinks h]

/-- The column that is declared stays the same in any order of the links. Each of its flags
is read off one modifier. -/
theorem column_withLinks (h : Rearranged s.links links) (type : ColumnType) :
    (s.withLinks links).column type = s.column type := by
  simp only [column, isForeign, argument?_withLinks h, target?_withLinks h]
  rfl

/-- The foreign key that is declared stays the same in any order of the links, or there is
none in either order. -/
theorem keys_withLinks (h : Rearranged s.links links) (type : ColumnType) :
    (s.withLinks links).keys type = s.keys type := by
  simp only [keys, isForeign, target?_withLinks h]
  rfl

section Distinct

variable (hd : (s.links.map Link.name).Nodup)

include hd

/-- Where no name stands twice, every link of the chain is the one that is found under its
name. -/
theorem argument?_of_mem {l : Link} (hl : l ∈ s.links) :
    s.argument? l.name = some l.argument := by
  have hone := filter_eq_singleton (p := fun k => k.name == l.name) hd hl fun k => beq_iff_eq
  rw [argument?, ← List.head?_filter, hone]
  rfl

/-- A column that is said not to be nullable is not, although the modifier is the one that
makes columns nullable. -/
theorem nullable_column_of_mem (hl : ⟨"nullable", .flag false⟩ ∈ s.links) (type : ColumnType) :
    (s.column type).nullable = false := by
  have hargument : s.argument? "nullable" = some (.flag false) := argument?_of_mem hd hl
  rw [column, hargument]
  rfl

/-- A table that the column is constrained to comes before any other that is named, and
before the one that the column's name suggests. -/
theorem keys_of_mem {q : Char} {target : String}
    (hl : ⟨"constrained", .quoted q target⟩ ∈ s.links)
    (htarget : target ≠ "") (type : ColumnType) : s.keys type = [⟨s.name, target⟩] := by
  have hargument : s.argument? "constrained" = some (.quoted q target) := argument?_of_mem hd hl
  have hword : (Argument.quoted q target).word? = some target := if_neg (by simpa using htarget)
  have hfound : s.target? = some target := by
    rw [target?, hargument, Option.bind_some, hword, Option.some_or]
  have hforeign : s.isForeign type = true := by
    simp [isForeign, hfound]
  rw [keys, if_pos hforeign, hfound]
  rfl

end Distinct

end LoneColumn

/-! ### Blocks -/

/-- The block without what it takes away or renames. -/
def Block.built (b : Block) : Block :=
  { b with dropped := [], droppedForeign := [], renamed := [] }

/-- Two texts whose statements ask for the same building parts give blocks that are built
alike. What drops or renames is left out of the comparison. -/
theorem built_block_eq {masked masked' : List Char} {down? : Option (Nat × Nat)} {c : Closure}
    (h : ((statements (c.body masked) c.builder).flatMap Statement.requests).filter Request.builds
      = ((statements (c.body masked') c.builder).flatMap
        Statement.requests).filter Request.builds) :
    (c.block masked down?).built = (c.block masked' down?).built := by
  obtain ⟨hcolumns, hkeys⟩ := Draft.final_eq_of_filter h
  rw [Block.built, Block.built, Block.mk.injEq]
  exact ⟨rfl, rfl, hcolumns, hkeys, rfl, rfl, rfl, rfl, rfl, rfl⟩

/-- Around a body with its modifiers in another order, every closure declares what it
declared. -/
theorem filter_requests_body {x z : List Char} (hfirm : Firm head x) {builder : String}
    {s : LoneColumn}
    {links : List Link} (h : Rearranged s.links links)
    (hinter : Interchangeable (s.text builder) ((s.withLinks links).text builder)) {c : Closure}
    (hc : c ∈ closuresOfMasked (x ++ (s.text builder ++ '}' :: z)))
    (hname : isName c.builder = true) :
    ((statements (c.body (x ++ ((s.withLinks links).text builder ++ '}' :: z))) c.builder).flatMap
        Statement.requests).filter Request.builds
      = ((statements (c.body (x ++ (s.text builder ++ '}' :: z))) c.builder).flatMap
        Statement.requests).filter Request.builds := by
  rcases hinter.body_cases hfirm hc with hbody | ⟨w, v, hbody, hbody'⟩
  · rw [hbody]
  · have hcut : ∀ s : LoneColumn, w ++ (s.text builder ++ v)
        = (w ++ s.front builder) ++ ')' :: (chainText s.links ++ (s.behind ++ v)) := by
      intro s
      simp [LoneColumn.text]
    rw [hbody, hbody', hcut, hcut]
    exact (filter_requests_statements h (notMem_of_isName hname (by decide)) _ _).symm

/-- With the modifiers of its one statement in another order, a closure declares what it
declared, and so do all others, also those that reach around it. The statement declares its
column and the key that the modifiers name, in whatever order: a column that is said not to
be nullable is not, and a table that it is constrained to comes before any other. -/
theorem blocks_withBody {text : String} {c : Closure} (hc : c ∈ closures text) {s : LoneColumn}
    (hs : s.WellFormed) (hbody : c.body text.toList = s.text c.builder) {links : List Link}
    (hperm : s.links.Perm links) (hnodup : (s.links.map Link.name).Nodup) :
    (blocks (c.withBody text ((s.withLinks links).text c.builder))).map Block.built
      = (blocks text).map Block.built
      ∧ ∃ b ∈ blocks (c.withBody text ((s.withLinks links).text c.builder)),
        b.bodyStart = c.bodyStart
        ∧ (s.method = "id" → b.columns = [Draft.identifierColumn s.name] ∧ b.foreignKeys = [])
        ∧ ∀ type, ColumnType.ofBuilder? s.method = some type → s.method ≠ "id" →
            b.columns = [s.column type] ∧ b.foreignKeys = s.keys type
            ∧ (⟨"nullable", .flag false⟩ ∈ links → (s.column type).nullable = false)
            ∧ ∀ q target, ⟨"constrained", .quoted q target⟩ ∈ links → target ≠ "" →
                s.keys type = [⟨s.name, target⟩] := by
  have hname := isName_builder_of_mem hc
  have hrearranged : Rearranged s.links links := ⟨hperm, hs.links, hnodup⟩
  have hs' := hs.withLinks hperm
  have hinter := LoneColumn.interchangeable_text hname hs hrearranged
  obtain ⟨x, z, ⟨last, hlast, hx⟩, hstart, hend, hmask, hmask'⟩ := hinter.exists_masks hc hbody
    (LoneColumn.notMem_text hs hname (by decide) (by decide) (by decide))
    (LoneColumn.notMem_text hs' hname (by decide) (by decide) (by decide))
  have hfirm : Firm head x := firm_head hlast hx
  have hclosures : closures text = closuresOfMasked (x ++ (s.text c.builder ++ '}' :: z)) := by
    rw [closures, hmask]
  have hnew : blocks (c.withBody text ((s.withLinks links).text c.builder))
      = (closures text).map (Closure.block (x ++ ((s.withLinks links).text c.builder ++ '}' :: z))
          (downSpan? (mask text.toList))) := by
    rw [blocks, hmask', hclosures, hmask, hinter.closures_eq hfirm,
      hinter.downSpan?_eq (firm_downHead hlast hx)]
  refine ⟨?_, _, hnew ▸ List.mem_map_of_mem hc, rfl, ?_⟩
  · rw [hnew, blocks, List.map_map, List.map_map]
    refine List.map_congr_left fun d hd => built_block_eq ?_
    have hdname := isName_builder_of_mem hd
    rw [hclosures] at hd
    rw [hmask]
    exact filter_requests_body hfirm hrearranged hinter hd hdname
  · -- the body of the closure itself is the statement
    have hown : c.body (x ++ ((s.withLinks links).text c.builder ++ '}' :: z))
        = (s.withLinks links).text c.builder := by
      have hwidth : c.bodyEnd - c.bodyStart = ((s.withLinks links).text c.builder).length := by
        rw [← hinter.length]
        omega
      rw [Closure.body, hwidth, ← hstart, List.drop_left, List.take_left]
    have hstatements : statements (c.body (x ++ ((s.withLinks links).text c.builder ++ '}' :: z)))
        c.builder
        = [(s.withLinks links).statement] := by
      rw [hown, LoneColumn.statements_text hs']
    have hdraft := congrArg Draft.ofStatements hstatements
    refine ⟨fun hid => ?_, fun type htype hid => ⟨?_, ?_, ?_, ?_⟩⟩
    · obtain ⟨hcolumns, hkeys⟩ := LoneColumn.final_identifier hs' hid
      exact ⟨(congrArg Draft.finalColumns hdraft).trans hcolumns,
        (congrArg Draft.finalForeignKeys hdraft).trans hkeys⟩
    · rw [← LoneColumn.column_withLinks hrearranged]
      exact (congrArg Draft.finalColumns hdraft).trans
        (LoneColumn.final_statement hs' htype hid).1
    · rw [← LoneColumn.keys_withLinks hrearranged]
      exact (congrArg Draft.finalForeignKeys hdraft).trans
        (LoneColumn.final_statement hs' htype hid).2
    · exact fun hl => LoneColumn.nullable_column_of_mem hnodup (hperm.mem_iff.mpr hl) type
    · exact fun q target hl htarget =>
        LoneColumn.keys_of_mem hnodup (hperm.mem_iff.mpr hl) htarget type

/-- A statement with modifiers that a reader could take for one another. -/
def authorColumn : LoneColumn where
  before := [' ']
  method := "foreignId"
  quote := '\''
  name := "author_id"
  links := [⟨"on", .quoted '\'' "people"⟩, ⟨"nullable", .flag false⟩,
    ⟨"constrained", .quoted '"' "users"⟩]
  behind := [';', ' ']

/-- A migration that it is the only statement of. -/
def authorText : String :=
  "Schema::create('posts', function (Blueprint $t) \x7b"
    ++ " $t->foreignId('author_id')->on('people')->nullable(false)->constrained(\"users\"); \x7d);"

def authorClosure : Closure := ⟨⟨.create, "posts", "t"⟩, 49, 131⟩

/-- The column of the example is well-formed: its names are names, and its quotes are
quotes. -/
theorem wellFormed_authorColumn : authorColumn.WellFormed where
  before := fun c hc => by
    rw [List.mem_singleton.mp hc]
    decide
  method := by decide
  quote := by decide
  name := by decide
  links := fun l hl =>
    of_decide_eq_true (List.all_eq_true (p := fun l => decide l.WellFormed).mp (by decide) l hl)
  behind := fun c hc =>
    of_decide_eq_true
      (List.all_eq_true (p := fun c => decide (isBlank c = true ∨ c = ';')).mp (by decide) c hc)

/-- In the example migration, the modifiers are turned around. The author's column is still
not nullable, and still refers to the table that it is constrained to. -/
theorem blocks_withBody_author :
    let links := authorColumn.links.reverse
    authorClosure ∈ closures authorText
      ∧ authorClosure.body authorText.toList = authorColumn.text "t"
      ∧ authorColumn.links.Perm links ∧ (authorColumn.links.map Link.name).Nodup
      ∧ ∃ b ∈ blocks
        (authorClosure.withBody authorText ((authorColumn.withLinks links).text "t")),
          b.columns = [⟨"author_id", .foreignId, false, true, false⟩]
            ∧ b.foreignKeys = [⟨"author_id", "users"⟩] := by
  intro links
  have hdecided := of_ofList_append (t := authorText)
    (p := fun cs => authorClosure ∈ closuresOfMasked (mask cs)
      ∧ authorClosure.body cs = authorColumn.text "t")
    rfl rfl rfl (by decide +kernel)
  obtain ⟨hc, hbody⟩ := hdecided
  have hperm : authorColumn.links.Perm links := (List.reverse_perm _).symm
  have hnodup : (authorColumn.links.map Link.name).Nodup := by decide
  obtain ⟨-, b, hb, -, -, hdeclared⟩ :=
    blocks_withBody hc wellFormed_authorColumn hbody hperm hnodup
  obtain ⟨hcolumns, hkeys, -, -⟩ := hdeclared .foreignId (by decide) (by decide)
  exact ⟨hc, hbody, hperm, hnodup, b, hb, hcolumns.trans (by decide), hkeys.trans (by decide)⟩

end SchemaAtlas.Migration
