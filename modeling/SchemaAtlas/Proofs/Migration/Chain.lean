import SchemaAtlas.Migration.Statement
import SchemaAtlas.Proofs.Scan.Search
import SchemaAtlas.Proofs.Scan.Segment

/-!
# `SchemaAtlas.Proofs.Migration.Chain`: chains of modifiers

Behind its arguments a statement has a chain of modifiers, each an arrow, a name and an
argument between parentheses (`Link`). This module says what the readers of modifiers
find in a chain, whatever its names and whatever comes behind it:

* `map_rest_findFrom_chainText` finds the first modifier of a name. No name in the text
  can be mistaken for a modifier, since names are followed by quotes or parentheses and
  modifiers are preceded by an arrow.
* `over_chainText` says that a chain leaves strings open or closed as they were, read
  from a string that some text in front of it left open as well.
-/

set_option autoImplicit false

namespace SchemaAtlas

open SchemaAtlas.Scan SchemaAtlas.Text

namespace Migration

/-! ### The text of a chain -/

/-- An argument of a modifier: none, a truth value, or a word between quotes. -/
inductive Argument
  | empty
  | flag (value : Bool)
  | quoted (quote : Char) (word : String)
  deriving DecidableEq, Repr

namespace Argument

/-- The text of an argument. -/
def text : Argument → List Char
  | empty => []
  | flag true => "true".toList
  | flag false => "false".toList
  | quoted q word => q :: (word.toList ++ [q])

/-- Holds of an argument whose word, if it is one between quotes, is made of the
characters of names. It may be empty. -/
def WellFormed : Argument → Prop
  | quoted q word => isQuote q = true ∧ ∀ c ∈ word.toList, isWord c = true
  | _ => True

instance (a : Argument) : Decidable a.WellFormed :=
  match a with
  | empty => inferInstanceAs (Decidable True)
  | flag _ => inferInstanceAs (Decidable True)
  | quoted q word =>
    decidable_of_iff (isQuote q = true ∧ word.toList.all isWord = true)
      (and_congr_right fun _ => List.all_eq_true)

end Argument

/-- A modifier: its name and its argument. -/
structure Link where
  name : String
  argument : Argument := .empty
  deriving DecidableEq, Repr

namespace Link

/-- The text of a modifier. -/
def text (l : Link) : List Char :=
  '-' :: '>' :: (l.name.toList ++ '(' :: (l.argument.text ++ [')']))

/-- Holds of a modifier with a name and a well-formed argument. -/
structure WellFormed (l : Link) : Prop where
  name : isName l.name = true
  argument : l.argument.WellFormed

instance (l : Link) : Decidable l.WellFormed :=
  decidable_of_iff (isName l.name = true ∧ l.argument.WellFormed)
    ⟨fun ⟨hname, hargument⟩ => ⟨hname, hargument⟩, fun h => ⟨h.name, h.argument⟩⟩

end Link

/-- The text of a chain of modifiers. -/
def chainText (ls : List Link) : List Char :=
  ls.flatMap Link.text

/-- No links are written as nothing. -/
@[simp] theorem chainText_nil : chainText [] = [] := rfl

/-- A chain is written as its first link, followed by the others. -/
theorem chainText_cons (l : Link) (ls : List Link) :
    chainText (l :: ls) = l.text ++ chainText ls :=
  List.flatMap_cons

/-! ### Characters -/

/-- A name has characters of names only, by what a name is. -/
theorem isWord_of_mem_name {s : String} (h : isName s = true) {c : Char} (hc : c ∈ s.toList) :
    isWord c = true := by
  simp only [isName, Bool.and_eq_true, List.all_eq_true] at h
  exact h.2 c hc

/-- The signs of a chain: its characters that are in no name and no word. -/
def chainSigns : List Char := ['-', '>', '(', ')', '\'', '"']

/-- An argument of a link is made of characters of names and of quotes. -/
theorem mem_argument {a : Argument} (h : a.WellFormed) {c : Char} (hc : c ∈ a.text) :
    isWord c = true ∨ isQuote c = true := by
  cases a with
  | empty => cases hc
  | flag value =>
      have hword : ∀ s : String, isName s = true → c ∈ s.toList → isWord c = true :=
        fun s hs hm => isWord_of_mem_name hs hm
      cases value with
      | true => exact .inl (hword "true" (by decide) hc)
      | false => exact .inl (hword "false" (by decide) hc)
  | quoted q word =>
      simp only [Argument.text, List.mem_cons, List.mem_append, List.not_mem_nil, or_false] at hc
      rcases hc with rfl | hc | rfl
      · exact .inr h.1
      · exact .inl (h.2 c hc)
      · exact .inr h.1

/-- Quotes of both kinds are among the signs of a chain. -/
theorem mem_chainSigns_of_isQuote {c : Char} (h : isQuote c = true) : c ∈ chainSigns := by
  simp only [isQuote, Bool.or_eq_true, beq_iff_eq] at h
  rcases h with rfl | rfl
  · decide
  · decide

/-- A link is made of characters of names and of the signs of a chain. -/
theorem mem_linkText {l : Link} (h : l.WellFormed) {c : Char} (hc : c ∈ l.text) :
    isWord c = true ∨ c ∈ chainSigns := by
  simp only [Link.text, List.mem_cons, List.mem_append, List.not_mem_nil, or_false] at hc
  rcases hc with rfl | rfl | hc | rfl | hc | rfl
  · exact .inr (by decide)
  · exact .inr (by decide)
  · exact .inl (isWord_of_mem_name h.name hc)
  · exact .inr (by decide)
  · exact (mem_argument h.argument hc).imp_right mem_chainSigns_of_isQuote
  · exact .inr (by decide)

/-- Every character of a chain is in a name or a word, or one of the signs. -/
theorem mem_chainText {ls : List Link} (h : ∀ l ∈ ls, l.WellFormed) {c : Char}
    (hc : c ∈ chainText ls) :
    isWord c = true ∨ c ∈ chainSigns := by
  obtain ⟨l, hl, hc⟩ := List.mem_flatMap.mp hc
  exact mem_linkText (h l hl) hc

/-- A chain has no other sign in it than its own: neither a semicolon, nor a brace, nor a
dollar sign. -/
theorem notMem_chainText {ls : List Link} (h : ∀ l ∈ ls, l.WellFormed) {c : Char}
    (hw : isWord c = false)
    (hc : c ∉ chainSigns) : c ∉ chainText ls := by
  intro hm
  rcases mem_chainText h hm with hword | hsign
  · rw [hw] at hword
    cases hword
  · exact hc hsign

/-! ### Strings -/

end Migration

namespace Scan.Quotes

/-- Holds of the states that a reader can be in: strings are opened by quotes. -/
def Proper : Quotes → Prop
  | outside => True
  | inside q => isQuote q = true
  | escaped q => isQuote q = true

/-- A proper state of reading strings stays proper with any further character. -/
theorem Proper.step {s : Quotes} (h : s.Proper) (c : Char) : (s.step c).Proper := by
  cases s with
  | outside =>
      rw [Quotes.step]
      split
      · assumption
      · exact h
  | inside q =>
      rw [Quotes.step]
      split
      · exact h
      · split
        · trivial
        · exact h
  | escaped q => exact h

/-- A proper state of reading strings stays proper over any text. -/
theorem Proper.over {s : Quotes} (h : s.Proper) (cs : List Char) : (s.over cs).Proper := by
  induction cs generalizing s with
  | nil => exact h
  | cons c cs ih => exact ih (h.step c)

/-- The state behind something that opens and closes strings in pairs: a character that
a backslash takes along is behind it by then. -/
def resumed : Quotes → Quotes
  | escaped q => inside q
  | s => s

/-- Reading that has been taken up again needs not be taken up once more. -/
@[simp] theorem resumed_resumed (s : Quotes) : s.resumed.resumed = s.resumed := by
  cases s <;> rfl

end Scan.Quotes

namespace Migration

/-- A piece without quotes and backslashes leaves strings open or closed as they were, if no
backslash stands right before it. -/
theorem over_of_plain {s : Quotes} (hs : s.Proper) (hresumed : s.resumed = s) {x : List Char}
    (hx : ∀ c ∈ x, isQuote c = false ∧ c ≠ '\\') : s.over x = s := by
  cases s with
  | outside => exact Quotes.over_outside_of_noQuote x fun c hc => (hx c hc).1
  | inside q =>
      refine Quotes.over_inside_of_plain q x (fun hm => ?_) fun hm => (hx _ hm).2 rfl
      exact Bool.false_ne_true ((hx q hm).1.symm.trans hs)
  | escaped q => cases hresumed

/-- Characters of names are neither quotes nor backslashes, so names change nothing about
strings. -/
theorem plain_of_isWord {c : Char} (h : isWord c = true) : isQuote c = false ∧ c ≠ '\\' := by
  refine ⟨?_, ne_of_class h (by decide)⟩
  cases hq : isQuote c with
  | false => rfl
  | true =>
      rw [isWord_of_isQuote hq] at h
      cases h

/-- A name changes nothing outside of strings. -/
theorem over_name {s : String} (h : isName s = true) : Quotes.outside.over s.toList = .outside :=
  Quotes.over_outside_of_noQuote _ fun _ hc => (plain_of_isWord (isWord_of_mem_name h hc)).1

/-- An argument opens and closes strings in pairs, inside of an open string as well: its
quotes are of one kind and there are two of them or none. -/
theorem over_argument {s : Quotes} (hs : s.Proper) (hresumed : s.resumed = s) {a : Argument}
    (h : a.WellFormed) : s.over a.text = s := by
  cases a with
  | empty => rfl
  | flag value =>
      refine over_of_plain hs hresumed fun c hc => ?_
      cases value with
      | true => exact plain_of_isWord (isWord_of_mem_name (s := "true") (by decide) hc)
      | false => exact plain_of_isWord (isWord_of_mem_name (s := "false") (by decide) hc)
  | quoted q word =>
      obtain ⟨hq, hword⟩ := h
      have hplain : ∀ c ∈ word.toList, isQuote c = false ∧ c ≠ '\\' :=
        fun c hc => plain_of_isWord (hword c hc)
      have hback : q ≠ '\\' := ne_of_class hq (by decide)
      -- a quote opens a string or closes one, and another like it does the opposite
      have hopen : (Quotes.outside.step q) = .inside q := if_pos hq
      have hclose : ((Quotes.inside q).step q) = .outside := by
        rw [Quotes.step, if_neg hback, if_pos rfl]
      have hinside : (Quotes.inside q).over word.toList = .inside q :=
        over_of_plain (s := .inside q) hq rfl hplain
      have houtside : Quotes.outside.over word.toList = .outside :=
        over_of_plain (s := .outside) trivial rfl hplain
      rw [Argument.text, Quotes.over_cons, Quotes.over_append, Quotes.over_cons, Quotes.over_nil]
      cases s with
      | outside => rw [hopen, hinside, hclose]
      | inside p =>
          by_cases hp : q = p
          · rw [← hp, hclose, houtside, hopen]
          · have hstep : (Quotes.inside p).step q = .inside p := by
              rw [Quotes.step, if_neg hback, if_neg hp]
            have hother : (Quotes.inside p).over word.toList = .inside p :=
              over_of_plain (s := .inside p) hs rfl hplain
            rw [hstep, hother, hstep]
      | escaped p => cases hresumed

/-- A link leaves strings as they were, apart from a backslash before it, which its arrow
takes along. -/
theorem over_linkText {s : Quotes} (hs : s.Proper) {l : Link} (h : l.WellFormed) :
    s.over l.text = s.resumed := by
  have hname : ∀ c ∈ '>' :: (l.name.toList ++ ['(']), isQuote c = false ∧ c ≠ '\\' := by
    intro c hc
    simp only [List.mem_cons, List.mem_append, List.not_mem_nil, or_false] at hc
    rcases hc with rfl | hc | rfl
    · decide
    · exact plain_of_isWord (isWord_of_mem_name h.name hc)
    · decide
  have hend : ∀ c ∈ [')'], isQuote c = false ∧ c ≠ '\\' := by
    intro c hc
    rw [List.mem_singleton.mp hc]
    decide
  have hcut : l.text
      = '-' :: (('>' :: (l.name.toList ++ ['('])) ++ (l.argument.text ++ [')'])) := by
    simp [Link.text]
  -- a backslash in front takes the arrow along, and behind it only the argument has quotes, in
  -- pairs
  have harrow : s.step '-' = s.resumed := by
    cases s with
    | outside => rfl
    | inside q =>
        have hq : q ≠ '-' := ne_of_class hs (by decide)
        rw [Quotes.step, if_neg (by decide), if_neg hq.symm]
        rfl
    | escaped q => rfl
  have hproper : s.resumed.Proper := by
    rw [← harrow]
    exact hs.step '-'
  have hback := Quotes.resumed_resumed s
  rw [hcut, Quotes.over_cons, harrow, Quotes.over_append, Quotes.over_append,
    over_of_plain hproper hback hname, over_argument hproper hback h.argument,
    over_of_plain hproper hback hend]

/-- A chain leaves a string open or closed as it was, if no backslash stands right before
it. -/
theorem over_chainText_of_resumed {s : Quotes} (hs : s.Proper) (hresumed : s.resumed = s)
    {ls : List Link}
    (h : ∀ l ∈ ls, l.WellFormed) : s.over (chainText ls) = s := by
  induction ls with
  | nil => rfl
  | cons l ls ih =>
      rw [chainText_cons, Quotes.over_append, over_linkText hs (h l List.mem_cons_self), hresumed]
      exact ih fun l' hl' => h l' (List.mem_cons_of_mem l hl')

/-- A chain leaves strings as they were. A backslash right before it takes along the first
character of its first arrow, and is done with then. -/
theorem over_chainText {s : Quotes} (hs : s.Proper) {ls : List Link}
    (h : ∀ l ∈ ls, l.WellFormed) :
    s.over (chainText ls) = if ls.isEmpty then s else s.resumed := by
  cases ls with
  | nil => rfl
  | cons l ls =>
      have hfirst := over_linkText hs (h l List.mem_cons_self)
      have hproper : s.resumed.Proper := hfirst ▸ hs.over l.text
      rw [chainText_cons, Quotes.over_append, hfirst,
        over_chainText_of_resumed hproper (Quotes.resumed_resumed s) fun l' hl' =>
          h l' (List.mem_cons_of_mem l hl')]
      rfl

/-- Outside of strings a chain leaves no string open. -/
theorem over_outside_chainText {ls : List Link} (h : ∀ l ∈ ls, l.WellFormed) :
    Quotes.outside.over (chainText ls) = .outside :=
  over_chainText_of_resumed (s := .outside) trivial rfl h

/-! ### Finding a modifier -/

/-- A modifier of another name is not taken for one of this name, not even if
its name begins alike. -/
theorem modifierCall_ne {n : String} (hn : isName n = true) {other : String}
    (hm : isName other = true)
    (hne : other ≠ n) (r : List Char) :
    modifierCall n ('-' :: '>' :: (other.toList ++ '(' :: r)) = none := by
  have harrow : literal "->" ('-' :: '>' :: (other.toList ++ '(' :: r))
      = some (other.toList ++ '(' :: r) := (literal_eq_some_iff _ _ _).mpr rfl
  have hblank : skipBlanks (other.toList ++ '(' :: r) = other.toList ++ '(' :: r :=
    skipBlanks_append_name blanks_nil hm _
  simp only [modifierCall, Option.bind_eq_bind, harrow, Option.bind_some, hblank]
  cases hl : literal n (other.toList ++ '(' :: r) with
  | none => rfl
  | some u =>
      have hu := (literal_eq_some_iff _ _ _).mp hl
      -- the name found ends inside the modifier's own name, or both end together
      rcases List.append_eq_append_iff.mp hu.symm with ⟨w, hw, hr⟩ | ⟨w, hw, hr⟩
      · cases w with
        | nil =>
            rw [List.append_nil] at hw
            exact absurd (String.toList_injective hw) hne
        | cons d w =>
            have hd : isWord d = true := isWord_of_mem_name hm (by rw [hw]; simp)
            have hdp : d ≠ '(' := ne_of_class hd (by decide)
            rw [hr, List.cons_append, Option.bind_some, skipBlanks_cons (isBlank_of_isWord hd)]
            simp [char, hdp]
      · cases w with
        | nil =>
            rw [List.append_nil] at hw
            exact absurd (String.toList_injective hw.symm) hne
        | cons d w =>
            obtain ⟨rfl, -⟩ := List.cons.inj hr
            have hd : '(' ∈ n.toList := by rw [hw]; simp
            exact absurd hd (notMem_of_isName hn (by decide))

/-- All modifiers begin with an arrow, so none is found in a text without one. -/
theorem leads_modifierCall (n : String) : Leads (· = ['-', '>']) (modifierCall n) := by
  intro cs m hm
  simp only [modifierCall, Option.bind_eq_bind, Option.bind_eq_some_iff] at hm
  obtain ⟨r, hr, -⟩ := hm
  rw [(literal_eq_some_iff _ _ _).mp hr]
  exact ⟨_, rfl, List.prefix_append _ _⟩

/-- A text without a hyphen has no modifier in it, nor the beginning of one. -/
theorem quiet_modifierCall (n : String) {x : List Char} (h : '-' ∉ x) :
    Quiet (modifierCall n) x :=
  quiet_of_notMem (leads_modifierCall n) (fun _ hl => by rw [hl]; rfl) h

/-- Quotes are no blanks, so skipping blanks stops at them. -/
theorem isBlank_of_isQuote {q : Char} (h : isQuote q = true) : isBlank q = false := by
  simp only [isQuote, Bool.or_eq_true, beq_iff_eq] at h
  rcases h with rfl | rfl
  · decide
  · decide

/-- Where there is no arrow, there is no modifier, of whatever name. -/
theorem modifier?_of_notMem (n : String) {x : List Char} (h : '-' ∉ x) :
    modifier? n x = none := by
  rw [modifier?, find?, findFrom_quiet (quiet_modifierCall n h)]
  rfl

/-- No argument begins with a blank, so nothing is skipped in front of it. -/
theorem skipBlanks_argument {a : Argument} (h : a.WellFormed) (r : List Char) :
    skipBlanks (a.text ++ ')' :: r) = a.text ++ ')' :: r := by
  cases ha : a.text with
  | nil => exact skipBlanks_cons (by decide) r
  | cons c x =>
      have hc : isBlank c = false := by
        rcases mem_argument h (c := c) (by rw [ha]; exact List.mem_cons_self) with hw | hq
        · exact isBlank_of_isWord hw
        · exact isBlank_of_isQuote hq
      exact skipBlanks_cons hc _

/-- A character that is neither in names nor a quote is not in an argument of a link. -/
theorem notMem_argument {a : Argument} (h : a.WellFormed) {c : Char} (hw : isWord c = false)
    (hq : isQuote c = false) : c ∉ a.text := by
  intro hm
  rcases mem_argument h hm with hword | hquote
  · exact Bool.false_ne_true (hw.symm.trans hword)
  · exact Bool.false_ne_true (hq.symm.trans hquote)

/-- What follows the opening parenthesis of the first modifier of a name, in a chain with
some text behind it. -/
def linkRest? (n : String) (behind : List Char) : List Link → Option (List Char)
  | [] => none
  | l :: ls =>
    if l.name = n then some (l.argument.text ++ ')' :: (chainText ls ++ behind))
      else linkRest? n behind ls

/-- A modifier is recognized by its name, between its arrow and its parenthesis, and its
argument is what is read next. -/
theorem modifierCall_link {l : Link} (hl : l.WellFormed) (r : List Char) :
    modifierCall l.name
      (('-' :: '>' :: (l.name.toList ++ ['('])) ++ (l.argument.text ++ ')' :: r))
      = some ((), l.argument.text ++ ')' :: r) := by
  have harrow : ∀ r, literal "->" ('-' :: '>' :: r) = some r :=
    fun r => (literal_eq_some_iff _ _ _).mpr rfl
  have hblank : ∀ r, skipBlanks (l.name.toList ++ r) = l.name.toList ++ r :=
    fun r => skipBlanks_append_name blanks_nil hl.name r
  simp only [modifierCall, Option.bind_eq_bind, List.cons_append, List.append_assoc, harrow,
    Option.bind_some, hblank, literal_append, List.nil_append, char_cons,
    skipBlanks_cons (show isBlank '(' = false by decide), skipBlanks_argument hl.argument,
    Option.pure_def]

/-- Behind its arrow, a link has no further hyphen, so the next arrow is that of the next
link. -/
theorem notMem_link {l : Link} (hl : l.WellFormed) :
    '-' ∉ '>' :: (l.name.toList ++ '(' :: (l.argument.text ++ [')'])) := by
  have hname : '-' ∉ l.name.toList := notMem_of_isName hl.name (by decide)
  have hargument : '-' ∉ l.argument.text := notMem_argument hl.argument (by decide) (by decide)
  simp [hname, hargument]

/-- The search for a modifier goes from one modifier to the next, and then behind the
chain. -/
theorem map_rest_findFrom_chainText {n : String} (hn : isName n = true) {ls : List Link}
    (h : ∀ l ∈ ls, l.WellFormed) (i : Nat) (r : List Char) :
    (findFrom (modifierCall n) i (chainText ls ++ r)).map Match.rest
      = (linkRest? n r ls).or
        ((findFrom (modifierCall n) (i + (chainText ls).length) r).map Match.rest) := by
  induction ls generalizing i with
  | nil => rfl
  | cons l ls ih =>
      have hl := h l List.mem_cons_self
      have hls : ∀ l' ∈ ls, l'.WellFormed := fun l' hl' => h l' (List.mem_cons_of_mem l hl')
      have htext : chainText (l :: ls) ++ r = '-' :: ('>' :: (l.name.toList ++ '(' ::
          (l.argument.text ++ [')'])) ++ (chainText ls ++ r)) := by
        simp [chainText_cons, Link.text]
      rw [linkRest?]
      split
      · rename_i he
        obtain rfl := he
        have hcall := modifierCall_link hl (chainText ls ++ r)
        have hcut : chainText (l :: ls) ++ r = ('-' :: '>' :: (l.name.toList ++ ['('])) ++
            (l.argument.text ++ ')' :: (chainText ls ++ r)) := by
          rw [htext]
          simp
        rw [hcut, findFrom_of_match hcall (by simp)]
        rfl
      · rename_i hne
        -- another modifier: the search goes on behind its arrow
        have hnone : modifierCall n (chainText (l :: ls) ++ r) = none := by
          have hcall :=
            modifierCall_ne hn hl.name hne (l.argument.text ++ ')' :: (chainText ls ++ r))
          rw [htext]
          simpa using hcall
        have hlength : i + (chainText (l :: ls)).length
            = i + 1 + ('>' :: (l.name.toList ++ '(' :: (l.argument.text ++ [')']))).length
              + (chainText ls).length := by
          simp only [chainText_cons, Link.text, List.length_append, List.length_cons]
          omega
        rw [htext] at hnone ⊢
        rw [findFrom, hnone, hlength]
        show (findFrom _ (i + 1) _).map Match.rest = _
        rw [findFrom_of_quiet (quiet_modifierCall n (notMem_link hl))]
        exact ih hls _

/-- What a reader makes of the argument of the first modifier of a name, if it reads
nothing but the argument. -/
theorem map_linkRest? {β : Type} {f : List Char → β} {g : Argument → β} {ls : List Link}
    (h : ∀ l ∈ ls, l.WellFormed)
    (hf : ∀ a : Argument, a.WellFormed → ∀ r, f (a.text ++ ')' :: r) = g a)
    (n : String) (r : List Char) :
    (linkRest? n r ls).map f = (ls.find? fun l => l.name == n).map fun l => g l.argument := by
  induction ls with
  | nil => rfl
  | cons l ls ih =>
      rw [linkRest?]
      by_cases hname : l.name = n
      · rw [if_pos hname, List.find?_cons_of_pos (by simpa using hname)]
        exact congrArg some (hf _ (h l List.mem_cons_self).argument _)
      · rw [if_neg hname, List.find?_cons_of_neg (by simpa using hname)]
        exact ih fun l' hl' => h l' (List.mem_cons_of_mem l hl')

/-! ### Reading arguments -/

/-- A first argument is read between its quotes, unless it is empty. -/
theorem firstArgument?_quoted {q : Char} (hq : isQuote q = true) {s : String}
    (hs : ∀ c ∈ s.toList, isWord c = true) (r : List Char) :
    firstArgument? (q :: (s.toList ++ q :: r)) = if s.isEmpty then none else some s := by
  have hword := isWord_of_isQuote hq
  have hdot : q ≠ '.' := ne_of_class hq (by decide)
  have hall : ∀ d ∈ s.toList, (isWord d || d == '.') = true := by
    intro d hd
    simp [hs d hd]
  have htake : (s.toList ++ q :: r).takeWhile (fun d => isWord d || d == '.') = s.toList := by
    rw [List.takeWhile_append_of_pos hall, List.takeWhile_cons_of_neg (by simp [hword, hdot]),
      List.append_nil]
  have hrest : (s.toList ++ q :: r).dropWhile (fun d => isWord d || d == '.') = q :: r := by
    rw [List.dropWhile_append_of_pos hall, List.dropWhile_cons_of_neg (by simp [hword, hdot])]
  have hempty : s.toList.isEmpty = s.isEmpty := by
    rw [Bool.eq_iff_iff]
    simp
  have hopen : quote (q :: (s.toList ++ q :: r)) = some (q, s.toList ++ q :: r) :=
    (quote_eq_some_iff _ _ _).mpr ⟨rfl, hq⟩
  simp only [firstArgument?, skipBlanks_cons (isBlank_of_isQuote hq), hopen, Option.bind_eq_bind,
    Option.bind_some, hrest, char_cons, htake, hempty, String.ofList_toList]

/-! ### Reading modifiers -/

/-- An argument is read off what follows the parenthesis of its modifier, if it is a name
between quotes. -/
theorem modifierArgument?_eq_join (n : String) (tail : List Char) :
    modifierArgument? n tail
      = ((modifier? n tail).map fun cs => (quotedName cs).map Prod.fst).join := by
  rw [modifierArgument?]
  cases modifier? n tail with
  | none => rfl
  | some cs => cases hq : quotedName cs <;> simp [hq]

/-- A column is nullable if there is a modifier of that name whose argument is not the truth
value `false`. -/
theorem isNullable_eq_getD (tail : List Char) :
    isNullable tail = ((modifier? "nullable" tail).map fun cs => (literal "false" cs).isNone).getD
      false := by
  rw [isNullable]
  cases modifier? "nullable" tail with
  | none => rfl
  | some cs => rfl

/-- The word of an argument, unless it is empty. -/
def Argument.word? : Argument → Option String
  | quoted _ word => if word.isEmpty then none else some word
  | _ => none

/-- Of the arguments, those between quotes read as a name, and no other does. -/
theorem map_quotedName_argument (a : Argument) (h : a.WellFormed) (r : List Char) :
    (quotedName (a.text ++ ')' :: r)).map Prod.fst = a.word? := by
  cases a with
  | empty => rfl
  | flag value =>
      cases value with
      | true => rfl
      | false => rfl
  | quoted q word =>
      obtain ⟨hq, hword⟩ := h
      have hcut : (Argument.quoted q word).text ++ ')' :: r
          = q :: (word.toList ++ q :: (')' :: r)) := by
        simp [Argument.text]
      rw [hcut, Argument.word?]
      split
      · rename_i he
        obtain rfl : word = "" := by simpa using he
        -- between quotes with nothing in them no name is read
        have hname : name (q :: (')' :: r)) = none := by
          have hw : isWord q = false := isWord_of_isQuote hq
          simp [name, run, hw]
        have hquote : quote (q :: q :: (')' :: r)) = some (q, q :: (')' :: r)) :=
          (quote_eq_some_iff _ _ _).mpr ⟨rfl, hq⟩
        simp only [String.toList_empty, List.nil_append, quotedName, Option.bind_eq_bind, hquote,
          Option.bind_some, hname, Option.bind_none, Option.map_none]
      · rename_i he
        have hname : isName word = true := by
          simp only [isName, Bool.and_eq_true, Bool.not_eq_true', List.all_eq_true]
          exact ⟨by simpa using he, hword⟩
        rw [(quotedName_eq_some_iff _ (')' :: r) word).mpr ⟨q, hq, hname, rfl⟩]
        rfl

/-- Only the truth value `false` reads as such: a name between quotes does not begin with
its letters. -/
theorem isNone_literal_argument (a : Argument) (h : a.WellFormed) (r : List Char) :
    (literal "false" (a.text ++ ')' :: r)).isNone = decide (a ≠ .flag false) := by
  cases a with
  | empty => rfl
  | flag value =>
      cases value with
      | true => rfl
      | false => rfl
  | quoted q word =>
      have hq : 'f' ≠ q := (ne_of_class h.1 (by decide)).symm
      have hliteral : literal "false" (q :: ((word.toList ++ [q]) ++ ')' :: r)) = none :=
        if_neg hq
      rw [Argument.text, List.cons_append, hliteral]
      rfl

end Migration

end SchemaAtlas
