import Mathlib.Data.List.TakeWhile
import SchemaAtlas.Scan.ClassName

/-!
# `SchemaAtlas.Proofs.Scan.Search`: what recognizers take and where searches pass by

A recognizer takes a piece off the beginning of a text. The first half of this
module says of each small recognizer which pieces it takes, as an equation
`p cs = some (a, r) ↔ cs = piece ++ r ∧ ...`.

The second half is about searching. A piece of text is `Quiet` for a
recognizer if no match begins in it, whatever comes behind it; a search goes
past such a piece (`findAllFrom_of_quiet`). What holds of the search for all
matches holds of the search for the first, which is the first of them
(`findFrom_eq_head?`). A recognizer
all of whose texts begin in certain ways is quiet on pieces in which none of
these beginnings can start: `quiet_of_clear` decides that for a fixed piece,
and `quiet_of_stop` shows it for a piece with names in it.
-/

set_option autoImplicit false

namespace SchemaAtlas.Scan

open SchemaAtlas.Text

/-! ### Word characters and blanks -/

/-- No blank is a word character. There are few blanks among all characters, so each of them
is checked by itself. -/
theorem isWord_of_isBlank {c : Char} (h : isBlank c = true) : isWord c = false := by
  have hn : c.toNat ∈ ([9, 10, 11, 12, 13, 28, 29, 30, 31, 32, 0x85, 0xA0, 0x1680, 0x2000, 0x2001,
      0x2002, 0x2003, 0x2004, 0x2005, 0x2006, 0x2007, 0x2008, 0x2009, 0x200A, 0x2028, 0x2029,
      0x202F, 0x205F, 0x3000] : List Nat) := by
    simp only [isBlank, covers, blankRanges, List.any_cons, List.any_nil] at h
    simp only [List.mem_cons, List.not_mem_nil, or_false]
    split at h <;> simp at h <;> omega
  rw [← Char.ofNat_toNat c]
  generalize c.toNat = n at hn
  revert n
  decide +kernel

/-- No word character is blank, so a name is never taken for what may be skipped before
it. -/
theorem isBlank_of_isWord {c : Char} (h : isWord c = true) : isBlank c = false := by
  cases hb : isBlank c with
  | false => rfl
  | true =>
      rw [isWord_of_isBlank hb] at h
      cases h

/-- A character that is in a class differs from one that is not. The proofs about particular
signs use it in this form. -/
theorem ne_of_class {p : Char → Bool} {c d : Char} (hc : p c = true) (hd : p d = false) :
    c ≠ d := by
  intro e
  rw [e, hd] at hc
  cases hc

/-- A name has no character that is not a word character: no quote, no slash, no
parenthesis. -/
theorem notMem_of_isName {s : String} (h : isName s = true) {d : Char} (hd : isWord d = false) :
    d ∉ s.toList := by
  intro hm
  simp only [isName, Bool.and_eq_true, List.all_eq_true] at h
  rw [h.2 d hm] at hd
  cases hd

/-- A name is its first character and the others, word characters all of them. -/
theorem exists_cons_of_isName {s : String} (h : isName s = true) :
    ∃ c w, s.toList = c :: w ∧ isWord c = true ∧ ∀ d ∈ w, isWord d = true := by
  simp only [isName, Bool.and_eq_true, List.all_eq_true] at h
  cases hs : s.toList with
  | nil =>
      have he : s = "" := by rw [← String.ofList_toList (s := s), hs]
      rw [he] at h
      exact absurd h.1 (by decide)
  | cons c w =>
      rw [hs] at h
      exact ⟨c, w, rfl, h.2 c (by simp), fun d hd => h.2 d (by simp [hd])⟩

/-- A name is made of word characters, and there is at least one. -/
theorem isName_iff (s : String) :
    isName s = true ↔ s.toList ≠ [] ∧ ∀ c ∈ s.toList, isWord c = true := by
  constructor
  · intro h
    obtain ⟨c, w, hs, hc, hw⟩ := exists_cons_of_isName h
    rw [hs]
    exact ⟨by simp, by simpa [hc] using hw⟩
  · rintro ⟨hne, hall⟩
    have hempty : s.isEmpty = false := by
      cases he : s.isEmpty with
      | false => rfl
      | true => exact absurd (by simpa using he) hne
    simpa [isName, hempty] using hall

/-- Blanks only. -/
def Blanks (b : List Char) : Prop := ∀ c ∈ b, isBlank c = true

/-- No blanks at all are blanks, too: wherever blanks may stand, there need not be any. -/
theorem blanks_nil : Blanks [] := fun _ hc => absurd hc List.not_mem_nil

/-- Blanks in front of a text are skipped, together with those that the text itself begins
with. -/
theorem skipBlanks_append {b : List Char} (hb : Blanks b) (r : List Char) :
    skipBlanks (b ++ r) = skipBlanks r :=
  List.dropWhile_append_of_pos hb

/-- Nothing is skipped in front of a character that is not a blank. -/
@[simp] theorem skipBlanks_cons {c : Char} (hc : isBlank c = false) (r : List Char) :
    skipBlanks (c :: r) = c :: r := by
  simp [skipBlanks, hc]

/-- Blanks are skipped up to the first character that is not one, and no further. -/
theorem skipBlanks_append_cons {b : List Char} (hb : Blanks b) {c : Char} (hc : isBlank c = false)
    (r : List Char) : skipBlanks (b ++ c :: r) = c :: r := by
  rw [skipBlanks_append hb, skipBlanks_cons hc]

/-- A text is the blanks that are skipped and what is left, which does not begin with a
blank. -/
theorem exists_skipBlanks (cs : List Char) :
    ∃ b, Blanks b ∧ cs = b ++ skipBlanks cs ∧ ∀ c ∈ (skipBlanks cs).head?, isBlank c = false := by
  refine ⟨cs.takeWhile isBlank, fun c hc => List.mem_takeWhile_imp hc,
    (List.takeWhile_append_dropWhile).symm, ?_⟩
  intro c hc
  have h := List.head?_dropWhile_not isBlank cs
  rw [skipBlanks, Option.mem_def] at hc
  rw [hc] at h
  simpa using h

/-! ### Small recognizers -/

/-- A fixed lead is taken off a text if and only if the text begins with it, and the rest is
what stands behind. -/
theorem afterLead?_eq_some_iff (lead cs r : List Char) :
    afterLead? lead cs = some r ↔ cs = lead ++ r := by
  induction lead generalizing cs with
  | nil => simp [afterLead?, eq_comm]
  | cons l lead ih =>
      cases cs with
      | nil => simp [afterLead?]
      | cons c cs =>
          by_cases h : l = c
          · simp [afterLead?, h, ih]
          · simp [afterLead?, h, Ne.symm h]

/-- A fixed word is recognized if and only if the text begins with it. What comes behind the
word does not matter. -/
theorem literal_eq_some_iff (s : String) (cs r : List Char) :
    literal s cs = some r ↔ cs = s.toList ++ r :=
  afterLead?_eq_some_iff s.toList cs r

/-- A fixed word in front of any text is recognized, and that text is left. -/
@[simp] theorem literal_append (s : String) (r : List Char) :
    literal s (s.toList ++ r) = some r :=
  (literal_eq_some_iff s _ r).mpr rfl

/-- A single character is recognized if and only if the text begins with it. -/
theorem char_eq_some_iff (x : Char) (cs r : List Char) : char x cs = some r ↔ cs = x :: r := by
  cases cs with
  | nil => simp [char]
  | cons c cs =>
      by_cases h : c = x
      · simp [char, h]
      · simp [char, h]

/-- A character in front of any text is recognized, and that text is left. -/
@[simp] theorem char_cons (x : Char) (r : List Char) : char x (x :: r) = some r :=
  (char_eq_some_iff x _ r).mpr rfl

/-- A character that is no blank is recognized behind blanks, once these are skipped. -/
theorem char_skipBlanks {b : List Char} (hb : Blanks b) {x : Char} (hx : isBlank x = false)
    (r : List Char) : char x (skipBlanks (b ++ x :: r)) = some r := by
  rw [skipBlanks_append_cons hb hx, char_cons]

/-- Where blanks are required, at least one is taken, and so are all that follow it. -/
theorem someBlanks_eq_some_iff (cs r : List Char) :
    someBlanks cs = some r ↔
      ∃ b, Blanks b ∧ b ≠ [] ∧ cs = b ++ r ∧ ∀ c ∈ r.head?, isBlank c = false := by
  constructor
  · intro h
    cases cs with
    | nil => cases h
    | cons c cs =>
        simp only [someBlanks] at h
        split at h
        · rename_i hc
          obtain ⟨b, hb, hcs, hhead⟩ := exists_skipBlanks cs
          obtain rfl := Option.some.inj h
          refine ⟨c :: b, ?_, by simp, by rw [List.cons_append, ← hcs], hhead⟩
          intro d hd
          rcases List.mem_cons.mp hd with rfl | hd
          · exact hc
          · exact hb d hd
        · cases h
  · rintro ⟨b, hb, hne, rfl, hhead⟩
    cases b with
    | nil => exact absurd rfl hne
    | cons c b =>
        have hc : isBlank c = true := hb c (by simp)
        -- the first blank is the one that is required, the others are skipped like any
        have hskip : skipBlanks (b ++ r) = r := by
          rw [skipBlanks_append (fun d hd => hb d (List.mem_cons_of_mem c hd))]
          cases r with
          | nil => rfl
          | cons d r => exact skipBlanks_cons (hhead d rfl) r
        simp only [List.cons_append, someBlanks, if_pos hc, hskip]

/-- The longest run of characters of a kind is taken. It is not empty, and what is left does
not begin with another of them. -/
theorem run_eq_some_iff (p : Char → Bool) (cs w r : List Char) :
    run p cs = some (w, r) ↔
      cs = w ++ r ∧ w ≠ [] ∧ (∀ c ∈ w, p c = true) ∧ ∀ c ∈ r.head?, p c = false := by
  constructor
  · intro h
    simp only [run] at h
    split at h
    · cases h
    · rename_i c u hu
      simp only [Option.some.injEq, Prod.mk.injEq] at h
      obtain ⟨rfl, rfl⟩ := h
      refine ⟨by rw [← hu, List.takeWhile_append_dropWhile], by simp, ?_, ?_⟩
      · intro d hd
        rw [← hu] at hd
        exact List.mem_takeWhile_imp hd
      · intro d hd
        have hh := List.head?_dropWhile_not p cs
        rw [Option.mem_def] at hd
        rw [hd] at hh
        simpa using hh
  · rintro ⟨rfl, hne, hw, hr⟩
    -- `r` begins with a character of another kind, so the run ends where `w` does
    have htake : (w ++ r).takeWhile p = w := by
      rw [List.takeWhile_append_of_pos hw]
      cases r with
      | nil => simp
      | cons d r => simp [hr d rfl]
    have hdrop : (w ++ r).dropWhile p = r := by
      rw [List.dropWhile_append_of_pos hw]
      cases r with
      | nil => rfl
      | cons d r => simp [hr d rfl]
    cases w with
    | nil => exact absurd rfl hne
    | cons c w => simp only [run, htake, hdrop]

/-- A name is taken whole: it ends where the text ends or a character comes that no name has
in it. -/
theorem name_eq_some_iff (cs r : List Char) (s : String) :
    name cs = some (s, r) ↔
      cs = s.toList ++ r ∧ isName s = true ∧ ∀ c ∈ r.head?, isWord c = false := by
  rw [isName_iff]
  constructor
  · intro h
    simp only [name, Option.map_eq_some_iff] at h
    obtain ⟨⟨w, u⟩, hrun, he⟩ := h
    simp only [Prod.mk.injEq] at he
    obtain ⟨rfl, rfl⟩ := he
    obtain ⟨hcs, hne, hw, hr⟩ := (run_eq_some_iff _ _ _ _).mp hrun
    rw [String.toList_ofList]
    exact ⟨hcs, ⟨hne, hw⟩, hr⟩
  · rintro ⟨hcs, ⟨hne, hw⟩, hr⟩
    rw [name, (run_eq_some_iff _ _ _ _).mpr ⟨hcs, hne, hw, hr⟩]
    simp

/-- A name is recognized in front of something that no name goes on with, be it blanks or
some other sign. -/
theorem name_append {n : String} (hn : isName n = true) {b : List Char} (hb : Blanks b) {c : Char}
    (hc : isWord c = false) (r : List Char) :
    name (n.toList ++ (b ++ c :: r)) = some (n, b ++ c :: r) := by
  refine (name_eq_some_iff _ _ _).mpr ⟨rfl, hn, ?_⟩
  intro d hd
  cases b with
  | nil =>
      obtain rfl : c = d := by simpa using hd
      exact hc
  | cons e b =>
      obtain rfl : e = d := by simpa using hd
      exact isWord_of_isBlank (hb e (by simp))

/-- The blanks in front of a name end where the name begins, since a name begins with no
blank. -/
theorem skipBlanks_append_name {b : List Char} (hb : Blanks b) {n : String} (hn : isName n = true)
    (r : List Char) : skipBlanks (b ++ (n.toList ++ r)) = n.toList ++ r := by
  obtain ⟨c, w, hcw, hc, -⟩ := exists_cons_of_isName hn
  rw [hcw, List.cons_append]
  exact skipBlanks_append_cons hb (isBlank_of_isWord hc) _

/-- A quote is recognized if and only if the text begins with one, and it is reported which
of the two kinds it is. -/
theorem quote_eq_some_iff (cs r : List Char) (q : Char) :
    quote cs = some (q, r) ↔ cs = q :: r ∧ isQuote q = true := by
  cases cs with
  | nil => simp [quote]
  | cons c cs =>
      by_cases h : isQuote c = true
      · simp only [quote, if_pos h, Option.some.injEq, Prod.mk.injEq, List.cons.injEq]
        constructor
        · rintro ⟨rfl, rfl⟩
          exact ⟨⟨rfl, rfl⟩, h⟩
        · rintro ⟨⟨rfl, rfl⟩, -⟩
          exact ⟨rfl, rfl⟩
      · simp only [quote, if_neg h, List.cons.injEq]
        constructor
        · intro e
          cases e
        · rintro ⟨⟨rfl, rfl⟩, hq⟩
          exact absurd hq h

/-- A quote is no word character, so a quoted name ends at its closing quote. -/
theorem isWord_of_isQuote {q : Char} (h : isQuote q = true) : isWord q = false := by
  simp only [isQuote, Bool.or_eq_true, beq_iff_eq] at h
  rcases h with rfl | rfl
  · decide
  · decide

/-- A quoted name is a name between two quotes of one kind, and nothing else is between
them. -/
theorem quotedName_eq_some_iff (cs r : List Char) (s : String) :
    quotedName cs = some (s, r) ↔
      ∃ q, isQuote q = true ∧ isName s = true ∧ cs = q :: (s.toList ++ q :: r) := by
  constructor
  · intro h
    simp only [quotedName, Option.bind_eq_bind, Option.bind_eq_some_iff, Prod.exists] at h
    obtain ⟨q, u, hq, w, v, hw, t, ht, he⟩ := h
    obtain ⟨rfl, hquote⟩ := (quote_eq_some_iff _ _ _).mp hq
    obtain ⟨rfl, hname, -⟩ := (name_eq_some_iff _ _ _).mp hw
    obtain rfl := (char_eq_some_iff _ _ _).mp ht
    simp only [Option.pure_def, Option.some.injEq, Prod.mk.injEq] at he
    obtain ⟨rfl, rfl⟩ := he
    exact ⟨q, hquote, hname, rfl⟩
  · rintro ⟨q, hq, hs, rfl⟩
    have h1 : quote (q :: (s.toList ++ q :: r)) = some (q, s.toList ++ q :: r) :=
      (quote_eq_some_iff _ _ _).mpr ⟨rfl, hq⟩
    have h2 : name (s.toList ++ q :: r) = some (s, q :: r) := by
      refine (name_eq_some_iff _ _ _).mpr ⟨rfl, hs, ?_⟩
      intro c hc
      obtain rfl : q = c := by simpa using hc
      exact isWord_of_isQuote hq
    simp [quotedName, h1, h2]

/-! ### Quiet pieces -/

/-- Holds when the recognizer matches nowhere in the piece, whatever comes
behind it. -/
def Quiet {α : Type} (p : Recognizer α) (x : List Char) : Prop :=
  ∀ y, y ≠ [] → y <:+ x → ∀ r, p (y ++ r) = none

section Quiet

variable {α : Type} {p : Recognizer α}

/-- Nothing begins in an empty piece, so it is quiet for every recognizer. -/
theorem quiet_nil : Quiet p [] := by
  intro y hne hy
  exact absurd (List.suffix_nil.mp hy) hne

/-- A piece is quiet when nothing matches at its beginning and the rest of it
is quiet. -/
theorem quiet_cons {c : Char} {x : List Char} (hc : ∀ r, p (c :: (x ++ r)) = none)
    (hx : Quiet p x) : Quiet p (c :: x) := by
  intro y hne hy r
  rcases List.suffix_cons_iff.mp hy with rfl | hy
  · exact hc r
  · exact hx y hne hy r

/-- What is left of a quiet piece without its first character is quiet. The inductions over
quiet pieces use this. -/
theorem quiet_of_cons {c : Char} {x : List Char} (h : Quiet p (c :: x)) : Quiet p x :=
  fun y hne hy => h y hne (hy.trans (List.suffix_cons c x))

/-- Quiet pieces one after another are quiet: being quiet already speaks of any text behind
a piece. -/
theorem quiet_append {x z : List Char} (hx : Quiet p x) (hz : Quiet p z) : Quiet p (x ++ z) := by
  induction x with
  | nil => exact hz
  | cons c x ih =>
      refine quiet_cons ?_ (ih (quiet_of_cons hx))
      intro r
      have h := hx (c :: x) (by simp) (List.suffix_refl _) (z ++ r)
      rwa [List.cons_append, ← List.append_assoc] at h

/-- Holds when all texts that the recognizer likes begin in one of these ways. -/
def Leads (leads : List Char → Prop) (p : Recognizer α) : Prop :=
  ∀ cs m, p cs = some m → ∃ lead, leads lead ∧ lead <+: cs

/-- A recognizer finds nothing at the beginning of a text that begins with none of its
leads. -/
theorem Leads.eq_none {leads : List Char → Prop} (hp : Leads leads p) {cs : List Char}
    (h : ∀ lead, leads lead → ¬lead <+: cs) : p cs = none := by
  cases hm : p cs with
  | none => rfl
  | some m =>
      obtain ⟨lead, hl, hpre⟩ := hp cs m hm
      exact absurd hpre (h lead hl)

/-- Holds when two texts have the same characters as far as both go. -/
def agree : List Char → List Char → Bool
  | [], _ => true
  | _, [] => true
  | a :: x, b :: y => a == b && agree x y

/-- What begins a text agrees with every beginning of it, as far as both of them go. -/
theorem agree_of_append {lead y r : List Char} (h : lead <+: y ++ r) : agree lead y = true := by
  induction lead generalizing y with
  | nil => rfl
  | cons l lead ih =>
      cases y with
      | nil => rfl
      | cons c y =>
          rw [List.cons_append] at h
          obtain ⟨hlc, hrest⟩ := List.cons_prefix_cons.mp h
          simp [agree, hlc, ih hrest]

/-- Holds when the lead starts nowhere in the piece, whatever comes behind it. -/
def clearOf (lead : List Char) : List Char → Bool
  | [] => true
  | c :: x => !agree lead (c :: x) && clearOf lead x

/-- A fixed piece is quiet if the one lead of a recognizer can start nowhere in it. For
given pieces this is computed. -/
theorem quiet_of_clear {lead : List Char} (hp : Leads (· = lead) p) {x : List Char}
    (h : clearOf lead x = true) : Quiet p x := by
  induction x with
  | nil => exact quiet_nil
  | cons c x ih =>
      simp only [clearOf, Bool.and_eq_true, Bool.not_eq_true'] at h
      refine quiet_cons (fun r => hp.eq_none ?_) (ih h.2)
      rintro _ rfl hpre
      rw [← List.cons_append] at hpre
      rw [agree_of_append hpre] at h
      exact absurd h.1 (by decide)

/-- A lead that does not have the character `d` in it ends before `d`, so it lies in front
of it as a whole. -/
theorem prefix_of_prefix_append {lead y r : List Char} {d : Char} (h : lead <+: y ++ d :: r)
    (hd : d ∉ lead) : lead <+: y := by
  induction lead generalizing y with
  | nil => exact List.nil_prefix
  | cons l lead ih =>
      cases y with
      | nil =>
          obtain ⟨rfl, -⟩ := List.cons_prefix_cons.mp h
          exact absurd List.mem_cons_self hd
      | cons c y =>
          rw [List.cons_append] at h
          obtain ⟨hlc, hrest⟩ := List.cons_prefix_cons.mp h
          exact List.cons_prefix_cons.mpr ⟨hlc, ih hrest fun e => hd (List.mem_cons_of_mem l e)⟩

/-- A piece with a character at its end that no lead has, and in which each
lead misses one of its characters. -/
theorem quiet_of_stop {leads : List Char → Prop} (hp : Leads leads p) {x : List Char} {d : Char}
    (h : ∀ lead, leads lead → d ∉ lead ∧ ∃ c ∈ lead, c ∉ x) : Quiet p (x ++ [d]) := by
  intro y hne hy r
  obtain ⟨z, hz⟩ := hy
  -- `y` ends in `d` like the piece itself, so it is a suffix of `x` and then `d`
  obtain ⟨y', rfl⟩ : ∃ y', y = y' ++ [d] := by
    refine ⟨y.dropLast, ?_⟩
    have hlast : y.getLast hne = d := by
      have he : (z ++ y).getLast (by simp [hne]) = d := by simp [hz]
      rwa [List.getLast_append_of_ne_nil _ hne] at he
    rw [← hlast, List.dropLast_concat_getLast]
  have hx : z ++ y' = x := by
    rw [← List.append_assoc] at hz
    exact List.append_cancel_right hz
  refine hp.eq_none fun lead hl hpre => ?_
  obtain ⟨hd, c, hc, hcx⟩ := h lead hl
  rw [List.append_assoc, List.singleton_append] at hpre
  have hmem : c ∈ y' := (prefix_of_prefix_append hpre hd).subset hc
  exact hcx (hx ▸ List.mem_append_right z hmem)

/-- A piece is quiet if it does not have the character that every lead of the recognizer
begins with. -/
theorem quiet_of_notMem {leads : List Char → Prop} (hp : Leads leads p) {c : Char}
    (hc : ∀ lead, leads lead → lead.head? = some c) {x : List Char} (h : c ∉ x) : Quiet p x := by
  intro y hne hy r
  refine hp.eq_none fun lead hl hpre => ?_
  cases y with
  | nil => exact hne rfl
  | cons d y =>
      cases lead with
      | nil => exact absurd (hc [] hl) (by simp)
      | cons l lead =>
          obtain rfl : l = c := by simpa using hc _ hl
          rw [List.cons_append] at hpre
          obtain ⟨rfl, -⟩ := List.cons_prefix_cons.mp hpre
          exact h (hy.subset List.mem_cons_self)

/-! ### Searching -/

/-- The first match is the first of all matches: what holds of a search for all matches holds of
the search for the first. -/
theorem findFrom_eq_head? (i : Nat) (cs : List Char) :
    findFrom p i cs = (findAllFrom p i 0 cs).head? := by
  induction cs generalizing i with
  | nil => rfl
  | cons c r ih =>
      rw [findFrom, findAllFrom]
      cases p (c :: r) with
      | none => exact ih (i + 1)
      | some a => rfl

/-- A search goes past a quiet piece, and finds what it finds behind it at the places
there. -/
theorem findAllFrom_of_quiet {x : List Char} (h : Quiet p x) (i : Nat) (r : List Char) :
    findAllFrom p i 0 (x ++ r) = findAllFrom p (i + x.length) 0 r := by
  induction x generalizing i with
  | nil => rfl
  | cons c x ih =>
      have hc : p (c :: (x ++ r)) = none := h (c :: x) (by simp) (List.suffix_refl _) r
      have hi : i + 1 + x.length = i + (x.length + 1) := by omega
      rw [List.cons_append, findAllFrom, hc]
      show findAllFrom p (i + 1) 0 (x ++ r) = _
      rw [ih (quiet_of_cons h), hi, List.length_cons]

/-- So does the search for the first match, which is the first one that the other search
finds. -/
theorem findFrom_of_quiet {x : List Char} (h : Quiet p x) (i : Nat) (r : List Char) :
    findFrom p i (x ++ r) = findFrom p (i + x.length) r := by
  rw [findFrom_eq_head?, findFrom_eq_head?, findAllFrom_of_quiet h]

/-- A search in nothing but a quiet piece finds nothing, wherever the places are counted
from. -/
theorem findAllFrom_quiet {x : List Char} (h : Quiet p x) (i : Nat) :
    findAllFrom p i 0 x = [] := by
  have hall := findAllFrom_of_quiet h i []
  rwa [List.append_nil] at hall

/-- Neither does the search for the first match. -/
theorem findFrom_quiet {x : List Char} (h : Quiet p x) (i : Nat) : findFrom p i x = none := by
  rw [findFrom_eq_head?, findAllFrom_quiet h, List.head?_nil]

/-- A search finds nothing in a text where none of the recognizer's leads stands. -/
theorem findFrom_eq_none {leads : List Char → Prop} (hp : Leads leads p) {cs : List Char}
    (h : ∀ lead, leads lead → ¬lead <:+: cs) (i : Nat) : findFrom p i cs = none := by
  induction cs generalizing i with
  | nil => rfl
  | cons c cs ih =>
      have hc : p (c :: cs) = none := hp.eq_none fun lead hl hpre => h lead hl hpre.isInfix
      rw [findFrom, hc]
      exact ih (fun lead hl hin => h lead hl (List.infix_cons hin)) (i + 1)

/-- The characters of a match are skipped, so no other match begins in them. -/
theorem findAllFrom_skip (x : List Char) (i : Nat) (r : List Char) :
    findAllFrom p i x.length (x ++ r) = findAllFrom p (i + x.length) 0 r := by
  induction x generalizing i with
  | nil => rfl
  | cons c x ih =>
      have hi : i + 1 + x.length = i + (x.length + 1) := by omega
      rw [List.cons_append, List.length_cons, findAllFrom, ih, hi]

/-- A match at the beginning comes first, and the others are those of the search behind
it. -/
theorem findAllFrom_of_match {used rest : List Char} {a : α}
    (h : p (used ++ rest) = some (a, rest))
    (hne : used ≠ []) (i : Nat) :
    findAllFrom p i 0 (used ++ rest)
      = ⟨i, i + used.length, a, rest⟩ :: findAllFrom p (i + used.length) 0 rest := by
  cases used with
  | nil => exact absurd rfl hne
  | cons c x =>
      have hwidth : (c :: (x ++ rest)).length - rest.length = x.length + 1 := by
        simp only [List.length_cons, List.length_append]
        omega
      have hi : i + 1 + x.length = i + (x.length + 1) := by omega
      rw [List.cons_append] at h ⊢
      rw [findAllFrom, h]
      show (⟨i, i + ((c :: (x ++ rest)).length - rest.length), a, rest⟩ : Match α)
        :: findAllFrom p (i + 1) ((c :: (x ++ rest)).length - rest.length - 1) (x ++ rest) = _
      rw [hwidth, Nat.add_sub_cancel, findAllFrom_skip, hi, List.length_cons]

/-- A match at the beginning is the first match, whatever comes behind it. -/
theorem findFrom_of_match {used rest : List Char} {a : α} (h : p (used ++ rest) = some (a, rest))
    (hne : used ≠ []) (i : Nat) :
    findFrom p i (used ++ rest) = some ⟨i, i + used.length, a, rest⟩ := by
  rw [findFrom_eq_head?, findAllFrom_of_match h hne, List.head?_cons]

/-- What the first match is worth is what the recognizer makes of the beginning, when it
finds something there. -/
theorem map_value_findFrom {cs rest : List Char} {a : α} (h : p cs = some (a, rest))
    (hne : cs ≠ []) (i : Nat) :
    (findFrom p i cs).map Match.value = some a := by
  cases cs with
  | nil => exact absurd rfl hne
  | cons c r =>
      rw [findFrom, h]
      rfl

/-- The match some characters further on. -/
def Match.moved (k : Nat) (m : Match α) : Match α :=
  { m with start := m.start + k, stop := m.stop + k }

/-- A search whose places are counted from further on finds the same matches further on. -/
theorem findAllFrom_add (i k skip : Nat) (cs : List Char) :
    findAllFrom p (i + k) skip cs = (findAllFrom p i skip cs).map (Match.moved k) := by
  induction cs generalizing i skip with
  | nil => rfl
  | cons c r ih =>
      have hi : i + k + 1 = i + 1 + k := by omega
      cases skip with
      | succ skip => simp only [findAllFrom, hi, ih]
      | zero =>
          simp only [findAllFrom, hi]
          cases p (c :: r) with
          | none => exact ih (i + 1) 0
          | some m =>
              have hw : i + k + ((c :: r).length - m.2.length)
                  = i + ((c :: r).length - m.2.length) + k := by omega
              simp only [hw, ih, List.map_cons, Match.moved]

/-- So does the search for the first match. -/
theorem findFrom_add (i k : Nat) (cs : List Char) :
    findFrom p (i + k) cs = (findFrom p i cs).map (Match.moved k) := by
  rw [findFrom_eq_head?, findFrom_eq_head?, findAllFrom_add, List.head?_map]

/-- The first match is one of the recognizer: somewhere, it recognizes the value and leaves
the rest. -/
theorem exists_of_findFrom_eq_some {m : Match α} {i : Nat} {cs : List Char}
    (h : findFrom p i cs = some m) : ∃ r, p r = some (m.value, m.rest) := by
  induction cs generalizing i with
  | nil => cases h
  | cons c cs ih =>
      rw [findFrom] at h
      cases hm : p (c :: cs) with
      | none => exact ih (by simpa [hm] using h)
      | some a =>
          rw [hm] at h
          obtain rfl := Option.some.inj h
          exact ⟨c :: cs, hm⟩

/-- The first match is among all matches, so what is known of these is known of it. -/
theorem mem_findAllFrom_of_findFrom {m : Match α} {i : Nat} {cs : List Char}
    (h : findFrom p i cs = some m) : m ∈ findAllFrom p i 0 cs := by
  rw [findFrom_eq_head?] at h
  exact List.mem_of_mem_head? h

/-! ### Firm pieces -/

/-- Holds when what the recognizer finds in the piece does not depend on what
comes behind it. -/
def Firm (p : Recognizer α) (x : List Char) : Prop :=
  ∀ y, y ≠ [] → y <:+ x → ∀ r, p (y ++ r) = (p y).map fun m => (m.1, m.2 ++ r)

/-- What is left of a firm piece without its first character is firm, since the definition
speaks of all its ends. -/
theorem firm_of_cons {c : Char} {x : List Char} (h : Firm p (c :: x)) : Firm p x :=
  fun y hne hy => h y hne (hy.trans (List.suffix_cons c x))

/-- The match with more text behind it. -/
def Match.extended (r : List Char) (m : Match α) : Match α :=
  { m with rest := m.rest ++ r }

/-- In a text with a firm piece in front, the matches are those in the piece, with more text
behind them, and then those behind it. -/
theorem findAllFrom_of_firm {x : List Char} (h : Firm p x) (i skip : Nat)
    (hskip : skip ≤ x.length)
    (r : List Char) :
    findAllFrom p i skip (x ++ r)
      = (findAllFrom p i skip x).map (Match.extended r) ++ findAllFrom p (i + x.length) 0 r := by
  -- along the piece; what is still to be skipped of a match never reaches behind it
  induction x generalizing i skip with
  | nil =>
      obtain rfl : skip = 0 := Nat.le_zero.mp hskip
      rfl
  | cons c x ih =>
      have hi : i + 1 + x.length = i + (x.length + 1) := by omega
      rw [List.length_cons] at hskip ⊢
      cases skip with
      | succ skip =>
          rw [List.cons_append, findAllFrom, findAllFrom, ih (firm_of_cons h) _ _ (by omega), hi]
      | zero =>
          have hfirm := h (c :: x) (by simp) (List.suffix_refl _) r
          rw [List.cons_append] at hfirm ⊢
          rw [findAllFrom, findAllFrom, hfirm]
          cases hm : p (c :: x) with
          | none =>
              show findAllFrom p (i + 1) 0 (x ++ r) = _
              rw [ih (firm_of_cons h) _ _ (Nat.zero_le _), hi]
          | some m =>
              have hwidth : (c :: (x ++ r)).length - (m.2 ++ r).length
                  = (c :: x).length - m.2.length := by
                simp only [List.length_cons, List.length_append]
                omega
              have hle : (c :: x).length - m.2.length - 1 ≤ x.length := by
                simp only [List.length_cons]
                omega
              simp only [Option.map_some, hwidth, ih (firm_of_cons h) _ _ hle, hi, List.map_cons,
                Match.extended, List.cons_append]

/-- The first match is the first one in the firm piece or, if there is none, the first one
behind it. -/
theorem findFrom_of_firm {x : List Char} (h : Firm p x) (i : Nat) (r : List Char) :
    findFrom p i (x ++ r)
      = ((findFrom p i x).map (Match.extended r)).or (findFrom p (i + x.length) r) := by
  simp only [findFrom_eq_head?, findAllFrom_of_firm h i 0 (Nat.zero_le _), List.head?_append,
    List.head?_map]

/-! ### Matches as pieces of the text -/

/-- Holds when the recognizer takes something off the beginning of a text, or
fails. -/
def Consumes (p : Recognizer α) : Prop :=
  ∀ cs a rest, p cs = some (a, rest) → ∃ used, used ≠ [] ∧ cs = used ++ rest

/-- A match is a piece of the text that is not empty. It starts where that piece does and
stops where it ends. -/
theorem exists_of_mem_findAllFrom (hp : Consumes p) {m : Match α} {i skip : Nat} {cs : List Char}
    (h : m ∈ findAllFrom p i skip cs) :
    ∃ x used, cs = x ++ (used ++ m.rest) ∧ m.start = i + x.length
      ∧ m.stop = m.start + used.length ∧ used ≠ [] ∧ skip ≤ x.length
      ∧ p (used ++ m.rest) = some (m.value, m.rest) := by
  induction cs generalizing i skip with
  | nil => simp [findAllFrom] at h
  | cons c cs ih =>
      -- a match in the rest has one more character in front of it
      have hlater : ∀ k, m ∈ findAllFrom p (i + 1) k cs → skip ≤ k + 1 →
          ∃ x used, c :: cs = x ++ (used ++ m.rest) ∧ m.start = i + x.length
            ∧ m.stop = m.start + used.length ∧ used ≠ [] ∧ skip ≤ x.length
            ∧ p (used ++ m.rest) = some (m.value, m.rest) := by
        intro k hk hle
        obtain ⟨x, used, rfl, hstart, hstop, hne, hskip, hm⟩ := ih hk
        exact ⟨c :: x, used, rfl, by simp only [List.length_cons]; omega, hstop, hne,
          by simp only [List.length_cons]; omega, hm⟩
      cases skip with
      | succ skip => exact hlater skip h (Nat.le_refl _)
      | zero =>
          rw [findAllFrom] at h
          cases hm : p (c :: cs) with
          | none => exact hlater 0 (by simpa [hm] using h) (Nat.zero_le _)
          | some a =>
              rw [hm] at h
              rcases List.mem_cons.mp h with rfl | h
              · obtain ⟨used, hne, hused⟩ := hp _ _ _ hm
                refine ⟨[], used, by simpa using hused, rfl, ?_, hne, Nat.le_refl 0, ?_⟩
                · simp only [hused, List.length_append]
                  omega
                · rw [← hused, hm]
              · exact hlater _ h (Nat.zero_le _)

/-- So it lies in what is searched, behind what is skipped, and it is not empty. -/
theorem bounds_of_mem_findAllFrom (hp : Consumes p) {m : Match α} {i skip : Nat} {cs : List Char}
    (h : m ∈ findAllFrom p i skip cs) :
    i + skip ≤ m.start ∧ m.start < m.stop ∧ m.stop + m.rest.length = i + cs.length := by
  obtain ⟨x, used, rfl, hstart, hstop, hne, hskip, -⟩ := exists_of_mem_findAllFrom hp h
  have hpos := List.length_pos_iff.mpr hne
  simp only [List.length_append]
  omega

/-- The first match starts and stops within the text, and starts before it stops. -/
theorem bounds_of_findFrom (hp : Consumes p) {m : Match α} {i : Nat} {cs : List Char}
    (h : findFrom p i cs = some m) :
    i ≤ m.start ∧ m.start < m.stop ∧ m.stop + m.rest.length = i + cs.length :=
  bounds_of_mem_findAllFrom hp (mem_findAllFrom_of_findFrom h)

/-- Matches stand one behind the other: each of them stops before the next ones start. -/
theorem pairwise_findAllFrom (hp : Consumes p) (i skip : Nat) (cs : List Char) :
    (findAllFrom p i skip cs).Pairwise fun a b => a.stop ≤ b.start := by
  induction cs generalizing i skip with
  | nil => exact .nil
  | cons c r ih =>
      cases skip with
      | succ skip =>
          rw [findAllFrom]
          exact ih (i + 1) skip
      | zero =>
          rw [findAllFrom]
          cases hm : p (c :: r) with
          | none => exact ih (i + 1) 0
          | some a =>
              obtain ⟨used, hne, hused⟩ := hp _ _ _ hm
              have hpos := List.length_pos_iff.mpr hne
              have hlength := congrArg List.length hused
              rw [List.length_append] at hlength
              refine .cons (fun b hb => ?_) (ih (i + 1) _)
              -- the search goes on behind the characters of the match
              obtain ⟨hskip, -, -⟩ := bounds_of_mem_findAllFrom hp hb
              show i + ((c :: r).length - a.2.length) ≤ b.start
              omega

/-- A search goes past a piece if the first match does not start in it. -/
theorem findAllFrom_of_start_le (x : List Char) (i : Nat) (r : List Char)
    (h : ∀ m ∈ findFrom p i (x ++ r), i + x.length ≤ m.start) :
    findAllFrom p i 0 (x ++ r) = findAllFrom p (i + x.length) 0 r := by
  induction x generalizing i with
  | nil => rfl
  | cons c x ih =>
      have hi : i + 1 + x.length = i + (x.length + 1) := by omega
      rw [List.cons_append, findFrom] at h
      rw [List.cons_append, findAllFrom]
      cases hm : p (c :: (x ++ r)) with
      | some a =>
          rw [hm] at h
          have hle : i + (x.length + 1) ≤ i := h _ rfl
          omega
      | none =>
          rw [hm] at h
          show findAllFrom p (i + 1) 0 (x ++ r) = _
          rw [ih, hi, List.length_cons]
          intro m hmem
          have hle : i + (x.length + 1) ≤ m.start := h m hmem
          omega

/-- If the first match does not start in a piece, the search goes past that piece, even if
the piece is not quiet. -/
theorem findFrom_of_start_le (x : List Char) (i : Nat) (r : List Char)
    (h : ∀ m ∈ findFrom p i (x ++ r), i + x.length ≤ m.start) :
    findFrom p i (x ++ r) = findFrom p (i + x.length) r := by
  rw [findFrom_eq_head?, findFrom_eq_head?, findAllFrom_of_start_le x i r h]

end Quiet

end SchemaAtlas.Scan
