import SchemaAtlas.Scan.Balance
import SchemaAtlas.Scan.Mask

/-!
# `SchemaAtlas.Proofs.Scan.Segment`: scanning past a piece of text

The scanners of `SchemaAtlas.Scan` go through a text once, from left to
right. Cut the text in two, `x ++ r`, and what a scanner finds is told by
what it finds in `x`, and by what it finds in `r` when it begins there in
the state that `x` led to. This module states that for each of them:

* `Quotes.over` is the state of the quotes after a piece of text.
* `closeFrom_append` cuts the search for a closing brace. The depth that
  the second half begins with is `netBraces` of the first.
* `closeFrom_eq_some_iff` is the declarative reading of a closing brace:
  nothing closes before it, it stands outside of strings, and up to it as
  many braces open as close.
* `closeFrom_eq_none_of_le` says that a piece which does not close one
  open brace does not close any of more open braces.
* `Quotes.upTo_append` cuts the search for the semicolon that ends a statement.
* `maskFrom_eq_zipWith` says what masking shows of each character, by the region it is
  read in. `maskFrom_take_append` cuts the masking of comments before any
  character that is read as code, and `over_maskFrom_take` says that the
  masked text leaves the quotes in the state that the masking itself was in.
-/

set_option autoImplicit false

namespace SchemaAtlas.Scan

/-! ### Characters of a literal -/

section Literal

variable {p : List Char → Prop} {s s' t : String} {cs cs' : List Char}

/-- What holds of some characters holds of those of the text that they make. To decide
it of the text itself would take a search for its characters, again and again. -/
theorem of_ofList (hs : s = String.ofList cs) (h : p cs) : p s.toList := by
  rw [hs, String.toList_ofList]
  exact h

/-- The same for a text in two parts, each of which is given by its characters. -/
theorem of_ofList_append (ht : t = s ++ s') (hs : s = String.ofList cs)
    (hs' : s' = String.ofList cs')
    (h : p (cs ++ cs')) : p t.toList := by
  rw [ht, String.toList_append, hs, hs', String.toList_ofList, String.toList_ofList]
  exact h

end Literal

/-! ### Quotes -/

/-- Where the reader stands after a piece of text. -/
def Quotes.over (q : Quotes) (cs : List Char) : Quotes :=
  cs.foldl Quotes.step q

/-- An empty piece leaves the state of the quotes as it is. -/
@[simp] theorem Quotes.over_nil (q : Quotes) : q.over [] = q := rfl

/-- Going over a piece begins with a step over its first character. -/
@[simp] theorem Quotes.over_cons (q : Quotes) (c : Char) (r : List Char) :
    q.over (c :: r) = (q.step c).over r := rfl

/-- Going over two pieces is going over one after the other. Most statements here follow a
text piece by piece. -/
@[simp] theorem Quotes.over_append (q : Quotes) (x r : List Char) :
    q.over (x ++ r) = (q.over x).over r :=
  List.foldl_append

/-- Outside of strings only a quote changes anything, so a piece without quotes ends outside
of strings. -/
theorem Quotes.over_outside_of_noQuote (x : List Char) (h : ∀ c ∈ x, isQuote c = false) :
    Quotes.outside.over x = .outside := by
  induction x with
  | nil => rfl
  | cons c r ih =>
      have hc : Quotes.outside.step c = .outside := by
        simp [Quotes.step, h c (by simp)]
      rw [Quotes.over_cons, hc]
      exact ih fun d hd => h d (List.mem_cons_of_mem c hd)

/-- A string goes on until its quote or a backslash comes; quotes of the other kind do not
end it. -/
theorem Quotes.over_inside_of_plain (q : Char) (x : List Char) (hq : q ∉ x) (hb : '\\' ∉ x) :
    (Quotes.inside q).over x = .inside q := by
  induction x with
  | nil => rfl
  | cons c r ih =>
      have hcq : c ≠ q := fun e => hq (e ▸ List.mem_cons_self)
      have hcb : c ≠ '\\' := fun e => hb (e ▸ List.mem_cons_self)
      have hc : (Quotes.inside q).step c = .inside q := by
        simp [Quotes.step, hcq, hcb]
      rw [Quotes.over_cons, hc]
      exact ih (fun h => hq (List.mem_cons_of_mem c h)) (fun h => hb (List.mem_cons_of_mem c h))

/-! ### Matching braces -/

/-- How a character that is read in some state changes the number of open
braces. -/
def Quotes.weight (q : Quotes) (c : Char) : Int :=
  if q = .outside then braceWeight c else 0

/-- How a piece of text changes the number of open braces, when it is read
from the given state. -/
def netBraces (q : Quotes) : List Char → Int
  | [] => 0
  | c :: r => q.weight c + netBraces (q.step c) r

/-- Holds when a character that is read in some state, at some depth, closes
the block. -/
def closes (q : Quotes) (d : Int) (c : Char) : Prop :=
  q = .outside ∧ c = '}' ∧ d = 1

instance (q : Quotes) (d : Int) (c : Char) : Decidable (closes q d c) :=
  inferInstanceAs (Decidable (_ ∧ _ ∧ _))

/-- One step of the search for a closing brace: the character closes the block, or the
search goes on with the state and the depth behind it. -/
theorem closeFrom_cons (q : Quotes) (d : Int) (i : Nat) (c : Char) (r : List Char) :
    closeFrom q d i (c :: r)
      = if closes q d c then some i else closeFrom (q.step c) (d + q.weight c) (i + 1) r := by
  by_cases hq : q = .outside
  · subst hq
    by_cases hc : c = '}'
    · subst hc
      have hw : braceWeight '}' = -1 := by decide
      have hd : d + -1 = 0 ↔ d = 1 := by omega
      simp only [closeFrom, closes, Quotes.weight, if_pos, hw, true_and, hd]
    · simp only [closeFrom, closes, Quotes.weight, if_pos, hc, false_and, and_false, if_false]
  · simp only [closeFrom, closes, Quotes.weight, hq, false_and, if_false, Int.add_zero]

/-- The depth falls by one at most, and so not below one unless the block
closes. -/
theorem one_le_add_weight {q : Quotes} {d : Int} {c : Char} (h : ¬closes q d c) (hd : 1 ≤ d) :
    1 ≤ d + q.weight c := by
  unfold closes at h
  unfold Quotes.weight braceWeight
  split
  · split
    · omega
    · split
      · rename_i hq _ hc
        have hne : d ≠ 1 := fun e => h ⟨hq, hc, e⟩
        omega
      · omega
  · omega

/-- The closing brace of `x ++ r` is the one of `x` if it has one, and is
looked for in `r` from the state and depth that `x` leads to otherwise. -/
theorem closeFrom_append (q : Quotes) (d : Int) (i : Nat) (x r : List Char) :
    closeFrom q d i (x ++ r)
      = (closeFrom q d i x).or
          (closeFrom (q.over x) (d + netBraces q x) (i + x.length) r) := by
  induction x generalizing q d i with
  | nil => simp [closeFrom, netBraces]
  | cons c x ih =>
      have hi : i + (x.length + 1) = i + 1 + x.length := by omega
      rw [List.cons_append, closeFrom_cons, closeFrom_cons]
      split
      · rfl
      · rw [ih, netBraces, Quotes.over_cons, List.length_cons, hi, Int.add_assoc]

/-- A later beginning moves the closing brace along by as much, since places are only
counted. -/
theorem closeFrom_add (q : Quotes) (d : Int) (i k : Nat) (cs : List Char) :
    closeFrom q d (i + k) cs = (closeFrom q d i cs).map (· + k) := by
  induction cs generalizing q d i with
  | nil => rfl
  | cons c r ih =>
      have hi : i + k + 1 = i + 1 + k := by omega
      rw [closeFrom_cons, closeFrom_cons]
      split
      · rfl
      · rw [hi, ih]

/-- A piece that does not close one of `k ≥ 1` open braces closes none of
more open braces: the depth inside it never falls to zero. -/
theorem closeFrom_eq_none_of_le {q : Quotes} {k d : Int} {i : Nat} {x : List Char}
    (h : closeFrom q k i x = none) (hk : 1 ≤ k) (hd : k ≤ d) (j : Nat) :
    closeFrom q d j x = none := by
  induction x generalizing q k d i j with
  | nil => rfl
  | cons c r ih =>
      rw [closeFrom_cons] at h ⊢
      split at h
      · cases h
      · rename_i hc
        have hc' : ¬closes q d c := fun e => hc ⟨e.1, e.2.1, by have := e.2.2; omega⟩
        rw [if_neg hc']
        exact ih h (one_le_add_weight hc hk) (by omega) (j + 1)

/-- A piece that closes nothing does not bring the depth down to zero, so at least one brace
is still open behind it. -/
theorem one_le_add_netBraces {q : Quotes} {k : Int} {i : Nat} {x : List Char}
    (h : closeFrom q k i x = none) (hk : 1 ≤ k) : 1 ≤ k + netBraces q x := by
  induction x generalizing q k i with
  | nil => simpa [netBraces] using hk
  | cons c r ih =>
      rw [closeFrom_cons] at h
      split at h
      · cases h
      · rename_i hc
        have hr := ih h (one_le_add_weight hc hk)
        rw [netBraces]
        omega

/-- The closing brace is the first at which, outside of strings, the number
of open braces comes back to zero. -/
theorem closeFrom_eq_some_iff (q : Quotes) (d : Int) (i j : Nat) (cs : List Char) :
    closeFrom q d i cs = some j ↔
      ∃ x r, cs = x ++ '}' :: r ∧ j = i + x.length ∧ closeFrom q d i x = none
        ∧ q.over x = .outside ∧ d + netBraces q x = 1 := by
  constructor
  · intro h
    induction cs generalizing q d i with
    | nil => cases h
    | cons c cs ih =>
        rw [closeFrom_cons] at h
        split at h
        · rename_i hc
          obtain ⟨rfl, rfl, rfl⟩ := hc
          exact ⟨[], cs, rfl, (Option.some.inj h).symm, rfl, rfl, by simp [netBraces]⟩
        · rename_i hc
          obtain ⟨x, r, rfl, rfl, hnone, hover, hnet⟩ := ih _ _ _ h
          refine ⟨c :: x, r, rfl, by simp only [List.length_cons]; omega, ?_, hover, ?_⟩
          · rw [closeFrom_cons, if_neg hc]
            exact hnone
          · rw [netBraces]
            omega
  · rintro ⟨x, r, rfl, rfl, hnone, hover, hnet⟩
    rw [closeFrom_append, hnone, hover, hnet, Option.none_or, closeFrom_cons,
      if_pos ⟨rfl, rfl, rfl⟩]

/-- The closing brace stands in the text, not before the place from which it is looked
for. -/
theorem bounds_of_closeFrom {q : Quotes} {d : Int} {i k : Nat} {cs : List Char}
    (h : closeFrom q d i cs = some k) : i ≤ k ∧ k < i + cs.length := by
  obtain ⟨x, r, rfl, rfl, -⟩ := (closeFrom_eq_some_iff q d i k cs).mp h
  rw [List.length_append, List.length_cons]
  omega

/-- No other character than a brace counts, neither in strings nor outside of them. -/
theorem weight_of_noBrace (q : Quotes) {c : Char} (ho : c ≠ '{') (hc : c ≠ '}') :
    q.weight c = 0 := by
  simp [Quotes.weight, braceWeight, ho, hc]

/-- Behind a piece without braces as many are open as before it. -/
theorem netBraces_of_noBrace (q : Quotes) (x : List Char) (ho : '{' ∉ x) (hc : '}' ∉ x) :
    netBraces q x = 0 := by
  induction x generalizing q with
  | nil => rfl
  | cons c x ih =>
      have hw : q.weight c = 0 :=
        weight_of_noBrace q (fun e => ho (e ▸ List.mem_cons_self))
          (fun e => hc (e ▸ List.mem_cons_self))
      rw [netBraces, hw, ih _ (fun h => ho (List.mem_cons_of_mem c h))
        (fun h => hc (List.mem_cons_of_mem c h)), Int.add_zero]

/-- A piece without braces closes nothing, so the search goes on behind it at the same
depth. -/
theorem closeFrom_append_of_noBrace (q : Quotes) (d : Int) (i : Nat) (x r : List Char)
    (ho : '{' ∉ x) (hc : '}' ∉ x) :
    closeFrom q d i (x ++ r) = closeFrom (q.over x) d (i + x.length) r := by
  have hnone : closeFrom q d i x = none := by
    refine Option.eq_none_iff_forall_ne_some.mpr fun k hk => ?_
    obtain ⟨y, z, rfl, -⟩ := (closeFrom_eq_some_iff q d i k x).mp hk
    exact hc (by simp)
  rw [closeFrom_append, hnone, netBraces_of_noBrace q x ho hc, Option.none_or, Int.add_zero]

/-! ### Ends of statements -/

/-- The first semicolon behind a piece that has none, when the piece leaves
no string open. -/
theorem semicolonFrom_append (q : Quotes) (i : Nat) (x r : List Char) (h : ';' ∉ x)
    (ho : q.over x = .outside) :
    semicolonFrom q i (x ++ ';' :: r) = some (i + x.length) := by
  induction x generalizing q i with
  | nil =>
      rw [Quotes.over_nil] at ho
      simp [semicolonFrom, ho]
  | cons c x ih =>
      have hc : c ≠ ';' := fun e => h (e ▸ List.mem_cons_self)
      have hrec := ih (q.step c) (i + 1) (fun e => h (List.mem_cons_of_mem c e)) ho
      have hi : i + 1 + x.length = i + (x.length + 1) := by omega
      simp only [List.cons_append, semicolonFrom, hc, and_false, if_false, hrec, hi,
        List.length_cons]

/-- A later beginning moves the semicolon along by as much, as it does a closing brace. -/
theorem semicolonFrom_add (q : Quotes) (i k : Nat) (cs : List Char) :
    semicolonFrom q (i + k) cs = (semicolonFrom q i cs).map (· + k) := by
  induction cs generalizing q i with
  | nil => rfl
  | cons c r ih =>
      have hi : i + k + 1 = i + 1 + k := by omega
      rw [semicolonFrom, semicolonFrom]
      split
      · rfl
      · rw [hi, ih]

/-- The text up to its first semicolon, or all of it, when it is read from the given
state. -/
def Quotes.upTo (q : Quotes) (cs : List Char) : List Char :=
  cs.take ((semicolonFrom q 0 cs).getD cs.length)

/-- A statement ends at a semicolon outside of strings, and otherwise goes on with its first
character. -/
theorem Quotes.upTo_cons (q : Quotes) (c : Char) (r : List Char) :
    q.upTo (c :: r) = if q = .outside ∧ c = ';' then [] else c :: (q.step c).upTo r := by
  rw [Quotes.upTo, semicolonFrom]
  split
  · rfl
  · rw [semicolonFrom_add, Quotes.upTo]
    cases semicolonFrom (q.step c) 0 r with
    | none => rfl
    | some k => rfl

/-- The first semicolon stands in a piece of the text, whatever comes behind it, or is
looked for behind it. -/
theorem Quotes.upTo_append (q : Quotes) (x : List Char) :
    (∀ r, q.upTo (x ++ r) = q.upTo x) ∨ ∀ r, q.upTo (x ++ r) = x ++ (q.over x).upTo r := by
  induction x generalizing q with
  | nil => exact .inr fun r => rfl
  | cons c x ih =>
      by_cases hc : q = .outside ∧ c = ';'
      · refine .inl fun r => ?_
        rw [List.cons_append, Quotes.upTo_cons, Quotes.upTo_cons, if_pos hc, if_pos hc]
      · have hcons : ∀ r, q.upTo (c :: r) = c :: (q.step c).upTo r := fun r => by
          rw [Quotes.upTo_cons, if_neg hc]
        rcases ih (q.step c) with hx | hx
        · refine .inl fun r => ?_
          rw [List.cons_append, hcons, hcons, hx]
        · refine .inr fun r => ?_
          rw [List.cons_append, hcons, hx, Quotes.over_cons, List.cons_append]

/-- A piece without semicolons belongs to the statement as a whole; the end is looked for
behind it. -/
theorem Quotes.upTo_append_of_notMem (q : Quotes) {x : List Char} (h : ';' ∉ x) (r : List Char) :
    q.upTo (x ++ r) = x ++ (q.over x).upTo r := by
  induction x generalizing q with
  | nil => rfl
  | cons c x ih =>
      have hc : ¬(q = .outside ∧ c = ';') := fun e => h (e.2 ▸ List.mem_cons_self)
      rw [List.cons_append, Quotes.upTo_cons, if_neg hc,
        ih _ fun e => h (List.mem_cons_of_mem c e)]
      rfl

/-! ### Masking -/

deriving instance DecidableEq for Region

/-- The state of the quotes in a region: comments stand outside of strings. -/
def Region.quotes : Region → Quotes
  | .code q => q
  | .lineComment => .outside
  | .blockComment => .outside

/-- The region that each character of a text is read in. What opens or closes
a comment belongs to it, also the line break that closes a line comment. -/
def regionsFrom : Region → List Char → List Region
  | _, [] => []
  | .code .outside, '/' :: '/' :: r => .lineComment :: .lineComment :: regionsFrom .lineComment r
  | .code .outside, '/' :: '*' :: r =>
      .blockComment :: .blockComment :: regionsFrom .blockComment r
  | .code q, c :: r => .code q :: regionsFrom (.code (q.step c)) r
  | .lineComment, c :: r =>
    .lineComment
      :: (if c = '\n' then regionsFrom (.code .outside) r else regionsFrom .lineComment r)
  | .blockComment, '*' :: '/' :: r =>
    .blockComment :: .blockComment :: regionsFrom (.code .outside) r
  | .blockComment, _ :: r => .blockComment :: regionsFrom .blockComment r

/-- The regions of the characters of a whole text. -/
def regions (cs : List Char) : List Region :=
  regionsFrom (.code .outside) cs

/-- Code that begins with no slash keeps its first character, since both kinds of comments
begin with one. -/
theorem maskFrom_code_cons (q : Quotes) {x : Char} (hx : x ≠ '/') (t : List Char) :
    maskFrom (.code q) (x :: t) = x :: maskFrom (.code (q.step x)) t := by
  rw [maskFrom.eq_4]
  · intro _ _ e _
    exact hx e
  · intro _ _ e _
    exact hx e

/-- Code without a slash stays as it is, and the masking goes on behind it in the state of
the quotes there. -/
theorem maskFrom_append_of_noSlash (q : Quotes) (x r : List Char) (h : '/' ∉ x) :
    maskFrom (.code q) (x ++ r) = x ++ maskFrom (.code (q.over x)) r := by
  induction x generalizing q with
  | nil => rfl
  | cons c x ih =>
      have hc : c ≠ '/' := fun e => h (e ▸ List.mem_cons_self)
      rw [List.cons_append, maskFrom_code_cons q hc,
        ih (q.step c) fun e => h (List.mem_cons_of_mem c e), Quotes.over_cons, List.cons_append]

/-- If a beginning of a text begins with a character, then so does the text. It tells
comments in a cut text from those in the whole. -/
private theorem eq_cons_of_take_eq_cons {r r' : List Char} {i : Nat} {c : Char}
    (h : r.take i = c :: r') : r = c :: (r' ++ r.drop i) := by
  calc r = r.take i ++ r.drop i := (List.take_append_drop i r).symm
    _ = c :: (r' ++ r.drop i) := by rw [h, List.cons_append]

/-- A text that goes on differently from some place still begins alike, if
what follows there does not begin with `c`. -/
private theorem eq_cons_of_take_append_eq_cons {r r' t : List Char} {i : Nat} {c : Char}
    (h : r.take i ++ t = c :: r') (ht : t.head? ≠ some c) : ∃ r'', r = c :: r'' := by
  cases hr : r.take i with
  | nil =>
      rw [hr, List.nil_append] at h
      exact absurd (by rw [h]; rfl) ht
  | cons d u =>
      rw [hr, List.cons_append] at h
      obtain ⟨rfl, -⟩ := List.cons.inj h
      exact ⟨_, eq_cons_of_take_eq_cons hr⟩

section Cut

variable {c : Char} {r : List Char} (i : Nat)

/-- Code that opens no comment opens none either when it is cut and goes on with
something that could not open one with it. -/
private theorem maskFrom_code_take_append {p : Quotes}
    (h1 : ∀ r', p = .outside → c = '/' → r = '/' :: r' → False)
    (h2 : ∀ r', p = .outside → c = '/' → r = '*' :: r' → False) {t : List Char}
    (hslash : t.head? ≠ some '/') (hstar : t.head? ≠ some '*') :
    maskFrom (.code p) (c :: (r.take i ++ t))
      = c :: maskFrom (.code (p.step c)) (r.take i ++ t) := by
  rw [maskFrom.eq_4]
  · intro r' hp hc e
    obtain ⟨r'', hr⟩ := eq_cons_of_take_append_eq_cons e hslash
    exact h1 _ hp hc hr
  · intro r' hp hc e
    obtain ⟨r'', hr⟩ := eq_cons_of_take_append_eq_cons e hstar
    exact h2 _ hp hc hr

/-- So it is when the text is cut and ends there: cutting does not make a comment begin. -/
private theorem maskFrom_code_take {p : Quotes}
    (h1 : ∀ r', p = .outside → c = '/' → r = '/' :: r' → False)
    (h2 : ∀ r', p = .outside → c = '/' → r = '*' :: r' → False) :
    maskFrom (.code p) (c :: r.take i) = c :: maskFrom (.code (p.step c)) (r.take i) := by
  simpa using maskFrom_code_take_append (t := []) i h1 h2 (by simp) (by simp)

/-- What closes no comment closes none either when it is cut and goes on with no slash. -/
private theorem maskFrom_blockComment_take_append (hc : ∀ r', c = '*' → r = '/' :: r' → False)
    {t : List Char} (hslash : t.head? ≠ some '/') :
    maskFrom .blockComment (c :: (r.take i ++ t))
      = (if c = '\n' then '\n' else ' ') :: maskFrom .blockComment (r.take i ++ t) := by
  rw [maskFrom.eq_7]
  intro r' h1 e
  obtain ⟨r'', hr⟩ := eq_cons_of_take_append_eq_cons e hslash
  exact hc _ h1 hr

/-- So it is when the text is cut and ends there: cutting does not make a comment end. -/
private theorem maskFrom_blockComment_take (hc : ∀ r', c = '*' → r = '/' :: r' → False) :
    maskFrom .blockComment (c :: r.take i)
      = (if c = '\n' then '\n' else ' ') :: maskFrom .blockComment (r.take i) := by
  simpa using maskFrom_blockComment_take_append (t := []) i hc (by simp)

end Cut

/-- Masking can be cut before any character that is read as code, whatever
comes from there on, unless it could take part in the opening of a comment. -/
theorem maskFrom_take_append (region : Region) (cs : List Char) (i : Nat) (q : Quotes)
    (h : (regionsFrom region cs)[i]? = some (.code q)) (t : List Char)
    (hslash : t.head? ≠ some '/') (hstar : t.head? ≠ some '*') :
    maskFrom region (cs.take i ++ t) = maskFrom region (cs.take i) ++ maskFrom (.code q) t := by
  fun_induction regionsFrom region cs generalizing i with
  | case1 => simp at h
  | case2 r ih | case3 r ih | case6 r ih =>
      -- neither character of the opening or closing is code, so the cut lies behind both
      obtain _ | _ | i := i
      · simp at h
      · simp at h
      · simp only [maskFrom, List.take_succ_cons, List.cons_append, ih i (by simpa using h)]
  | case4 p c r h1 h2 ih =>
      cases i with
      | zero =>
          simp only [List.getElem?_cons_zero, Option.some.injEq, Region.code.injEq] at h
          subst h
          rfl
      | succ i =>
          rw [List.take_succ_cons, List.cons_append,
            maskFrom_code_take_append i h1 h2 hslash hstar, maskFrom_code_take i h1 h2,
            ih i (by simpa using h), List.cons_append]
  | case5 c r ih1 ih2 =>
      cases i with
      | zero => simp at h
      | succ i =>
          by_cases hc : c = '\n'
          · simp only [maskFrom, if_pos hc, List.take_succ_cons, List.cons_append,
              ih1 i (by simpa [hc] using h)]
          · simp only [maskFrom, if_neg hc, List.take_succ_cons, List.cons_append,
              ih2 i (by simpa [hc] using h)]
  | case7 c r hc ih =>
      cases i with
      | zero => simp at h
      | succ i =>
          rw [List.take_succ_cons, List.cons_append,
            maskFrom_blockComment_take_append i hc hslash, maskFrom_blockComment_take i hc,
            ih i (by simpa using h), List.cons_append]

/-- What the masked text shows of a character that is read in a region. -/
def Region.shown : Region → Char → Char
  | .code _, c => c
  | .lineComment, c => if c = '\n' then '\n' else ' '
  | .blockComment, c => if c = '\n' then '\n' else ' '

/-- Each character is shown as its region has it, whatever region the masking begins in. -/
theorem maskFrom_eq_zipWith (region : Region) (cs : List Char) :
    maskFrom region cs = List.zipWith Region.shown (regionsFrom region cs) cs := by
  fun_induction maskFrom region cs with
  | case1 => simp
  | case2 r ih | case3 r ih | case7 r ih =>
      rw [ih, regionsFrom]
      rfl
  | case4 q c r h1 h2 ih =>
      rw [ih, regionsFrom.eq_4 _ _ _ h1 h2]
      rfl
  | case5 r ih =>
      rw [ih, regionsFrom, if_pos rfl]
      rfl
  | case6 c r hc ih =>
      rw [ih, regionsFrom, if_neg hc, List.zipWith_cons_cons, Region.shown, if_neg hc]
  | case8 c r hc ih =>
      rw [ih, regionsFrom.eq_7 _ _ hc]
      rfl

/-- A character of the masked text that is no blank is one of the text, read
as code. -/
theorem code_of_maskFrom_getElem? (region : Region) (cs : List Char) (i : Nat) (c : Char)
    (h : (maskFrom region cs)[i]? = some c) (hs : c ≠ ' ') (hn : c ≠ '\n') :
    cs[i]? = some c ∧ ∃ q, (regionsFrom region cs)[i]? = some (.code q) := by
  rw [maskFrom_eq_zipWith, List.getElem?_zipWith_eq_some] at h
  obtain ⟨there, d, hthere, hd, rfl⟩ := h
  -- blanks and line breaks are all that masking leaves of a comment
  have hcomment : ∀ e, (if e = '\n' then '\n' else ' ') ≠ ' ' →
      (if e = '\n' then '\n' else ' ') = '\n' := by
    intro e he
    split
    · rfl
    · rename_i hother
      exact absurd (if_neg hother) he
  cases there with
  | code q => exact ⟨hd, q, hthere⟩
  | lineComment | blockComment => exact absurd (hcomment d hs) hn

/-- The masked text leaves the quotes in the state that the masking is in:
comments are blanked out, and strings are not. -/
theorem over_maskFrom_take (region : Region) (cs : List Char) (i : Nat) (q : Quotes)
    (h : (regionsFrom region cs)[i]? = some (.code q)) :
    region.quotes.over (maskFrom region (cs.take i)) = q := by
  have hblank : Quotes.outside.step ' ' = .outside := rfl
  have hbreak : Quotes.outside.step '\n' = .outside := rfl
  -- what masking leaves of a comment keeps the quotes outside of strings
  fun_induction regionsFrom region cs generalizing i with
  | case1 => simp at h
  | case2 r ih | case3 r ih | case6 r ih =>
      obtain _ | _ | i := i
      · simp at h
      · simp at h
      · have hrec := ih i (by simpa using h)
        simpa [maskFrom, Region.quotes, hblank] using hrec
  | case4 p c r h1 h2 ih =>
      cases i with
      | zero =>
          simp only [List.getElem?_cons_zero, Option.some.injEq, Region.code.injEq] at h
          exact h
      | succ i =>
          rw [List.take_succ_cons, maskFrom_code_take i h1 h2, Quotes.over_cons]
          exact ih i (by simpa using h)
  | case5 c r ih1 ih2 =>
      cases i with
      | zero => simp at h
      | succ i =>
          by_cases hc : c = '\n'
          · have hrec := ih1 i (by simpa [hc] using h)
            simpa [maskFrom, hc, Region.quotes, hbreak] using hrec
          · have hrec := ih2 i (by simpa [hc] using h)
            simpa [maskFrom, hc, Region.quotes, hblank] using hrec
  | case7 c r hc ih =>
      cases i with
      | zero => simp at h
      | succ i =>
          have hrec := ih i (by simpa using h)
          rw [List.take_succ_cons, maskFrom_blockComment_take i hc]
          by_cases hn : c = '\n'
          · simpa [hn, Region.quotes, hbreak] using hrec
          · simpa [hn, Region.quotes, hblank] using hrec

/-- A text can be masked piece by piece when the second piece begins with a
character of code that takes no part in a comment. -/
theorem maskFrom_take_append_cons (region : Region) {cs : List Char} {i : Nat} {q : Quotes}
    (h : (regionsFrom region cs)[i]? = some (.code q)) {x : Char} (hslash : x ≠ '/')
    (hstar : x ≠ '*') (t : List Char) :
    maskFrom region (cs.take i ++ x :: t)
      = maskFrom region (cs.take i) ++ x :: maskFrom (.code (q.step x)) t := by
  rw [maskFrom_take_append _ _ _ _ h _ (by simpa using hslash) (by simpa using hstar),
    maskFrom_code_cons q hslash]

end SchemaAtlas.Scan
