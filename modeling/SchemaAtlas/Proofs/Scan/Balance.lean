import Mathlib.Order.Bounds.Basic
import SchemaAtlas.Proofs.Scan.Segment

/-!
# `SchemaAtlas.Proofs.Scan.Balance`: closing braces by counting

The search for a closing brace goes through a text with a depth and the state of the
quotes. What it finds can be told without either. Leave out the quoted strings of a text
(`unquoted`), and count: a block ends at the first place up to which as many braces have
closed as have opened (`closingBrace?_eq_some_iff`).

The depth at a place is the difference of the two counts (`netBraces_eq_count`). From the
opening brace on it is above zero until the block ends, and it changes by one at a time,
so the first place where it is zero is one where a brace closes.
-/

set_option autoImplicit false

namespace SchemaAtlas.Scan

/-! ### Without the strings -/

/-- The characters of a text that are outside of quoted strings. If the text begins in a string,
`string?` is the string's quote. In a string a backslash takes the character behind it along. -/
def unquoted : (string? : Option Char) → List Char → List Char
  | _, [] => []
  | none, c :: r => if isQuote c then unquoted (some c) r else c :: unquoted none r
  | some q, '\\' :: _ :: r => unquoted (some q) r
  | some q, c :: r => if c = q then unquoted none r else unquoted (some q) r

/-- Holds when, from the index `i` up to the index `j`, both included, as many braces open as
close outside of quoted strings. -/
def BalancedUpTo (cs : List Char) (i j : Nat) : Prop :=
  i ≤ j ∧ j < cs.length
    ∧ (unquoted none ((cs.take (j + 1)).drop i)).count '{'
      = (unquoted none ((cs.take (j + 1)).drop i)).count '}'

instance (cs : List Char) (i j : Nat) : Decidable (BalancedUpTo cs i j) :=
  inferInstanceAs (Decidable (_ ∧ _ ∧ _))

/-- The state of the quotes in a string or outside of strings. -/
def Quotes.ofString? : Option Char → Quotes
  | none => .outside
  | some q => .inside q

/-- No character counts inside of a string, not even a brace. -/
@[simp] theorem weight_inside (q c : Char) : (Quotes.inside q).weight c = 0 := rfl

/-- No character counts behind a backslash inside of a string either. -/
@[simp] theorem weight_escaped (q c : Char) : (Quotes.escaped q).weight c = 0 := rfl

/-- Outside of strings, an opening brace counts one and a closing one takes it back. Nothing
else counts. -/
theorem weight_outside (c : Char) :
    Quotes.outside.weight c
      = ((if c = '{' then 1 else 0 : Nat) : Int) - ((if c = '}' then 1 else 0 : Nat) : Int) := by
  by_cases hopen : c = '{'
  · rw [hopen]
    decide
  · by_cases hclose : c = '}'
    · rw [hclose]
      decide
    · rw [weight_of_noBrace .outside hopen hclose, if_neg hopen, if_neg hclose]
      rfl

/-- A quote that begins a string does not count, so only what is neither a quote nor in a
string does. -/
theorem weight_of_isQuote {c : Char} (hc : isQuote c = true) : Quotes.outside.weight c = 0 := by
  have hopen : c ≠ '{' := ne_of_apply_ne isQuote (by rw [hc]; decide)
  have hclose : c ≠ '}' := ne_of_apply_ne isQuote (by rw [hc]; decide)
  exact weight_of_noBrace .outside hopen hclose

/-- In a string, what escapes nothing closes it if it is the quote that opened it. A backslash
with nothing behind it escapes nothing. -/
theorem netBraces_step_inside {q c : Char} {r : List Char}
    (hnot : ∀ d r', c = '\\' → r = d :: r' → False) :
    netBraces ((Quotes.inside q).step c) r
      = netBraces (.ofString? (if c = q then none else some q)) r := by
  by_cases hslash : c = '\\'
  · cases r with
    | nil => rfl
    | cons d r => exact absurd rfl (hnot d r hslash)
  · rw [Quotes.step, if_neg hslash]
    split
    · rfl
    · rfl

/-- The depth at the end of a text is the number of braces that open, less those that close. -/
theorem netBraces_eq_count (string? : Option Char) (x : List Char) :
    netBraces (.ofString? string?) x
      = ((unquoted string? x).count '{' : Int) - ((unquoted string? x).count '}' : Int) := by
  fun_induction unquoted string? x with
  | case1 => rfl
  | case2 c r hc ih =>
      have hstep : Quotes.outside.step c = .ofString? (some c) := by
        simp [Quotes.step, hc, Quotes.ofString?]
      rw [Quotes.ofString?, netBraces, weight_of_isQuote hc, hstep, ih, Int.zero_add]
  | case3 c r hc ih =>
      have hstep : Quotes.outside.step c = .ofString? none := by
        simp [Quotes.step, hc, Quotes.ofString?]
      rw [Quotes.ofString?, netBraces, weight_outside, hstep, ih, List.count_cons,
        List.count_cons]
      simp only [beq_iff_eq]
      omega
  -- within a string nothing counts, and a backslash takes the next character with it
  | case4 q d r ih =>
      show 0 + (0 + netBraces (.inside q) r) = _
      rw [Int.zero_add, Int.zero_add]
      exact ih
  | case5 q r hnot ih =>
      show 0 + netBraces ((Quotes.inside q).step q) r = _
      rw [Int.zero_add, netBraces_step_inside hnot, if_pos rfl, ih]
  | case6 q c r hnot hne ih =>
      show 0 + netBraces ((Quotes.inside q).step c) r = _
      rw [Int.zero_add, netBraces_step_inside hnot, if_neg hne, ih]

/-- The depth at the end of a text is the depth at the end of its first half and the change in
the second. -/
theorem netBraces_append (q : Quotes) (x y : List Char) :
    netBraces q (x ++ y) = netBraces q x + netBraces (q.over x) y := by
  induction x generalizing q with
  | nil => simp [netBraces]
  | cons c x ih =>
      rw [List.cons_append, netBraces, netBraces, ih, Quotes.over_cons, Int.add_assoc]

/-! ### From an opening brace on -/

section Opening

variable {cs r : List Char} {i : Nat}

/-- The brace that closes the one in front of some text is looked for in the text. -/
theorem closingBrace?_eq_blockEnd? (h : cs.drop i = '{' :: r) :
    closingBrace? cs i = blockEnd? (i + 1) r := by
  have hweight : (0 : Int) + Quotes.outside.weight '{' = 1 := by decide
  rw [closingBrace?, h, closeFrom_cons, if_neg (by simp [closes]), hweight]
  rfl

/-- Up to a place behind an opening brace, the braces are balanced if the depth behind it has
fallen by one. -/
theorem balancedUpTo_iff (h : cs.drop i = '{' :: r) (j : Nat) :
    BalancedUpTo cs i j ↔ i ≤ j ∧ j < cs.length ∧ netBraces .outside (r.take (j - i)) = -1 := by
  refine and_congr_right fun hij => and_congr_right fun _ => ?_
  have hpiece : (cs.take (j + 1)).drop i = '{' :: r.take (j - i) := by
    rw [List.drop_take, h, Nat.sub_add_comm hij, List.take_succ_cons]
  have hdepth : netBraces .outside ('{' :: r.take (j - i))
      = 1 + netBraces .outside (r.take (j - i)) := rfl
  have hcount := netBraces_eq_count none ('{' :: r.take (j - i))
  rw [Quotes.ofString?, hdepth] at hcount
  rw [hpiece]
  omega

/-- Where no block has ended yet, the depth has not fallen below zero after any number of
characters. -/
theorem netBraces_take_nonneg {d : Nat} (h : closeFrom .outside 1 d r = none) (k : Nat) :
    0 ≤ netBraces .outside (r.take k) := by
  have hfront : closeFrom .outside 1 d (r.take k) = none := by
    rw [← List.take_append_drop k r, closeFrom_append, Option.or_eq_none_iff] at h
    exact h.1
  have hdepth := one_le_add_netBraces hfront (Int.le_refl 1)
  omega

/-- If the brace is closed, then by a closing brace, at the first place where the braces are
balanced. -/
theorem isLeast_of_closingBrace? (h : cs.drop i = '{' :: r) {j : Nat}
    (hj : closingBrace? cs i = some j) :
    cs[j]? = some '}' ∧ i < j ∧ IsLeast {k | BalancedUpTo cs i k} j := by
  rw [closingBrace?_eq_blockEnd? h, blockEnd?, closeFrom_eq_some_iff] at hj
  obtain ⟨x, t, rfl, rfl, hnone, hover, hnet⟩ := hj
  have hget : cs[i + 1 + x.length]? = some '}' := by
    rw [Nat.add_assoc, ← List.getElem?_drop, h, Nat.add_comm 1, List.getElem?_cons_succ,
      List.getElem?_append_right (Nat.le_refl _), Nat.sub_self]
    rfl
  obtain ⟨hlength, -⟩ := List.getElem?_eq_some_iff.mp hget
  refine ⟨hget, by omega, ?_, ?_⟩
  · -- the brace brings the depth down to where it was in front of the block
    have htake : (x ++ '}' :: t).take (i + 1 + x.length - i) = x ++ ['}'] := by
      rw [show i + 1 + x.length - i = x.length + 1 by omega, List.take_length_add_append]
      rfl
    have hbrace : netBraces .outside ['}'] = -1 := by decide
    refine (balancedUpTo_iff h _).mpr ⟨by omega, hlength, ?_⟩
    rw [htake, netBraces_append, hover, hbrace]
    omega
  · -- before that the depth does not fall below the one behind the opening brace
    intro k hk
    obtain ⟨hik, -, hdepth⟩ := (balancedUpTo_iff h k).mp hk
    by_contra hlt
    have htake : (x ++ '}' :: t).take (k - i) = x.take (k - i) :=
      List.take_append_of_le_length (by omega)
    have hnonneg := netBraces_take_nonneg hnone (k - i)
    rw [htake] at hdepth
    omega

/-- If no closing brace is found for an opening one, then there is no place up to which the
braces balance. -/
theorem not_balancedUpTo_of_closingBrace? (h : cs.drop i = '{' :: r)
    (hnone : closingBrace? cs i = none) (j : Nat) :
    ¬BalancedUpTo cs i j := by
  intro hj
  obtain ⟨-, -, hdepth⟩ := (balancedUpTo_iff h j).mp hj
  rw [closingBrace?_eq_blockEnd? h, blockEnd?] at hnone
  have hnonneg := netBraces_take_nonneg hnone (j - i)
  omega

/-- A block ends at the first place up to which as many braces have closed as have opened. -/
theorem closingBrace?_eq_some_iff (h : cs.drop i = '{' :: r) (j : Nat) :
    closingBrace? cs i = some j ↔ IsLeast {k | BalancedUpTo cs i k} j := by
  refine ⟨fun hj => (isLeast_of_closingBrace? h hj).2.2, fun hleast => ?_⟩
  cases hclose : closingBrace? cs i with
  | some k => rw [(isLeast_of_closingBrace? h hclose).2.2.unique hleast]
  | none => exact absurd hleast.1 (not_balancedUpTo_of_closingBrace? h hclose j)

end Opening

/-- A brace in a string does not count, and neither does the quote behind a backslash end the
string. -/
example : closingBrace? ['{', '\'', '\\', '\'', '}', '\'', '{', '}', '}'] 0 = some 8 := by
  decide

end SchemaAtlas.Scan
