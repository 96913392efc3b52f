import Mathlib.Data.List.TakeDrop
import SchemaAtlas.Json.Reader
import SchemaAtlas.Proofs.Scan.Search

/-!
# `SchemaAtlas.Proofs.Json.Number`: numbers and words, with more text behind them

A number has no end of its own: it goes on as long as its characters do. Each part of one, the
digits before the point, the fraction and the exponent, is described by an equation
(`wholePart_eq_some_iff` and those beside it), and from it follows that the part is read again
when more text comes behind it, provided that no number goes on there (`Stops`). What is no
fraction and no exponent has to stay none as well, and this is where a part cut off in the
middle, such as `1e`, needs the whole condition.

The last section puts the format's words beside the numbers. `leaf_cases` says which texts are
one or the other.
-/

set_option autoImplicit false

namespace SchemaAtlas.Json

open SchemaAtlas.Scan SchemaAtlas.Text

/-! ### Where numbers end -/

/-- Characters that a number can have behind its first. -/
def isNumberPart (c : Char) : Bool :=
  c.isDigit || c == '.' || c == 'e' || c == 'E' || c == '+' || c == '-'

/-- Holds of a text that no number goes on with. -/
def Stops (q : List Char) : Prop := ∀ c ∈ q.head?, isNumberPart c = false

/-- Holds of the values that end only where something else begins. -/
def isNumber : Json → Bool
  | .int _ => true
  | .float _ => true
  | _ => false

/-! ### The parts of a number -/

/-- The digits are those up to where something else begins: all of them digits, and the
character behind them, if there is one, none. -/
theorem digits_eq_iff (cs ds r : List Char) :
    digits cs = (ds, r) ↔
      cs = ds ++ r ∧ (∀ c ∈ ds, c.isDigit = true) ∧ ∀ c ∈ r.head?, c.isDigit = false := by
  rw [digits, List.span_eq_takeWhile_dropWhile]
  constructor
  · intro h
    obtain ⟨rfl, rfl⟩ := Prod.mk.inj h
    refine ⟨List.takeWhile_append_dropWhile.symm, fun c hc => List.mem_takeWhile_imp hc, ?_⟩
    intro c hc
    have hhead := List.head?_dropWhile_not Char.isDigit cs
    rw [Option.mem_def] at hc
    rw [hc] at hhead
    simpa using hhead
  · rintro ⟨rfl, hds, hr⟩
    rw [List.takeWhile_append_of_pos hds, List.dropWhile_append_of_pos hds]
    cases r with
    | nil => simp
    | cons c r => simp [hr c rfl]

/-- Holds of what ends the digits before it when it follows `r`: something does, be it in `r` or
in `q`. -/
def EndsDigits (r q : List Char) : Prop := r = [] → ∀ c ∈ q.head?, c.isDigit = false

/-- The digits are the same with another text behind, if that text does not go on with
digits where the first one ends. -/
theorem digits_append {cs ds r q : List Char} (h : digits cs = (ds, r)) (hq : EndsDigits r q) :
    digits (cs ++ q) = (ds, r ++ q) := by
  obtain ⟨rfl, hds, hr⟩ := (digits_eq_iff _ _ _).mp h
  refine (digits_eq_iff _ _ _).mpr ⟨List.append_assoc _ _ _, hds, ?_⟩
  cases r with
  | nil => exact hq rfl
  | cons c r => exact hr

/-- The digits before the point are a zero alone, or digits that do not begin with one. -/
theorem wholePart_eq_some_iff (cs w r : List Char) :
    wholePart cs = some (w, r) ↔
      (cs = '0' :: r ∧ w = ['0']) ∨ (cs.head? ≠ some '0' ∧ digits cs = (w, r) ∧ w ≠ []) := by
  unfold wholePart
  split
  · simp [eq_comm, and_comm]
  · -- without a zero in front all digits belong to the whole part
    rename_i hzero
    have hnot : ¬(cs = '0' :: r ∧ w = ['0']) := fun h => hzero r h.1
    have hhead : cs.head? ≠ some '0' := by
      intro h
      obtain ⟨x, hx⟩ := List.head?_eq_some_iff.mp h
      exact hzero x hx
    rcases hdigits : digits cs with ⟨ds, x⟩
    cases ds with
    | nil =>
        simp only [reduceCtorEq, hnot, false_or, false_iff, not_and]
        rintro - h hne
        exact hne (Prod.mk.inj h).1.symm
    | cons c ds =>
        simp only [Option.some.injEq, hnot, false_or]
        refine ⟨fun h => ⟨hhead, h, ?_⟩, fun h => h.2.1⟩
        rw [← (Prod.mk.inj h).1]
        exact List.cons_ne_nil c ds

/-- A fraction is a point and at least one digit. A point alone is none, and is left where
it stands. -/
theorem fraction_eq_some_iff (cs ds r : List Char) :
    fraction cs = some (ds, r) ↔ ∃ x, cs = '.' :: x ∧ digits x = (ds, r) ∧ ds ≠ [] := by
  constructor
  · intro h
    unfold fraction at h
    split at h
    · rename_i x
      refine ⟨x, rfl, ?_⟩
      rcases hdigits : digits x with ⟨ds', r'⟩
      cases ds' with
      | nil => simp [hdigits] at h
      | cons c ds' =>
          simp only [hdigits, Option.some.injEq] at h
          rw [← h]
          simpa using (Prod.mk.inj h).1 ▸ List.cons_ne_nil c ds'
    · cases h
  · rintro ⟨x, rfl, hdigits, hne⟩
    cases ds with
    | nil => exact absurd rfl hne
    | cons c ds => simp only [fraction, hdigits]

/-- The signs of an exponent, and whether they make it negative. -/
def signs : List (List Char × Bool) := [([], false), (['-'], true), (['+'], false)]

/-- Holds of a sign that is all of the sign in front of `x`. -/
def IsSign (sign : List Char × Bool) (x : List Char) : Prop :=
  sign ∈ signs ∧ (sign.1 = [] → ∀ c ∈ x.head?, c ≠ '-' ∧ c ≠ '+')

/-- Every text begins with a sign in the sense of exponents: a plus, a minus, or nothing at
all. -/
theorem exists_isSign (cs : List Char) : ∃ sign x, cs = sign.1 ++ x ∧ IsSign sign x := by
  by_cases hminus : ∃ x, cs = '-' :: x
  · obtain ⟨x, rfl⟩ := hminus
    exact ⟨(['-'], true), x, rfl, by decide, by simp⟩
  by_cases hplus : ∃ x, cs = '+' :: x
  · obtain ⟨x, rfl⟩ := hplus
    exact ⟨(['+'], false), x, rfl, by decide, by simp⟩
  refine ⟨([], false), cs, rfl, by decide, ?_⟩
  intro _ c hc
  obtain ⟨x, rfl⟩ := List.head?_eq_some_iff.mp hc
  exact ⟨fun h => hminus ⟨x, by rw [h]⟩, fun h => hplus ⟨x, by rw [h]⟩⟩

/-- The exponent behind its letter and its sign: it has at least one digit, and a minus
turns its value around. -/
theorem exponent_cons {e : Char} (he : e = 'e' ∨ e = 'E') {sign : List Char × Bool}
    {x : List Char}
    (hsign : IsSign sign x) :
    exponent (e :: (sign.1 ++ x)) = match digits x with
      | ([], _) => none
      | (ds, r) => some (if sign.2 then -(natOfDigits ds : Int) else natOfDigits ds, r) := by
  have hletter : (e = 'e' || e = 'E') = true := by simpa using he
  obtain ⟨hmem, hbare⟩ := hsign
  simp only [signs, List.mem_cons, List.not_mem_nil, or_false] at hmem
  simp only [exponent, hletter, if_true]
  rcases hmem with rfl | rfl | rfl
  · cases x with
    | nil => rfl
    | cons c x =>
        obtain ⟨hminus, hplus⟩ := hbare rfl c rfl
        rcases hdigits : digits (c :: x) with ⟨_ | ⟨d, ds⟩, r⟩ <;>
          simp only [List.nil_append, List.cons.injEq, hminus, hplus, false_and, imp_self,
            implies_true, Bool.false_eq_true, if_false, hdigits]
  · rfl
  · rfl

/-- Without its letter there is no exponent, whatever digits there may be. -/
theorem exponent_cons_of_ne {e : Char} (he : ¬(e = 'e' ∨ e = 'E')) (cs : List Char) :
    exponent (e :: cs) = none := by
  have hletter : (e = 'e' || e = 'E') = false := by simpa using he
  simp only [exponent, hletter, Bool.false_eq_true, if_false]

/-- An exponent is its letter, a sign if there is one, and at least one digit. -/
theorem exponent_eq_some_iff (cs r : List Char) (k : Int) :
    exponent cs = some (k, r) ↔
      ∃ e sign x ds, (e = 'e' ∨ e = 'E') ∧ sign ∈ signs ∧ cs = e :: (sign.1 ++ x)
        ∧ digits x = (ds, r) ∧ ds ≠ [] ∧ k = if sign.2 then -(natOfDigits ds : Int)
          else natOfDigits ds := by
  constructor
  · intro h
    cases cs with
    | nil => cases h
    | cons e cs =>
        have he : e = 'e' ∨ e = 'E' := by
          by_contra hne
          rw [exponent_cons_of_ne hne] at h
          cases h
        obtain ⟨sign, x, rfl, hsign⟩ := exists_isSign cs
        rw [exponent_cons he hsign] at h
        rcases hdigits : digits x with ⟨ds, r'⟩
        cases ds with
        | nil => simp [hdigits] at h
        | cons c ds =>
            simp only [hdigits, Option.some.injEq, Prod.mk.injEq] at h
            obtain ⟨rfl, rfl⟩ := h
            exact ⟨e, sign, x, c :: ds, he, hsign.1, rfl, hdigits, List.cons_ne_nil c ds, rfl⟩
  · rintro ⟨e, sign, x, ds, he, hsign, rfl, hdigits, hne, rfl⟩
    cases ds with
    | nil => exact absurd rfl hne
    | cons c ds =>
        -- the digits begin right behind the sign, so no second sign could be taken for it
        have hbare : ∀ d ∈ x.head?, d ≠ '-' ∧ d ≠ '+' := by
          obtain ⟨rfl, hds, -⟩ := (digits_eq_iff _ _ _).mp hdigits
          intro d hd
          obtain rfl : c = d := by simpa using hd
          have hdigit := hds c List.mem_cons_self
          constructor
          · rintro rfl
            exact absurd hdigit (by decide)
          · rintro rfl
            exact absurd hdigit (by decide)
        rw [exponent_cons he ⟨hsign, fun _ => hbare⟩, hdigits]

/-- The whole part is the same with another text behind, if that text does not go on with
digits where the first one ends. -/
theorem wholePart_append {cs w r q : List Char} (h : wholePart cs = some (w, r))
    (hq : EndsDigits r q) :
    wholePart (cs ++ q) = some (w, r ++ q) := by
  rw [wholePart_eq_some_iff] at h ⊢
  rcases h with ⟨rfl, rfl⟩ | ⟨hhead, hdigits, hne⟩
  · exact .inl ⟨rfl, rfl⟩
  · refine .inr ⟨?_, digits_append hdigits hq, hne⟩
    obtain ⟨rfl, -, -⟩ := (digits_eq_iff _ _ _).mp hdigits
    obtain ⟨c, w, rfl⟩ := List.exists_cons_of_ne_nil hne
    exact hhead

/-- The fraction is the same with another text behind, if that text does not go on with
digits where the first one ends. -/
theorem fraction_append {cs ds r q : List Char} (h : fraction cs = some (ds, r))
    (hq : EndsDigits r q) :
    fraction (cs ++ q) = some (ds, r ++ q) := by
  obtain ⟨x, rfl, hdigits, hne⟩ := (fraction_eq_some_iff _ _ _).mp h
  exact (fraction_eq_some_iff _ _ _).mpr ⟨x ++ q, rfl, digits_append hdigits hq, hne⟩

/-- The exponent is the same with another text behind, if that text does not go on with
digits where the first one ends. -/
theorem exponent_append {cs r q : List Char} {k : Int} (h : exponent cs = some (k, r))
    (hq : EndsDigits r q) :
    exponent (cs ++ q) = some (k, r ++ q) := by
  obtain ⟨e, sign, x, ds, he, hsign, rfl, hdigits, hne, hk⟩ := (exponent_eq_some_iff _ _ _).mp h
  exact (exponent_eq_some_iff _ _ _).mpr
    ⟨e, sign, x ++ q, ds, he, hsign, by simp, digits_append hdigits hq, hne, hk⟩

/-! ### What stays no part -/

/-- Parts of a number at the beginning of a text lie before what no number goes on with. -/
theorem prefix_of_stops {lead cs q : List Char} (h : lead <+: cs ++ q)
    (hlead : ∀ c ∈ lead, isNumberPart c = true) (hq : Stops q) : lead <+: cs := by
  induction lead generalizing cs with
  | nil => exact List.nil_prefix
  | cons l lead ih =>
      cases cs with
      | nil =>
          obtain ⟨x, rfl⟩ := h
          have hstop := hq l rfl
          rw [hlead l List.mem_cons_self] at hstop
          cases hstop
      | cons c cs =>
          rw [List.cons_append] at h
          obtain ⟨rfl, hrest⟩ := List.cons_prefix_cons.mp h
          exact List.cons_prefix_cons.mpr
            ⟨rfl, ih hrest fun d hd => hlead d (List.mem_cons_of_mem l hd)⟩

/-- A digit is among the digits that it begins, so a text that begins with a digit has
digits. -/
theorem exists_digits_cons {d : Char} (hd : d.isDigit = true) (x : List Char) :
    ∃ ds r, digits (d :: x) = (d :: ds, r) := by
  rcases hdigits : digits x with ⟨ds, r⟩
  obtain ⟨rfl, hds, hr⟩ := (digits_eq_iff _ _ _).mp hdigits
  refine ⟨ds, r, (digits_eq_iff _ _ _).mpr ⟨rfl, ?_, hr⟩⟩
  intro c hc
  rcases List.mem_cons.mp hc with rfl | hc
  · exact hd
  · exact hds c hc

/-- Every digit is a character that a number may go on with. -/
theorem isNumberPart_of_isDigit {c : Char} (h : c.isDigit = true) : isNumberPart c = true := by
  simp [isNumberPart, h]

/-- What is no fraction does not become one by what no number goes on with. -/
theorem fraction_append_of_stops {cs q : List Char} (h : fraction cs = none) (hq : Stops q) :
    fraction (cs ++ q) = none := by
  cases hfound : fraction (cs ++ q) with
  | none => rfl
  | some m =>
      -- the point and the digit behind it would both lie in `cs`
      obtain ⟨x, hcs, hdigits, hne⟩ := (fraction_eq_some_iff _ m.1 m.2).mp hfound
      obtain ⟨rfl, hds, -⟩ := (digits_eq_iff _ _ _).mp hdigits
      obtain ⟨d, ds, hd⟩ := List.exists_cons_of_ne_nil hne
      have hdigit : d.isDigit = true := hds d (hd ▸ List.mem_cons_self)
      have hlead : ['.', d] <+: cs := by
        refine prefix_of_stops (q := q) ?_ ?_ hq
        · exact ⟨ds ++ m.2, by rw [hcs, hd]; rfl⟩
        · simp [isNumberPart_of_isDigit hdigit]
          decide
      obtain ⟨y, rfl⟩ := hlead
      obtain ⟨ds', r, hread⟩ := exists_digits_cons hdigit y
      have hsome : fraction (['.', d] ++ y) = some (d :: ds', r) :=
        (fraction_eq_some_iff _ _ _).mpr ⟨d :: y, rfl, hread, List.cons_ne_nil d ds'⟩
      rw [hsome] at h
      cases h

/-- What is no exponent does not become one by a text behind it with which no number goes
on. -/
theorem exponent_append_of_stops {cs q : List Char} (h : exponent cs = none) (hq : Stops q) :
    exponent (cs ++ q) = none := by
  cases hfound : exponent (cs ++ q) with
  | none => rfl
  | some m =>
      obtain ⟨e, sign, x, ds, he, hsign, hcs, hdigits, hne, -⟩ :=
        (exponent_eq_some_iff _ m.2 m.1).mp hfound
      obtain ⟨rfl, hds, -⟩ := (digits_eq_iff _ _ _).mp hdigits
      obtain ⟨d, ds, rfl⟩ := List.exists_cons_of_ne_nil hne
      have hdigit : d.isDigit = true := hds d List.mem_cons_self
      have hletter : isNumberPart e = true := by
        rcases he with rfl | rfl <;> decide
      have hsigns : (signs.all fun sign => sign.1.all isNumberPart) = true := by decide
      have hparts := List.all_eq_true.mp (List.all_eq_true.mp hsigns sign hsign)
      -- up to its first digit an exponent is part of a number, so that much of it was there
      -- already
      have hlead : e :: (sign.1 ++ [d]) <+: cs := by
        refine prefix_of_stops (q := q) ?_ ?_ hq
        · exact ⟨ds ++ m.2, by rw [hcs]; simp⟩
        · intro c hc
          simp only [List.mem_cons, List.mem_append, List.not_mem_nil, or_false] at hc
          rcases hc with rfl | hc | rfl
          · exact hletter
          · exact hparts c hc
          · exact isNumberPart_of_isDigit hdigit
      obtain ⟨y, rfl⟩ := hlead
      obtain ⟨ds', r, hread⟩ := exists_digits_cons hdigit y
      rw [(exponent_eq_some_iff _ r _).mpr ⟨e, sign, d :: y, d :: ds', he, hsign, by simp, hread,
        List.cons_ne_nil d ds', rfl⟩] at h
      cases h

/-- Where no number goes on there is no fraction, as a fraction would begin with a point. -/
theorem fraction_of_stops {q : List Char} (hq : Stops q) : fraction q = none :=
  fraction_append_of_stops (show fraction [] = none from rfl) hq

/-- Where no number goes on there is no exponent, as an exponent would begin with its
letter. -/
theorem exponent_of_stops {q : List Char} (hq : Stops q) : exponent q = none :=
  exponent_append_of_stops (show exponent [] = none from rfl) hq

/-! ### Numbers -/

/-- A text with which no number goes on begins with no digit, so it ends the digits before
it. -/
theorem endsDigits_of_stops {q : List Char} (hq : Stops q) (r : List Char) : EndsDigits r q := by
  intro _ c hc
  cases hdigit : c.isDigit with
  | false => rfl
  | true =>
      have hstop := hq c hc
      rw [isNumberPart_of_isDigit hdigit] at hstop
      cases hstop

/-- What is read, with more text behind it. -/
def extended {α : Type} (q : List Char) (m : α × List Char) : α × List Char :=
  (m.1, m.2 ++ q)

/-- A number is read as before when each of its parts is. Its parts are its whole part, its
fraction and its exponent. -/
theorem number_extended (negative : Bool) {cs w r q : List Char}
    (hwhole : wholePart cs = some (w, r))
    (hwhole' : wholePart (cs ++ q) = some (w, r ++ q))
    (hfraction : fraction (r ++ q) = (fraction r).map (extended q))
    (hexponent : exponent (extended q ((fraction r).getD ([], r))).2
      = (exponent ((fraction r).getD ([], r)).2).map (extended q)) :
    number negative (cs ++ q) = (number negative cs).map (extended q) := by
  have hrest : (fraction (r ++ q)).getD ([], r ++ q)
      = extended q ((fraction r).getD ([], r)) := by
    rw [hfraction]
    cases fraction r <;> rfl
  simp only [number, hwhole, hwhole', hrest]
  rw [hfraction, Option.isNone_map]
  generalize (fraction r).isNone = whole
  generalize (fraction r).getD ([], r) = m at hexponent ⊢
  simp only [hexponent]
  cases exponent m.2 with
  | none =>
      simp only [Option.map_none, Option.getD_none]
      split
      · split <;> rfl
      · rfl
  | some k =>
      simp only [Option.map_some, Option.getD_some, Option.isNone_some, Bool.and_false,
        Bool.false_eq_true, if_false]
      rfl

/-- Whatever a number is read as, it is read so when something follows that no number goes on
with. -/
theorem number_append_of_stops (negative : Bool) {cs w r q : List Char}
    (h : wholePart cs = some (w, r))
    (hq : Stops q) : number negative (cs ++ q) = (number negative cs).map (extended q) := by
  have hfraction : fraction (r ++ q) = (fraction r).map (extended q) := by
    cases hr : fraction r with
    | none => exact fraction_append_of_stops hr hq
    | some m => exact fraction_append hr (endsDigits_of_stops hq _)
  refine number_extended negative h (wholePart_append h (endsDigits_of_stops hq r)) hfraction ?_
  generalize (fraction r).getD ([], r) = m
  cases hm : exponent m.2 with
  | none => exact exponent_append_of_stops hm hq
  | some k => exact exponent_append hm (endsDigits_of_stops hq _)

/-- What an exponent leaves, or all of the text if there is none. -/
def behindExponent (cs : List Char) : List Char := ((exponent cs).getD (0, cs)).2

/-- What a fraction and an exponent behind it leave. -/
def behindFraction (cs : List Char) : List Char := behindExponent ((fraction cs).getD ([], cs)).2

/-- Where a number stops behind its exponent, the exponent is as before with a text behind
it, and the rest goes on with this text. -/
theorem exponent_extended {cs q : List Char} (hq : Stops (behindExponent cs ++ q)) :
    exponent (cs ++ q) = (exponent cs).map (extended q) := by
  unfold behindExponent at hq
  cases h : exponent cs with
  | none =>
      rw [h] at hq
      exact exponent_of_stops hq
  | some k =>
      rw [h] at hq
      refine exponent_append h fun hnil => ?_
      have hstop : Stops q := by simpa [hnil] using hq
      exact endsDigits_of_stops hstop [] rfl

/-- Where a number stops behind its fraction, the fraction is as before with a text behind
it, and the rest goes on with this text. -/
theorem fraction_extended {cs q : List Char} (hq : Stops (behindFraction cs ++ q)) :
    fraction (cs ++ q) = (fraction cs).map (extended q) := by
  unfold behindFraction at hq
  cases h : fraction cs with
  | none =>
      rw [h] at hq
      cases hexponent : exponent cs with
      | none => exact fraction_of_stops (by simpa [behindExponent, hexponent] using hq)
      | some k =>
          -- what begins with an exponent does not begin with a point
          obtain ⟨e, sign, x, ds, he, -, rfl, -⟩ := (exponent_eq_some_iff _ k.2 k.1).mp hexponent
          rcases he with rfl | rfl <;> rfl
  | some m =>
      rw [h] at hq
      refine fraction_append h fun hnil => ?_
      have hstop : Stops q := by simpa [hnil, behindExponent, exponent] using hq
      exact endsDigits_of_stops hstop [] rfl

/-- A number that is read is read again when more text follows, unless it could go on there. -/
theorem number_append {negative : Bool} {cs r q : List Char} {v : Json}
    (h : number negative cs = .ok (v, r))
    (hq : Stops (r ++ q)) : number negative (cs ++ q) = .ok (v, r ++ q) := by
  cases hwhole : wholePart cs with
  | none => simp [number, hwhole] at h
  | some m =>
      obtain ⟨w, r₁⟩ := m
      obtain rfl : behindFraction r₁ = r := by
        simp only [number, hwhole] at h
        split at h
        · split at h
          · cases h
          · exact (Prod.mk.inj (Except.ok.inj h)).2
        · exact (Prod.mk.inj (Except.ok.inj h)).2
      have hends : EndsDigits r₁ q := by
        rintro rfl
        exact endsDigits_of_stops hq [] rfl
      rw [number_extended negative hwhole (wholePart_append hwhole hends) (fraction_extended hq)
        (exponent_extended hq), h]
      rfl

/-- A number with too many digits has too many when something follows with which no number
goes on. -/
theorem number_append_error {negative : Bool} {cs q : List Char} {fault : Fault}
    (h : number negative cs = .error fault) (hf : fault ≠ .malformed) (hq : Stops q) :
    number negative (cs ++ q) = .error fault := by
  cases hwhole : wholePart cs with
  | none =>
      simp only [number, hwhole, Except.error.injEq] at h
      exact absurd h.symm hf
  | some m =>
      rw [number_append_of_stops negative hwhole hq, h]
      rfl

/-! ### Words and numbers -/

/-- The words that are values. -/
def words : List (String × Json) :=
  [("null", .null), ("true", .bool true), ("false", .bool false), ("NaN", .float .nan),
    ("Infinity", .float (.infinite false)), ("-Infinity", .float (.infinite true))]

/-- A word is read as its value, and what stands behind it is left over. -/
theorem leaf_word {m : String × Json} (h : m ∈ words) (r : List Char) :
    leaf (m.1.toList ++ r) = .ok (m.2, r) := by
  simp only [words, List.mem_cons, List.not_mem_nil, or_false] at h
  rcases h with rfl | rfl | rfl | rfl | rfl | rfl <;> rfl

/-- A number behind its sign, if it has one. -/
def signedNumber (cs : List Char) : Reading Json :=
  match cs with
  | '-' :: r => number true r
  | _ => number false cs

/-- A text that begins with none of the words is read as a number, and is malformed if it is
none. -/
theorem leaf_of_noWord {cs : List Char} (h : ∀ m ∈ words, literal m.1 cs = none) :
    leaf cs = signedNumber cs := by
  have hnull := h _ (show ("null", Json.null) ∈ words by simp [words])
  have htrue := h _ (show ("true", Json.bool true) ∈ words by simp [words])
  have hfalse := h _ (show ("false", Json.bool false) ∈ words by simp [words])
  have hnan := h _ (show ("NaN", Json.float .nan) ∈ words by simp [words])
  have hinfinity := h _ (show ("Infinity", Json.float (.infinite false)) ∈ words by simp [words])
  have hnegative := h _ (show ("-Infinity", Json.float (.infinite true)) ∈ words by simp [words])
  simp only [leaf, hnull, htrue, hfalse, hnan, hinfinity, hnegative]
  rfl

/-- The sign in front of a negative number. -/
def signOf (negative : Bool) : List Char :=
  if negative then ['-'] else []

/-- A digit, with a sign in front or without, begins no word but a number. -/
theorem leaf_number (negative : Bool) {c : Char} (hc : c.isDigit = true) (r : List Char) :
    leaf (signOf negative ++ c :: r) = number negative (c :: r) := by
  have hne : ∀ d : Char, d.isDigit = false → d ≠ c := by
    rintro d hd rfl
    rw [hd] at hc
    cases hc
  have hword : ∀ m ∈ words, literal m.1 (signOf negative ++ c :: r) = none := by
    intro m hm
    simp only [words, List.mem_cons, List.not_mem_nil, or_false] at hm
    cases negative <;> rcases hm with rfl | rfl | rfl | rfl | rfl | rfl <;>
      simp [literal, signOf, afterLead?, hne]
  rw [leaf_of_noWord hword]
  cases negative with
  | true => rfl
  | false =>
      show signedNumber (c :: r) = number false (c :: r)
      unfold signedNumber
      split
      · rename_i hcut
        exact absurd (List.cons.inj hcut).1.symm (hne '-' (by decide))
      · rfl

/-- A number that is not malformed begins with a digit, even if it has too many of them. -/
theorem exists_digit_of_number {negative : Bool} {cs : List Char}
    (h : number negative cs ≠ .error .malformed) : ∃ c r, cs = c :: r ∧ c.isDigit = true := by
  cases hwhole : wholePart cs with
  | none =>
      simp only [number, hwhole] at h
      exact absurd rfl h
  | some m =>
      rcases (wholePart_eq_some_iff cs m.1 m.2).mp hwhole with ⟨rfl, -⟩ | ⟨-, hdigits, hne⟩
      · exact ⟨'0', m.2, rfl, by decide⟩
      · obtain ⟨rfl, hds, -⟩ := (digits_eq_iff _ _ _).mp hdigits
        obtain ⟨c, w, hw⟩ := List.exists_cons_of_ne_nil hne
        exact ⟨c, w ++ m.2, by rw [hw]; rfl, hds c (hw ▸ List.mem_cons_self)⟩

/-- What is not malformed begins with a word or is a number, that is, it begins with a digit
behind at most one minus. -/
theorem leaf_cases {cs : List Char} (h : leaf cs ≠ .error .malformed) :
    (∃ m ∈ words, ∃ r, cs = m.1.toList ++ r)
      ∨ ∃ negative c r, c.isDigit = true ∧ cs = signOf negative ++ c :: r := by
  by_cases hword : ∃ m ∈ words, ∃ r, cs = m.1.toList ++ r
  · exact .inl hword
  · have hnone : ∀ m ∈ words, literal m.1 cs = none := by
      intro m hm
      cases hr : literal m.1 cs with
      | none => rfl
      | some r => exact absurd ⟨m, hm, r, (literal_eq_some_iff _ _ _).mp hr⟩ hword
    rw [leaf_of_noWord hnone] at h
    unfold signedNumber at h
    right
    split at h
    · obtain ⟨c, r, rfl, hc⟩ := exists_digit_of_number h
      exact ⟨true, c, r, hc, rfl⟩
    · obtain ⟨c, r, rfl, hc⟩ := exists_digit_of_number h
      exact ⟨false, c, r, hc, rfl⟩

/-- What is read as a number is a number, whole or not, and no other kind of value. -/
theorem isNumber_of_number {negative : Bool} {cs r : List Char} {v : Json}
    (h : number negative cs = .ok (v, r)) : isNumber v = true := by
  cases hwhole : wholePart cs with
  | none => simp [number, hwhole] at h
  | some m =>
      simp only [number, hwhole] at h
      split at h
      · split at h
        · cases h
        · rw [← (Prod.mk.inj (Except.ok.inj h)).1]
          rfl
      · rw [← (Prod.mk.inj (Except.ok.inj h)).1]
        rfl

/-- A word or number is read again when more text follows, unless a number could go on there. -/
theorem leaf_append {cs r q : List Char} {v : Json} (h : leaf cs = .ok (v, r))
    (hq : isNumber v = true → Stops (r ++ q)) : leaf (cs ++ q) = .ok (v, r ++ q) := by
  have hne : leaf cs ≠ .error .malformed := by simp [h]
  rcases leaf_cases hne with ⟨m, hm, x, rfl⟩ | ⟨negative, c, x, hc, rfl⟩
  · rw [leaf_word hm, Except.ok.injEq, Prod.mk.injEq] at h
    obtain ⟨rfl, rfl⟩ := h
    rw [List.append_assoc, leaf_word hm]
  · rw [leaf_number negative hc] at h
    have hall := number_append h (hq (isNumber_of_number h))
    rw [List.append_assoc, List.cons_append, leaf_number negative hc]
    exact hall

/-- A limit that is passed is passed when something follows, as the digits that are too many
are still there. -/
theorem leaf_append_error {cs q : List Char} {fault : Fault} (h : leaf cs = .error fault)
    (hf : fault ≠ .malformed) (hq : Stops q) : leaf (cs ++ q) = .error fault := by
  have hne : leaf cs ≠ .error .malformed := by simpa [h] using hf
  rcases leaf_cases hne with ⟨m, hm, x, rfl⟩ | ⟨negative, c, x, hc, rfl⟩
  · rw [leaf_word hm] at h
    cases h
  · rw [leaf_number negative hc] at h
    have hall := number_append_error h hf hq
    rw [List.append_assoc, List.cons_append, leaf_number negative hc]
    exact hall

end SchemaAtlas.Json
