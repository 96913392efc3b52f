import SchemaAtlas.Proofs.Scan.Search

/-!
# `SchemaAtlas.Proofs.Scan.Fence`: no further than a closing parenthesis

A recognizer that takes no closing parenthesis finds the same in front of one,
whatever comes behind it (`Fenced`). The small recognizers are of this kind, and so is
what is put together of them (`Fenced.bind`, `Stops.bind`). A search for such a
recognizer in a text that ends in a closing parenthesis depends on no more than this
text (`Fenced.firm`), and each match leaves the parenthesis over
(`Fenced.exists_rest_of_mem`).
-/

set_option autoImplicit false

namespace SchemaAtlas.Scan

open SchemaAtlas.Text

variable {α β : Type}

/-- Holds of a recognizer that does not look behind a closing parenthesis. -/
def Fenced (p : Recognizer α) : Prop :=
  ∀ y, ∃ found? : Option (α × List Char), ∀ r, p (y ++ ')' :: r) = found?.map fun m =>
    (m.1, m.2 ++ ')' :: r)

/-- The same of a recognizer that only goes past something. -/
def Stops (g : List Char → Option (List Char)) : Prop :=
  ∀ y, ∃ left? : Option (List Char), ∀ r, g (y ++ ')' :: r) = left?.map (· ++ ')' :: r)

/-! ### Small pieces -/

/-- A recognizer of a single character does not look behind a closing parenthesis, unless it
is the one that it looks for. -/
theorem stops_char {x : Char} (hx : x ≠ ')') : Stops (char x) := by
  intro y
  cases y with
  | nil => exact ⟨none, fun r => if_neg hx.symm⟩
  | cons c y =>
      by_cases hc : c = x
      · exact ⟨some y, fun r => if_pos hc⟩
      · exact ⟨none, fun r => if_neg hc⟩

/-- A recognizer of a fixed word does not look behind a closing parenthesis either, if the
word has none in it. -/
theorem stops_literal {s : String} (hs : ')' ∉ s.toList) : Stops (literal s) := by
  have hlead : ∀ lead : List Char, ')' ∉ lead → Stops (afterLead? lead) := by
    intro lead hlead
    induction lead with
    | nil => exact fun y => ⟨some y, fun r => rfl⟩
    | cons l lead ih =>
        obtain ⟨hl, hrest⟩ := not_or.mp (mt List.mem_cons.mpr hlead)
        intro y
        cases y with
        | nil => exact ⟨none, fun r => if_neg (Ne.symm hl)⟩
        | cons c y =>
            by_cases hc : l = c
            · obtain ⟨left?, hleft⟩ := ih hrest y
              exact ⟨left?, fun r => (if_pos hc).trans (hleft r)⟩
            · exact ⟨none, fun r => if_neg hc⟩
  exact hlead s.toList hs

section Class

variable {p : Char → Bool} (hp : p ')' = false)

include hp

/-- A run of characters of a kind ends at a closing parenthesis that is not of the kind. -/
theorem takeWhile_append_fence (y r : List Char) :
    (y ++ ')' :: r).takeWhile p = y.takeWhile p := by
  induction y with
  | nil => simp [hp]
  | cons c y ih =>
      rw [List.cons_append, List.takeWhile_cons, List.takeWhile_cons, ih]

/-- What is left behind such a run has the closing parenthesis in it, and everything behind
that. -/
theorem dropWhile_append_fence (y r : List Char) :
    (y ++ ')' :: r).dropWhile p = y.dropWhile p ++ ')' :: r := by
  induction y with
  | nil => simp [hp]
  | cons c y ih =>
      rw [List.cons_append, List.dropWhile_cons, List.dropWhile_cons, ih]
      split
      · rfl
      · rfl

/-- The longest run of characters of a kind ends at the closing parenthesis at the latest,
whatever comes behind it. -/
theorem fenced_run : Fenced (run p) := by
  intro y
  cases htake : y.takeWhile p with
  | nil =>
      refine ⟨none, fun r => ?_⟩
      rw [run, takeWhile_append_fence hp, htake]
      rfl
  | cons c w =>
      refine ⟨some (c :: w, y.dropWhile p), fun r => ?_⟩
      rw [run, takeWhile_append_fence hp, htake, dropWhile_append_fence hp]
      rfl

end Class

/-- Blanks are skipped up to the closing parenthesis at most, since that is no blank. -/
theorem skipBlanks_append_fence (y r : List Char) :
    skipBlanks (y ++ ')' :: r) = skipBlanks y ++ ')' :: r :=
  dropWhile_append_fence (by decide) y r

/-- A quote is found in front of a closing parenthesis or not at all, since the parenthesis
is no quote. -/
theorem fenced_quote : Fenced quote := by
  intro y
  cases y with
  | nil => exact ⟨none, fun r => rfl⟩
  | cons c y =>
      by_cases hc : isQuote c = true
      · exact ⟨some (c, y), fun r => if_pos hc⟩
      · exact ⟨none, fun r => if_neg hc⟩

/-! ### Put together -/

/-- What takes nothing off the text does not look at it, behind a parenthesis or before. -/
theorem fenced_pure (a : α) : Fenced fun cs => some (a, cs) :=
  fun y => ⟨some (a, y), fun _ => rfl⟩

/-- One such recognizer behind another is such a recognizer. The second one begins before
the parenthesis, where the first has stopped. -/
theorem Fenced.bind {p : Recognizer α} (hp : Fenced p) {k : α → Recognizer β}
    (hk : ∀ cs a r, p cs = some (a, r) → Fenced (k a)) :
    Fenced fun cs => (p cs).bind fun m => k m.1 m.2 := by
  intro y
  obtain ⟨found?, hfound⟩ := hp y
  cases found? with
  | none =>
      refine ⟨none, fun r => ?_⟩
      simp only [hfound r, Option.map_none, Option.bind_none]
  | some m =>
      obtain ⟨later?, hlater⟩ := hk _ m.1 _ (hfound []) m.2
      refine ⟨later?, fun r => ?_⟩
      simp only [hfound r, Option.map_some, Option.bind_some, hlater r]

/-- The same is so where the first one only goes past something. -/
theorem Stops.bind {g : List Char → Option (List Char)} (hg : Stops g) {p : Recognizer α}
    (hp : Fenced p) :
    Fenced fun cs => (g cs).bind p := by
  intro y
  obtain ⟨left?, hleft⟩ := hg y
  cases left? with
  | none =>
      refine ⟨none, fun r => ?_⟩
      simp only [hleft r, Option.map_none, Option.bind_none]
  | some z =>
      obtain ⟨found?, hfound⟩ := hp z
      refine ⟨found?, fun r => ?_⟩
      simp only [hleft r, Option.map_some, Option.bind_some, hfound r]

/-- Blanks may be skipped first, since they end before the closing parenthesis. -/
theorem Fenced.skipped {p : Recognizer α} (hp : Fenced p) :
    Fenced fun cs => p (skipBlanks cs) := by
  intro y
  obtain ⟨found?, hfound⟩ := hp (skipBlanks y)
  exact ⟨found?, fun r => by simp only [skipBlanks_append_fence, hfound r]⟩

/-- What is made of a match afterwards has no bearing on how far the recognizer looks. -/
theorem Fenced.map {p : Recognizer α} (hp : Fenced p) (f : α → β) :
    Fenced fun cs => (p cs).map fun m => (f m.1, m.2) := by
  intro y
  obtain ⟨found?, hfound⟩ := hp y
  refine ⟨found?.map fun m => (f m.1, m.2), fun r => ?_⟩
  simp only [hfound r, Option.map_map]
  rfl

/-- A name is such a run, so its recognizer does not look behind a closing parenthesis. -/
theorem fenced_name : Fenced name :=
  (fenced_run (by decide)).map String.ofList

/-- Neither does that of a quoted name: a quote, a name and the same quote, one behind the
other. -/
theorem fenced_quotedName : Fenced quotedName := by
  refine fenced_quote.bind
    (k := fun q cs => (name cs).bind fun m => (char q m.2).bind fun cs => some (m.1, cs)) ?_
  intro cs q r hq
  have hquote := ((quote_eq_some_iff _ _ _).mp hq).2
  refine fenced_name.bind (k := fun word cs => (char q cs).bind fun cs => some (word, cs))
    fun _ word _ _ => ?_
  exact (stops_char (ne_of_class hquote (by decide))).bind (fenced_pure word)

/-- Neither does that of a class as an argument, however its name is qualified. -/
theorem fenced_classArgument : Fenced classArgument := by
  -- a class is given by its constant or, failing that, by its quoted name
  have hconstant : Fenced classConstant :=
    (fenced_run (by decide)).bind
      (k := fun path cs => (literal "::class" cs).bind fun cs => some (shortClassName path, cs))
      fun _ path _ _ => (stops_literal (by decide)).bind (fenced_pure (shortClassName path))
  have hquoted : Fenced quotedClass :=
    fenced_quote.bind
      (k := fun _ cs =>
        (run isClassPart cs).bind fun m => (quote m.2).bind fun m' =>
          some (shortClassName m.1, m'.2))
      fun _ _ _ _ => (fenced_run (by decide)).bind
        (k := fun path cs => (quote cs).bind fun m => some (shortClassName path, m.2))
        fun _ path _ _ => fenced_quote.bind (k := fun _ cs => some (shortClassName path, cs))
          fun _ _ _ _ => fenced_pure (shortClassName path)
  intro y
  obtain ⟨found?, hfound⟩ := hconstant y
  cases found? with
  | some m => exact ⟨some m, fun r => by rw [classArgument, hfound r]; rfl⟩
  | none =>
      obtain ⟨found?, hother⟩ := hquoted y
      exact ⟨found?, fun r => by rw [classArgument, hfound r]; exact hother r⟩

/-! ### Readers -/

/-- Holds of a reader that makes the same of a text whatever comes behind a closing
parenthesis in it. -/
def Blind (f : List Char → β) : Prop :=
  ∀ y r r', f (y ++ ')' :: r) = f (y ++ ')' :: r')

/-- A reader that does not look at the text at all is blind to what comes behind a
parenthesis. -/
theorem blind_const (b : β) : Blind fun _ => b := fun _ _ _ => rfl

/-- What a recognizer of this kind says is blind, if it leaves the rest out. -/
theorem Fenced.blind {p : Recognizer α} (hp : Fenced p) :
    Blind fun cs => (p cs).map Prod.fst := by
  intro y r r'
  obtain ⟨found?, hfound⟩ := hp y
  simp only [hfound, Option.map_map]
  rfl

/-- Whether such a recognizer goes past something is read off what is in front of the
parenthesis. -/
theorem Stops.blind {g : List Char → Option (List Char)} (hg : Stops g) :
    Blind fun cs => (g cs).isNone := by
  intro y r r'
  obtain ⟨left?, hleft⟩ := hg y
  simp only [hleft, Option.isNone_map]

/-! ### Searching -/

/-- What ends a text that is not empty ends each of its ends: here, the closing
parenthesis. -/
theorem exists_of_suffix_fence {y z : List Char} (hne : y ≠ []) (hy : y <:+ z ++ [')']) :
    ∃ z', y = z' ++ [')'] := by
  obtain ⟨x, hx⟩ := hy
  rcases List.eq_nil_or_concat y with rfl | ⟨y, c, rfl⟩
  · exact absurd rfl hne
  · rw [List.concat_eq_append] at hx ⊢
    rw [← List.append_assoc] at hx
    obtain ⟨-, hc⟩ := List.append_inj' hx rfl
    exact ⟨y, by rw [hc]⟩

/-- What is found in a text that ends in a closing parenthesis does not depend on what
comes behind. -/
theorem Fenced.firm {p : Recognizer α} (hp : Fenced p) (z : List Char) : Firm p (z ++ [')']) := by
  intro y hne hy r
  obtain ⟨y, rfl⟩ := exists_of_suffix_fence hne hy
  obtain ⟨found?, hfound⟩ := hp y
  rw [List.append_assoc, List.singleton_append, hfound r, hfound [], Option.map_map]
  refine congrArg (found?.map ·) (funext fun m => ?_)
  simp

/-- Each match in a text that ends in a closing parenthesis leaves the parenthesis over, so
no match takes it. -/
theorem Fenced.exists_rest_of_mem {p : Recognizer α} (hp : Fenced p) {m : Match α} {i skip : Nat}
    {z : List Char}
    (h : m ∈ findAllFrom p i skip (z ++ [')'])) : ∃ z', m.rest = z' ++ [')'] := by
  induction z generalizing i skip with
  | nil =>
      cases skip with
      | succ skip => cases h
      | zero =>
          obtain ⟨found?, hfound⟩ := hp []
          have hone : p [')'] = found?.map fun m => (m.1, m.2 ++ [')']) := hfound []
          rw [List.nil_append, findAllFrom, hone] at h
          cases found? with
          | none => cases h
          | some a =>
              rcases List.mem_cons.mp h with rfl | h
              · exact ⟨a.2, rfl⟩
              · simp [findAllFrom] at h
  | cons c z ih =>
      rw [List.cons_append] at h
      cases skip with
      | succ skip => exact ih h
      | zero =>
          obtain ⟨found?, hfound⟩ := hp (c :: z)
          have hone : p (c :: (z ++ [')'])) = found?.map fun m => (m.1, m.2 ++ [')']) := hfound []
          rw [findAllFrom, hone] at h
          -- a match that begins here leaves the parenthesis over, and the others are found behind
          cases found? with
          | none => exact ih h
          | some a =>
              rcases List.mem_cons.mp h with rfl | h
              · exact ⟨a.2, rfl⟩
              · exact ih h

end SchemaAtlas.Scan
