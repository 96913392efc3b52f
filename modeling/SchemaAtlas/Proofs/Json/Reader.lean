import SchemaAtlas.Proofs.Json.Number

/-!
# `SchemaAtlas.Proofs.Json.Reader`: what is read does not depend on what follows

A value at the beginning of a text is read in the same way when more text
follows (`readingsExtend`). Only a number could go on in what follows, so for a
number what is behind it has to begin with no part of one. Arrays, objects and
texts have an end of their own and ask for nothing. A text that is refused
because a limit is passed is refused for the same limit when something follows
that no number goes on with. What is malformed may become a value, of course.

`Extends` says that of two readings. It is carried through values, items and
members by one induction on the fuel; the longer text may have more of it. For
each of the three, one lemma says what a step can do (`value_array`,
`items_cases`, `members_cases` and those beside them), and the induction uses
these alone.
-/

set_option autoImplicit false

namespace SchemaAtlas.Json

open SchemaAtlas.Scan SchemaAtlas.Text

/-! ### Space -/

/-- Space ends where it ended before, if there is something else than space in the first
text. -/
theorem skipSpace_append_of_cons {cs r : List Char} {c : Char} (h : skipSpace cs = c :: r)
    (q : List Char) :
    skipSpace (cs ++ q) = c :: (r ++ q) := by
  unfold skipSpace at h ⊢
  rw [List.dropWhile_append, h]
  rfl

/-- A text that is not all space is left with what stands behind its space, whatever follows
the text. -/
theorem skipSpace_append_of_ne_nil {cs : List Char} (h : skipSpace cs ≠ []) (q : List Char) :
    skipSpace (cs ++ q) = skipSpace cs ++ q := by
  obtain ⟨c, r, hcs⟩ := List.exists_cons_of_ne_nil h
  rw [skipSpace_append_of_cons hcs, hcs, List.cons_append]

/-- Two texts one after the other are all space exactly if each of them is. -/
theorem skipSpace_append_eq_nil_iff (cs q : List Char) :
    skipSpace (cs ++ q) = [] ↔ skipSpace cs = [] ∧ skipSpace q = [] := by
  simp only [skipSpace, List.dropWhile_eq_nil_iff, List.mem_append]
  constructor
  · intro h
    exact ⟨fun c hc => h c (.inl hc), fun c hc => h c (.inr hc)⟩
  · rintro ⟨hcs, hq⟩ c (hc | hc)
    · exact hcs c hc
    · exact hq c hc

/-- No number goes on behind one that something else than a part of it follows, with space
between or not. -/
theorem stops_of_skipSpace {r r' : List Char} {c : Char} (h : skipSpace r = c :: r')
    (hc : isNumberPart c = false) (q : List Char) : Stops (r ++ q) := by
  cases r with
  | nil => cases h
  | cons d r =>
      intro e he
      obtain rfl : d = e := by simpa using he
      by_cases hd : isSpace d = true
      · simp only [isSpace, Bool.or_eq_true, beq_iff_eq] at hd
        rcases hd with ((rfl | rfl) | rfl) | rfl <;> decide
      · rw [skipSpace, List.dropWhile_cons_of_neg hd] at h
        rw [(List.cons.inj h).1]
        exact hc

/-! ### Text -/

/-- A text ends with its closing quote, so what follows that quote has no part in it. -/
theorem textFrom_append {before body cs r : List Char} {high : Option Nat}
    (h : textFrom before high cs = some (body, r)) (q : List Char) :
    textFrom before high (cs ++ q) = some (body, r ++ q) := by
  fun_induction textFrom before high cs with
  | case1 => cases h
  | case2 => cases h
  | case3 before a b c d r' n hunit unit hlow ih =>
      simpa [textFrom, hunit, hlow] using ih h
  | case4 before a b c d r' n hunit unit hlow hhigh ih
  | case5 before a b c d r' n hunit unit hlow hhigh ih =>
      simpa [textFrom, hunit, hlow, hhigh] using ih h
  | case6 before a b c d r' n hunit hhigh ih | case7 before a b c d r' n hunit hhigh ih =>
      simpa [textFrom, hunit, hhigh] using ih h
  | case8 => cases h
  | case9 before high c r' hnot x hx ih =>
      -- the escape is a short one, so no `u` stands there that would take what follows along
      have hu : c ≠ 'u' := by
        rintro rfl
        have hnone : shortEscape? 'u' = none := by decide
        rw [hnone] at hx
        cases hx
      rw [List.cons_append, List.cons_append,
        textFrom.eq_3 _ _ _ _ fun _ _ _ _ _ hc _ => hu hc, hx]
      exact ih h
  | case10 before high r' hunit hshort =>
      obtain ⟨rfl, rfl⟩ := Prod.mk.inj (Option.some.inj h)
      rw [List.cons_append, textFrom.eq_4, if_pos rfl]
      · intro _ _ _ _ _ hc _
        exact absurd hc (by decide)
      · intro _ _ hc _
        exact absurd hc (by decide)
  | case11 => cases h
  | case12 before high c r' hunit hshort hquote hplain ih =>
      have hslash : c ≠ '\\' := by
        rintro rfl
        exact hplain rfl
      rw [List.cons_append, textFrom.eq_4, if_neg hquote, if_neg hplain]
      · exact ih h
      · intro _ _ _ _ _ hc _
        exact hslash hc
      · intro _ _ hc _
        exact hslash hc

/-- A text that is read is read in the same way when something follows, and that is left
over. -/
theorem text_append {cs r : List Char} {s : String} (h : text cs = .ok (s, r)) (q : List Char) :
    text (cs ++ q) = .ok (s, r ++ q) := by
  unfold text at h ⊢
  split at h
  · rename_i body r' hbody
    obtain ⟨rfl, rfl⟩ := Prod.mk.inj (Except.ok.inj h)
    rw [textFrom_append hbody]
  · cases h

/-- A text passes no limit: if it is not read, it is malformed. -/
theorem text_error {cs : List Char} {fault : Fault} (h : text cs = .error fault) :
    fault = .malformed := by
  unfold text at h
  split at h
  · cases h
  · exact (Except.error.inj h).symm

/-! ### What one step can do -/

/-- There is nothing to read in an empty text, and it is malformed. -/
theorem value_nil (n d : Nat) : value n d [] = .error .malformed := by
  cases n <;> rfl

/-- There are no items to read in an empty text: the array is not closed. -/
theorem items_nil (n d : Nat) (before : List Json) : items n d before [] = .error .malformed := by
  cases n with
  | zero => rfl
  | succ n => rw [items, value_nil]

/-- There are no members to read in an empty text: the object is not closed. -/
theorem members_nil (n d : Nat) (before : List (String × Json)) :
    members n d before [] = .error .malformed := by
  cases n <;> rfl

section Step

variable {n d : Nat} {x y z : List Char} {w : Json} {fault : Fault}

/-- Behind a quote a text is read, and what is behind the text is left over. -/
theorem value_text : value (n + 1) d ('"' :: x) = (text x).map fun m => (.string m.1, m.2) := rfl

/-- What begins like no text, no array and no object is a word or a number. -/
theorem value_leaf {cs : List Char} (h : ∀ c ∈ cs.head?, c ≠ '"' ∧ c ≠ '[' ∧ c ≠ '\x7b') :
    value (n + 1) d cs = leaf cs := by
  cases cs with
  | nil => rfl
  | cons c r =>
      obtain ⟨hquote, hbracket, hbrace⟩ := h c rfl
      rw [value.eq_5]
      · intro _ hx
        exact hquote (List.cons.inj hx).1
      · intro _ hx
        exact hbracket (List.cons.inj hx).1
      · intro _ hx
        exact hbrace (List.cons.inj hx).1

/-- At the greatest depth no array and no object may begin any more, whatever is in it. -/
theorem value_tooDeep (hd : maxDepth ≤ d) :
    value (n + 1) d ('[' :: x) = .error .tooDeep
      ∧ value (n + 1) d ('\x7b' :: x) = .error .tooDeep := by
  constructor
  · rw [value, if_pos hd]
  · rw [value, if_pos hd]

/-- Behind an opening bracket an array is empty, if the bracket is closed at once, or has
items, one step deeper. -/
theorem value_array (hd : ¬maxDepth ≤ d) :
    value (n + 1) d ('[' :: x) =
      if (skipSpace x).head? = some ']' then .ok (.array [], (skipSpace x).tail)
      else items n (d + 1) [] (skipSpace x) := by
  rw [value, if_neg hd]
  split
  · rename_i hclose
    simp [hclose]
  · rename_i hopen
    have hne : ¬(skipSpace x).head? = some ']' := by
      intro hhead
      obtain ⟨y, hy⟩ := List.head?_eq_some_iff.mp hhead
      exact hopen y hy
    rw [if_neg hne]

/-- Behind an opening brace an object is empty, if the brace is closed at once, or has
members, one step deeper. -/
theorem value_object (hd : ¬maxDepth ≤ d) :
    value (n + 1) d ('\x7b' :: x) =
      if (skipSpace x).head? = some '\x7d' then .ok (.object [], (skipSpace x).tail)
      else members n (d + 1) [] (skipSpace x) := by
  rw [value, if_neg hd]
  split
  · rename_i hclose
    simp [hclose]
  · rename_i hopen
    have hne : ¬(skipSpace x).head? = some '\x7d' := by
      intro hhead
      obtain ⟨y, hy⟩ := List.head?_eq_some_iff.mp hhead
      exact hopen y hy
    rw [if_neg hne]

variable {cs : List Char} {before : List Json} {found : List (String × Json)} {key : String}

/-- Items cannot be read if the first of them cannot, and for the same reason. -/
theorem items_error (h : value n d cs = .error fault) :
    items (n + 1) d before cs = .error fault := by
  rw [items, h]

/-- Behind an item and a comma there are further items, without limit. -/
theorem items_comma (h : value n d cs = .ok (w, x)) (hx : skipSpace x = ',' :: y) :
    items (n + 1) d before cs = items n d (w :: before) (skipSpace y) := by
  rw [items, h]
  simp only [hx]

/-- Behind an item and a closing bracket the array is complete, with the items in the order
in which they were read. -/
theorem items_close (h : value n d cs = .ok (w, x)) (hx : skipSpace x = ']' :: y) :
    items (n + 1) d before cs = .ok (.array (w :: before).reverse, y) := by
  rw [items, h]
  simp only [hx]

/-- Items that are not malformed begin with a value, and a comma or the bracket follows it. -/
theorem items_cases (h : items (n + 1) d before cs ≠ .error .malformed) :
    (∃ fault, value n d cs = .error fault)
      ∨ ∃ w x y, value n d cs = .ok (w, x)
        ∧ (skipSpace x = ',' :: y ∨ skipSpace x = ']' :: y) := by
  rw [items] at h
  split at h
  · exact .inl ⟨_, ‹_›⟩
  · right
    split at h
    · exact ⟨_, _, _, ‹_›, .inl ‹_›⟩
    · exact ⟨_, _, _, ‹_›, .inr ‹_›⟩
    · exact absurd rfl h

/-- Members cannot be read if the value behind the first key cannot, and for the same
reason. -/
theorem members_error (hkey : text x = .ok (key, y)) (hy : skipSpace y = ':' :: z)
    (h : value n d (skipSpace z) = .error fault) :
    members (n + 1) d found ('"' :: x) = .error fault := by
  rw [members, hkey]
  simp only [hy, h]

/-- Behind a member and a comma there are further members. A key that was there before keeps
its place and has the new value. -/
theorem members_comma (hkey : text x = .ok (key, y)) (hy : skipSpace y = ':' :: z)
    {u v : List Char}
    (h : value n d (skipSpace z) = .ok (w, u)) (hu : skipSpace u = ',' :: v) :
    members (n + 1) d found ('"' :: x) = members n d (Catalog.setEntry key w found)
      (skipSpace v) := by
  rw [members, hkey]
  simp only [hy, h, hu]

/-- Behind a member and a closing brace the object is complete. -/
theorem members_close (hkey : text x = .ok (key, y)) (hy : skipSpace y = ':' :: z)
    {u v : List Char}
    (h : value n d (skipSpace z) = .ok (w, u)) (hu : skipSpace u = '\x7d' :: v) :
    members (n + 1) d found ('"' :: x) = .ok (.object (Catalog.setEntry key w found), v) := by
  rw [members, hkey]
  simp only [hy, h, hu]

/-- Members that are not malformed begin with a key and a value, and a comma or the brace
follows it. -/
theorem members_cases (h : members (n + 1) d found cs ≠ .error .malformed) :
    ∃ x key y z, cs = '"' :: x ∧ text x = .ok (key, y) ∧ skipSpace y = ':' :: z
      ∧ ((∃ fault, value n d (skipSpace z) = .error fault)
        ∨ ∃ w u v, value n d (skipSpace z) = .ok (w, u)
          ∧ (skipSpace u = ',' :: v ∨ skipSpace u = '\x7d' :: v)) := by
  unfold members at h
  split at h
  · split at h
    · rename_i hkey
      rw [text_error hkey] at h
      exact absurd rfl h
    · split at h
      · refine ⟨_, _, _, _, rfl, ‹_›, ‹_›, ?_⟩
        split at h
        · exact .inl ⟨_, ‹_›⟩
        · right
          simp only at h
          split at h
          · exact ⟨_, _, _, ‹_›, .inl ‹_›⟩
          · exact ⟨_, _, _, ‹_›, .inr ‹_›⟩
          · exact absurd rfl h
      · exact absurd rfl h
  · exact absurd rfl h

end Step

/-! ### What is read, with more text behind it -/

/-- Holds of two readings, of a text and of that text with `q` behind it, when the second is the
first with more left. A number asks that none goes on behind it, and a limit that none goes on
in `q`. What is malformed may become anything. -/
structure Extends (q : List Char) (a b : Reading Json) : Prop where
  ok : ∀ v r, a = .ok (v, r) → (isNumber v = true → Stops (r ++ q)) → b = .ok (v, r ++ q)
  error : ∀ fault, a = .error fault → fault ≠ .malformed → Stops q → b = .error fault

/-- The same of readings that end with a character of their own, and so leave no number open. -/
structure ExtendsClosed (q : List Char) (a b : Reading Json) : Prop where
  ok : ∀ v r, a = .ok (v, r) → b = .ok (v, r ++ q)
  error : ∀ fault, a = .error fault → fault ≠ .malformed → Stops q → b = .error fault

section Extends

variable {q : List Char} {a b : Reading Json}

/-- A reading that has an end of its own is, all the more, one that is extended by what does
not go on with it. -/
theorem ExtendsClosed.extends (h : ExtendsClosed q a b) : Extends q a b :=
  ⟨fun v r hv _ => h.ok v r hv, h.error⟩

/-- A failed reading is extended if it fails in the same way, unless it was malformed or the
text behind goes on with it. -/
theorem extendsClosed_of_error {fault : Fault}
    (h : fault ≠ .malformed → Stops q → b = .error fault) :
    ExtendsClosed q (.error fault) b := by
  constructor
  · intro _ _ hv
    cases hv
  · rintro _ ⟨⟩ hf hq
    exact h hf hq

/-- A malformed text promises nothing about what it becomes with a text behind it. -/
theorem extendsClosed_malformed : ExtendsClosed q (.error .malformed) b :=
  extendsClosed_of_error fun hf => absurd rfl hf

/-- A limit that is passed with and without a text behind is a reading extended. -/
theorem extendsClosed_error (fault : Fault) : ExtendsClosed q (.error fault) (.error fault) :=
  extendsClosed_of_error fun _ _ => rfl

/-- A value that is read with and without a text behind, and leaves this text over, is a
reading extended. -/
theorem extendsClosed_ok (v : Json) (r : List Char) :
    ExtendsClosed q (.ok (v, r)) (.ok (v, r ++ q)) := by
  constructor
  · intro v' r' h
    obtain ⟨rfl, rfl⟩ := Prod.mk.inj (Except.ok.inj h)
    rfl
  · intro _ h
    cases h

/-- What has no parts is read in the same way with a text behind it, if no number goes on
with that text. -/
theorem extends_leaf (cs q : List Char) : Extends q (leaf cs) (leaf (cs ++ q)) := by
  constructor
  · intro v r h hq
    exact leaf_append h hq
  · intro fault h hf hq
    exact leaf_append_error h hf hq

/-- An array or object is as before, empty or not, when what is inside of it is. -/
theorem extendsClosed_inside {f g : List Char → Reading Json} (hnil : f [] = .error .malformed)
    (h : ∀ y, ExtendsClosed q (f y) (g (y ++ q))) (v : Json) (close : Char) (x : List Char) :
    ExtendsClosed q
      (if (skipSpace x).head? = some close then .ok (v, (skipSpace x).tail) else f (skipSpace x))
      (if (skipSpace (x ++ q)).head? = some close then .ok (v, (skipSpace (x ++ q)).tail)
        else g (skipSpace (x ++ q))) := by
  cases hx : skipSpace x with
  | nil =>
      rw [if_neg (by simp), hnil]
      exact extendsClosed_malformed
  | cons c y =>
      rw [skipSpace_append_of_cons hx, List.head?_cons, List.head?_cons]
      by_cases hc : some c = some close
      · rw [if_pos hc, if_pos hc]
        exact extendsClosed_ok v y
      · rw [if_neg hc, if_neg hc]
        exact h (c :: y)

end Extends

/-- Holds when `value` reads with some fuel as it does with no less fuel when more text
follows. -/
def ValueExtends (n : Nat) : Prop :=
  ∀ m, n ≤ m → ∀ d cs q, Extends q (value n d cs) (value m d (cs ++ q))

/-- The same for `items`. -/
def ItemsExtend (n : Nat) : Prop :=
  ∀ m, n ≤ m → ∀ d before cs q, ExtendsClosed q (items n d before cs) (items m d before (cs ++ q))

/-- The same for `members`. -/
def MembersExtend (n : Nat) : Prop :=
  ∀ m, n ≤ m → ∀ d before cs q,
    ExtendsClosed q (members n d before cs) (members m d before (cs ++ q))

/-- Values with one step more to go are extended if items and members are: an array or
object is read through them, and the rest has no parts. -/
theorem valueExtends_succ {n : Nat} (hitems : ItemsExtend n) (hmembers : MembersExtend n) :
    ValueExtends (n + 1) := by
  intro m hm d cs q
  obtain ⟨m, rfl⟩ : ∃ k, m = k + 1 := ⟨m - 1, by omega⟩
  have hle : n ≤ m := by omega
  -- the first character tells how a value is read, and it is the same with more text behind
  cases cs with
  | nil =>
      rw [value_nil]
      exact extendsClosed_malformed.extends
  | cons c x =>
      rw [List.cons_append]
      by_cases hquote : c = '"'
      · rw [hquote, value_text, value_text]
        cases htext : text x with
        | error fault =>
            rw [text_error htext]
            exact extendsClosed_malformed.extends
        | ok found =>
            rw [text_append htext]
            exact (extendsClosed_ok _ found.2).extends
      by_cases hbracket : c = '['
      · rw [hbracket]
        by_cases hd : maxDepth ≤ d
        · rw [(value_tooDeep hd).1, (value_tooDeep hd).1]
          exact (extendsClosed_error _).extends
        · rw [value_array hd, value_array hd]
          exact (extendsClosed_inside (items_nil n _ _) (fun y => hitems m hle _ _ y q)
            _ _ x).extends
      by_cases hbrace : c = '\x7b'
      · rw [hbrace]
        by_cases hd : maxDepth ≤ d
        · rw [(value_tooDeep hd).2, (value_tooDeep hd).2]
          exact (extendsClosed_error _).extends
        · rw [value_object hd, value_object hd]
          exact (extendsClosed_inside (members_nil n _ _) (fun y => hmembers m hle _ _ y q)
            _ _ x).extends
      have hleaf : ∀ y, ∀ e ∈ (c :: y).head?, e ≠ '"' ∧ e ≠ '[' ∧ e ≠ '\x7b' := by
        intro y e he
        obtain rfl : c = e := by simpa using he
        exact ⟨hquote, hbracket, hbrace⟩
      rw [value_leaf (hleaf x), value_leaf (hleaf _)]
      exact extends_leaf (c :: x) q

/-- Items with one step more to go are extended if values and items are, by the three ways
in which they go on. -/
theorem itemsExtend_succ {n : Nat} (hvalue : ValueExtends n) (hitems : ItemsExtend n) :
    ItemsExtend (n + 1) := by
  intro m hm d before cs q
  obtain ⟨m, rfl⟩ : ∃ k, m = k + 1 := ⟨m - 1, by omega⟩
  have hle : n ≤ m := by omega
  by_cases hne : items (n + 1) d before cs = .error .malformed
  · rw [hne]
    exact extendsClosed_malformed
  have hfirst := hvalue m hle d cs q
  rcases items_cases hne with ⟨fault, hv⟩ | ⟨w, x, y, hv, hx | hx⟩
  · rw [items_error hv]
    exact extendsClosed_of_error fun hf hq => items_error (hfirst.error fault hv hf hq)
  · -- the comma behind the value ends a number, and the other items follow
    have hv' := hfirst.ok w x hv fun _ => stops_of_skipSpace hx (by decide) q
    have hy : skipSpace y ≠ [] := by
      intro hnil
      rw [items_comma hv hx, hnil, items_nil] at hne
      exact hne rfl
    rw [items_comma hv hx, items_comma hv' (skipSpace_append_of_cons hx q),
      skipSpace_append_of_ne_nil hy]
    exact hitems m hle _ _ _ q
  · have hv' := hfirst.ok w x hv fun _ => stops_of_skipSpace hx (by decide) q
    rw [items_close hv hx, items_close hv' (skipSpace_append_of_cons hx q)]
    exact extendsClosed_ok _ y

/-- Members with one step more to go are extended if values and members are, by the three
ways in which they go on. -/
theorem membersExtend_succ {n : Nat} (hvalue : ValueExtends n) (hmembers : MembersExtend n) :
    MembersExtend (n + 1) := by
  intro m hm d found cs q
  obtain ⟨m, rfl⟩ : ∃ k, m = k + 1 := ⟨m - 1, by omega⟩
  have hle : n ≤ m := by omega
  by_cases hne : members (n + 1) d found cs = .error .malformed
  · rw [hne]
    exact extendsClosed_malformed
  obtain ⟨x, key, y, z, rfl, hkey, hy, hcases⟩ := members_cases hne
  -- the key and the colon are read as before
  have hkey' := text_append hkey q
  have hy' := skipSpace_append_of_cons hy q
  have hz : skipSpace z ≠ [] := by
    intro hnil
    have hv := value_nil n d
    rw [← hnil] at hv
    exact hne (members_error hkey hy hv)
  have hfirst := hvalue m hle d (skipSpace z) q
  rw [← skipSpace_append_of_ne_nil hz] at hfirst
  rw [List.cons_append]
  rcases hcases with ⟨fault, hv⟩ | ⟨w, u, u', hv, hu | hu⟩
  · rw [members_error hkey hy hv]
    exact extendsClosed_of_error fun hf hq =>
      members_error hkey' hy' (hfirst.error fault hv hf hq)
  · have hv' := hfirst.ok w u hv fun _ => stops_of_skipSpace hu (by decide) q
    have hu' : skipSpace u' ≠ [] := by
      intro hnil
      rw [members_comma hkey hy hv hu, hnil, members_nil] at hne
      exact hne rfl
    rw [members_comma hkey hy hv hu, members_comma hkey' hy' hv' (skipSpace_append_of_cons hu q),
      skipSpace_append_of_ne_nil hu']
    exact hmembers m hle _ _ _ q
  · have hv' := hfirst.ok w u hv fun _ => stops_of_skipSpace hu (by decide) q
    rw [members_close hkey hy hv hu, members_close hkey' hy' hv' (skipSpace_append_of_cons hu q)]
    exact extendsClosed_ok _ u'

/-- What is read does not depend on what follows. This holds of values, items and members at
once, by induction on the steps that reading may take. -/
theorem readingsExtend (n : Nat) : ValueExtends n ∧ ItemsExtend n ∧ MembersExtend n := by
  induction n with
  | zero =>
      refine ⟨?_, ?_, ?_⟩
      · intro m _ d cs q
        exact extendsClosed_malformed.extends
      · intro m _ d before cs q
        exact extendsClosed_malformed
      · intro m _ d before cs q
        exact extendsClosed_malformed
  | succ n ih =>
      obtain ⟨hvalue, hitems, hmembers⟩ := ih
      exact ⟨valueExtends_succ hitems hmembers, itemsExtend_succ hvalue hitems,
        membersExtend_succ hvalue hmembers⟩

/-! ### Objects -/

/-- Only an array is read behind an opening bracket, so an object is not to be found
there. -/
theorem ne_object_of_items {n d : Nat} {before : List Json} {cs r : List Char} {v : Json}
    (h : items n d before cs = .ok (v, r)) (found : List (String × Json)) :
    v ≠ .object found := by
  induction n generalizing before cs with
  | zero => cases h
  | succ n ih =>
      have hne : items (n + 1) d before cs ≠ .error .malformed := by simp [h]
      rcases items_cases hne with ⟨fault, hv⟩ | ⟨w, x, y, hv, hx | hx⟩
      · rw [items_error hv] at h
        cases h
      · rw [items_comma hv hx] at h
        exact ih h
      · rw [items_close hv hx] at h
        rw [← (Prod.mk.inj (Except.ok.inj h)).1]
        simp

/-- What has no parts is a word or a number, and neither of them is an object. -/
theorem ne_object_of_leaf {cs r : List Char} {v : Json} (h : leaf cs = .ok (v, r))
    (found : List (String × Json)) : v ≠ .object found := by
  have hne : leaf cs ≠ .error .malformed := by simp [h]
  rcases leaf_cases hne with ⟨m, hm, x, rfl⟩ | ⟨negative, c, x, hc, rfl⟩
  · rw [leaf_word hm] at h
    rw [← (Prod.mk.inj (Except.ok.inj h)).1]
    have hwords : ∀ m ∈ words, m.2 ≠ .object found := by simp [words]
    exact hwords m hm
  · rw [leaf_number negative hc] at h
    rintro rfl
    cases isNumber_of_number h

/-- An object begins with a brace, so a text that begins otherwise is not read as one. -/
theorem exists_of_value_object {n d : Nat} {cs r : List Char} {found : List (String × Json)}
    (h : value n d cs = .ok (.object found, r)) : ∃ x, cs = '\x7b' :: x := by
  cases n with
  | zero => cases h
  | succ n =>
      by_contra hbrace
      cases cs with
      | nil => cases h
      | cons c x =>
          -- what begins otherwise is a text, an array or a leaf, none of which is an object
          by_cases hquote : c = '"'
          · rw [hquote, value_text] at h
            cases htext : text x <;> simp [htext, Except.map] at h
          by_cases hbracket : c = '['
          · rw [hbracket] at h
            by_cases hd : maxDepth ≤ d
            · rw [(value_tooDeep hd).1] at h
              cases h
            · rw [value_array hd] at h
              split at h
              · cases h
              · exact ne_object_of_items h found rfl
          · rw [value_leaf] at h
            · exact ne_object_of_leaf h found rfl
            · intro e he
              obtain rfl : c = e := by simpa using he
              exact ⟨hquote, hbracket, fun hc => hbrace ⟨x, by rw [hc]⟩⟩

/-- What begins with a brace has an end of its own: with anything behind it, it is read in
the same way or fails in the same way. -/
theorem readValue_append (x q : List Char) :
    ExtendsClosed q (readValue ('\x7b' :: x)) (readValue ('\x7b' :: (x ++ q))) := by
  have hd : ¬maxDepth ≤ 0 := by decide
  have hle : 2 * ('\x7b' :: x).length + 1 ≤ 2 * ('\x7b' :: (x ++ q)).length + 1 := by
    simp only [List.length_cons, List.length_append]
    omega
  unfold readValue
  rw [value_object hd, value_object hd]
  exact extendsClosed_inside (members_nil _ _ _)
    (fun y => (readingsExtend _).2.2 _ hle _ _ y q) _ _ x

/-! ### Whole texts -/

/-- A text that is read is a value with nothing but space in front of it and behind it. -/
theorem read_eq_ok_iff (cs : List Char) (v : Json) :
    read cs = .ok v ↔ ∃ r, readValue (skipSpace cs) = .ok (v, r) ∧ skipSpace r = [] := by
  unfold read
  split
  · rename_i hvalue
    simp [hvalue]
  · rename_i hvalue
    simp only [hvalue, List.isEmpty_iff, Except.ok.injEq, Prod.mk.injEq]
    constructor
    · intro h
      split at h
      · exact ⟨_, ⟨Except.ok.inj h, rfl⟩, ‹_›⟩
      · cases h
    · rintro ⟨_, ⟨rfl, rfl⟩, hr⟩
      rw [if_pos hr]

/-- Space does not begin with a brace, so a text that does is read from its first character
on. -/
theorem skipSpace_brace (x : List Char) : skipSpace ('\x7b' :: x) = '\x7b' :: x := rfl

/-- An object is read where it begins, whatever follows it. What is left over then is the
space behind it and what follows. -/
theorem readValue_append_of_read {x : List Char} {v : Json} (h : read ('\x7b' :: x) = .ok v)
    (q : List Char) :
    ∃ r, skipSpace r = [] ∧ readValue ('\x7b' :: (x ++ q)) = .ok (v, r ++ q) := by
  obtain ⟨r, hvalue, hr⟩ := (read_eq_ok_iff _ _).mp h
  exact ⟨r, hr, (readValue_append x q).ok v r hvalue⟩

/-- The beginning of an object is none, if it is broken off where a number ends. -/
theorem read_of_prefix {x q : List Char} {v : Json} (h : read ('\x7b' :: (x ++ q)) = .ok v)
    (hq : Stops q)
    (hmore : skipSpace q ≠ []) : read ('\x7b' :: x) = .error .malformed := by
  obtain ⟨r, hvalue, hr⟩ := (read_eq_ok_iff _ _).mp h
  rw [skipSpace_brace] at hvalue
  have hextends := readValue_append x q
  cases hpart : readValue ('\x7b' :: x) with
  | error fault =>
      have hfault : fault = .malformed := by
        by_contra hf
        rw [hextends.error fault hpart hf hq] at hvalue
        cases hvalue
      unfold read
      rw [skipSpace_brace, hpart, hfault]
  | ok m =>
      -- the whole would be read as this value, with `q` left over
      rw [hextends.ok m.1 m.2 hpart] at hvalue
      obtain rfl := (Prod.mk.inj (Except.ok.inj hvalue)).2
      exact absurd ((skipSpace_append_eq_nil_iff m.2 q).mp hr).2 hmore

end SchemaAtlas.Json
