import Mathlib.Data.List.Infix
import SchemaAtlas.Suggestion.Payload
import SchemaAtlas.Proofs.Json.Reader
import SchemaAtlas.Proofs.Text.Case

/-!
# `SchemaAtlas.Proofs.Suggestion.Payload`: the object of a reply is found

A reply that holds the text of one object is searched in four ways, and each way but the last
looks at another piece of the reply. None of them may come up with a wrong object.

- Between fences there is the object's text, or, when a fence stands inside of one of its strings,
  a beginning of it. A beginning of an object is no object (`Json.read_of_prefix`).
- The whole reply is the object, or does not begin with a brace, or goes on behind the object.
- The first brace of the reply is where the object begins, and what follows does not matter to it
  (`Json.readValue_append_of_read`).

One thing can come in between. The whole reply is read from its first character on, and a prose
that begins with brackets or with a long number passes a limit of the reader; that ends the
search with a failure. `limit?` is this failure.
-/

set_option autoImplicit false

namespace SchemaAtlas

open SchemaAtlas.Text SchemaAtlas.Scan

/-! ### The end of a text -/

namespace Text

variable {p : Char → Bool}

/-- What is dropped at the end lies behind the last character that is kept. -/
theorem dropEndWhile_append {d : Char} (hd : p d = false) (cs q : List Char) :
    dropEndWhile p (cs ++ d :: q) = cs ++ d :: dropEndWhile p q := by
  unfold dropEndWhile
  rw [List.reverse_append, List.reverse_cons, List.append_assoc, List.dropWhile_append]
  cases hq : q.reverse.dropWhile p with
  | nil => simp [List.dropWhile_cons_of_neg, hd]
  | cons c r => simp

/-- Only characters of the kind are dropped, and only from the end. -/
theorem exists_dropEndWhile (p : Char → Bool) (cs : List Char) :
    ∃ b, (∀ c ∈ b, p c = true) ∧ cs = dropEndWhile p cs ++ b := by
  refine ⟨(cs.reverse.takeWhile p).reverse, ?_, ?_⟩
  · intro c hc
    exact List.mem_takeWhile_imp (List.mem_reverse.mp hc)
  · rw [dropEndWhile, ← List.reverse_append, List.takeWhile_append_dropWhile,
      List.reverse_reverse]

end Text

namespace Suggestion

/-- A text that begins with something else than a blank is trimmed at its end. -/
theorem trimmed_cons {c : Char} (hc : isBlank c = false) (cs : List Char) :
    trimmed (c :: cs) = c :: dropEndWhile isBlank cs := by
  rw [trimmed, skipBlanks_cons hc]
  exact dropEndWhile_append hc [] cs

/-! ### Fences -/

/-- What stands before the first fence, if there is one behind `cs`: a beginning of `cs`, if a
fence is in it. -/
theorem beforeFence_cases (cs r : List Char) :
    ∃ y, beforeFence (cs ++ '\n' :: (fence ++ r)) = some y
      ∧ ((∃ s, cs = y ++ (fence ++ s)) ∨ (¬fence <:+: cs ∧ y = cs ++ ['\n'])) := by
  induction cs with
  | nil => exact ⟨['\n'], rfl, .inr ⟨by decide, rfl⟩⟩
  | cons c cs ih =>
      rw [List.cons_append, beforeFence]
      -- the first fence begins here, or the rest of the text has it
      by_cases hfence : fence <+: c :: cs
      · have hall : fence <+: c :: (cs ++ '\n' :: (fence ++ r)) := by
          rw [← List.cons_append]
          exact hfence.trans (List.prefix_append _ _)
        rw [if_pos (List.isPrefixOf_iff_prefix.mpr hall)]
        obtain ⟨s, hs⟩ := hfence
        exact ⟨[], rfl, .inl ⟨s, hs.symm⟩⟩
      · have hall : ¬fence <+: c :: (cs ++ '\n' :: (fence ++ r)) := by
          rw [← List.cons_append]
          exact fun h => hfence (prefix_of_prefix_append h (by decide))
        rw [if_neg fun h => hall (List.isPrefixOf_iff_prefix.mp h)]
        obtain ⟨y, hy, hcases⟩ := ih
        refine ⟨c :: y, by rw [hy]; rfl, ?_⟩
        rcases hcases with ⟨s, rfl⟩ | ⟨hno, rfl⟩
        · exact .inl ⟨s, rfl⟩
        · refine .inr ⟨?_, rfl⟩
          rw [List.infix_cons_iff, not_or]
          exact ⟨hfence, hno⟩

/-- The mark behind a fence. -/
def mark : List Char := ['j', 's', 'o', 'n', '\n']

/-- Fences with a mark hold what comes behind the mark and the blanks after it, up to the
next fence. -/
theorem fenced_marked {cs y : List Char} (hcs : skipBlanks cs = cs)
    (h : beforeFence cs = some y) :
    fenced true (fence ++ (mark ++ cs)) = some (y, cs) := by
  have hlead : afterLead? fence (fence ++ (mark ++ cs)) = some (mark ++ cs) :=
    (afterLead?_eq_some_iff _ _ _).mpr rfl
  have hmark : skipMark (mark ++ cs) = some ('\n' :: cs) := rfl
  have hline : skipBlanks ('\n' :: cs) = cs := hcs
  simp [fenced, hlead, hmark, hline, h]

/-- Any fences hold what comes behind the first one, so they hold the mark as well. -/
theorem fenced_unmarked {cs y : List Char} (h : beforeFence cs = some y) :
    fenced false (fence ++ (mark ++ cs)) = some (mark ++ y, mark ++ cs) := by
  have hlead : afterLead? fence (fence ++ (mark ++ cs)) = some (mark ++ cs) :=
    (afterLead?_eq_some_iff _ _ _).mpr rfl
  have hblanks : skipBlanks (mark ++ cs) = mark ++ cs := rfl
  have hbefore : beforeFence (mark ++ cs) = some (mark ++ y) := by
    simp [mark, beforeFence, fence, h]
  simp [fenced, hlead, hblanks, hbefore]

/-- What stands between fences begins with a fence, marked or not, so a search passes by any
text without one. -/
theorem leads_fenced (marked : Bool) : Leads (· = fence) (fenced marked) := by
  intro cs m h
  simp only [fenced, Option.bind_eq_bind, Option.bind_eq_some_iff] at h
  obtain ⟨r, hr, -⟩ := h
  obtain rfl := (afterLead?_eq_some_iff _ _ _).mp hr
  exact ⟨fence, rfl, List.prefix_append _ _⟩

/-- The first fences are found behind a text without backticks, and what they hold is read
as an object. -/
theorem inFences_append {marked : Bool} {before cs y rest : List Char} (hbefore : '\x60' ∉ before)
    (h : fenced marked (fence ++ cs) = some (y, rest)) :
    inFences marked (before ++ (fence ++ cs)) = objectIn (trimmed y) := by
  have hquiet : Quiet (fenced marked) before :=
    quiet_of_notMem (leads_fenced marked) (fun _ hl => by rw [hl]; rfl) hbefore
  have hvalue := map_value_findFrom h (by simp [fence]) (0 + before.length)
  obtain ⟨m, hm, hmy⟩ := Option.map_eq_some_iff.mp hvalue
  rw [inFences, find?, findFrom_of_quiet hquiet, hm]
  simp only [hmy]

/-- Without a fence there is nothing between fences, and looking for it does not fail. -/
theorem inFences_of_noFence (marked : Bool) {cs : List Char} (h : ¬fence <:+: cs) :
    inFences marked cs = .ok none := by
  rw [inFences, find?, findFrom_eq_none (leads_fenced marked)]
  rintro _ rfl
  exact h

/-! ### Objects -/

/-- The limit of the reader that a reply passes when all of it is read as one value. -/
def limit? (reply : String) : Option Failure :=
  match Json.read (trimmed reply.toList) with
  | .ok _ => none
  | .error fault => failureOf? fault

/-- A text that is read as an object holds that object. -/
theorem objectIn_of_read {cs : List Char} {found : Payload}
    (h : Json.read cs = .ok (.object found)) :
    objectIn cs = .ok (some found) := by
  simp only [objectIn, h]

/-- A text that cannot be read holds no object, which is no failure: other attempts may
follow. -/
theorem objectIn_of_malformed {cs : List Char} (h : Json.read cs = .error .malformed) :
    objectIn cs = .ok none := by
  simp only [objectIn, h]
  rfl

/-- What counts as space between values is blank, so trimming takes it off as well. -/
theorem isBlank_of_isSpace {c : Char} (h : Json.isSpace c = true) : isBlank c = true := by
  simp only [Json.isSpace, Bool.or_eq_true, beq_iff_eq] at h
  rcases h with ((rfl | rfl) | rfl) | rfl <;> decide

/-- No number goes on with a blank, so blanks behind a value are not read as part of it. -/
theorem isNumberPart_of_isBlank {c : Char} (h : isBlank c = true) :
    Json.isNumberPart c = false := by
  have hdigit : c.isDigit = false := by
    cases hd : c.isDigit with
    | false => rfl
    | true =>
        have hword : isWord c = true := by
          simp [isWord, toNat_lt_of_isDigit hd, Char.isAlphanum, hd]
        rw [isBlank_of_isWord hword] at h
        cases h
  have hother : ∀ d ∈ ['.', 'e', 'E', '+', '-'], c ≠ d := by
    have hplain : (['.', 'e', 'E', '+', '-'].all fun d => !isBlank d) = true := by decide
    intro d hd
    exact ne_of_class h (by simpa using List.all_eq_true.mp hplain d hd)
  simp only [List.mem_cons, List.not_mem_nil, or_false, forall_eq_or_imp, forall_eq] at hother
  simp [Json.isNumberPart, hdigit, hother]

/-- A text that is read as an object begins with a brace, if it does not begin with a blank. -/
theorem eq_brace_of_read {c : Char} {cs : List Char} {found : Payload} (hc : isBlank c = false)
    (h : Json.read (c :: cs) = .ok (.object found)) : c = '\x7b' := by
  obtain ⟨r, hvalue, -⟩ := (Json.read_eq_ok_iff _ _).mp h
  have hspace : ¬Json.isSpace c = true := by
    intro hs
    rw [isBlank_of_isSpace hs] at hc
    cases hc
  rw [Json.skipSpace, List.dropWhile_cons_of_neg hspace] at hvalue
  obtain ⟨x, hx⟩ := Json.exists_of_value_object hvalue
  exact (List.cons.inj hx).1

/-- The first brace of a text begins the object that is read there. Nothing in front of it
is tried. -/
theorem embedded_append {before cs rest : List Char} {found : Payload} (hbefore : '\x7b' ∉ before)
    (h : Json.readValue ('\x7b' :: cs) = .ok (.object found, rest)) :
    embedded (before ++ '\x7b' :: cs) = .ok (some found) := by
  induction before with
  | nil =>
      rw [List.nil_append, embedded, if_pos rfl]
      simp only [h]
  | cons c before ih =>
      rw [List.mem_cons, not_or] at hbefore
      rw [List.cons_append, embedded, if_neg (Ne.symm hbefore.1)]
      exact ih hbefore.2

section Object

variable {x : List Char} {found : Payload}

/-- The characters of an object: a brace, others, and a brace. -/
def braced (x : List Char) : List Char := '\x7b' :: (x ++ ['\x7d'])

/-- Trimming what stands behind an object leaves the object, since a brace is no blank. -/
theorem trimmed_braced (x q : List Char) :
    trimmed (braced x ++ q) = braced x ++ dropEndWhile isBlank q := by
  have hsplit : braced x ++ q = '\x7b' :: (x ++ '\x7d' :: q) := by simp [braced]
  rw [hsplit, trimmed_cons (by decide), dropEndWhile_append (by decide)]
  simp [braced]

/-- The object is read where it begins, with anything behind it, and what stands behind it
is left. -/
theorem readValue_braced (h : Json.read (braced x) = .ok (.object found)) (q : List Char) :
    ∃ r, Json.readValue (braced x ++ q) = .ok (.object found, r ++ q) := by
  obtain ⟨r, -, hr⟩ := Json.readValue_append_of_read h q
  exact ⟨r, hr⟩

/-- When all of a reply is an object, the reply is the object in it and nothing else. -/
theorem eq_of_read_trimmed (h : Json.read (braced x) = .ok (.object found))
    {before after : List Char}
    (hbefore : '\x7b' ∉ before) {whole : Payload}
    (hwhole : Json.read (trimmed (before ++ (braced x ++ after))) = .ok (.object whole)) :
    whole = found := by
  obtain ⟨b, hb, hsplit, hhead⟩ := exists_skipBlanks before
  rw [hsplit, List.append_assoc] at hwhole
  cases hrest : skipBlanks before with
  | nil =>
      -- with nothing but blanks in front the reply begins like the object
      rw [hrest, List.nil_append, trimmed, skipBlanks_append hb] at hwhole
      change Json.read (trimmed (braced x ++ after)) = _ at hwhole
      rw [trimmed_braced] at hwhole
      obtain ⟨r, hvalue, -⟩ := (Json.read_eq_ok_iff _ _).mp hwhole
      obtain ⟨r', hr'⟩ := readValue_braced h (dropEndWhile isBlank after)
      change Json.readValue (braced x ++ dropEndWhile isBlank after) = _ at hvalue
      rw [hr'] at hvalue
      exact (Json.object.inj (Prod.mk.inj (Except.ok.inj hvalue)).1).symm
  | cons c y =>
      -- otherwise the reply begins with no brace
      have hc : isBlank c = false := by
        rw [hrest] at hhead
        exact hhead c rfl
      have hmem : c ∈ before := by
        rw [hsplit, hrest]
        simp
      rw [hrest, List.cons_append, trimmed, skipBlanks_append hb] at hwhole
      change Json.read (trimmed (c :: (y ++ (braced x ++ after)))) = _ at hwhole
      rw [trimmed_cons hc] at hwhole
      rw [eq_brace_of_read hc hwhole] at hmem
      exact absurd hmem hbefore

/-- Between fences there is the object, or a beginning of it that ends before a fence. -/
theorem objectIn_beforeFence (h : Json.read (braced x) = .ok (.object found))
    (after : List Char) :
    ∃ y, beforeFence (braced x ++ '\n' :: (fence ++ after)) = some y
      ∧ objectIn (trimmed y) = .ok (if fence <:+: braced x then none else some found) := by
  obtain ⟨y, hy, hcases⟩ := beforeFence_cases (braced x) after
  refine ⟨y, hy, ?_⟩
  rcases hcases with ⟨s, hs⟩ | ⟨hno, rfl⟩
  · rw [if_pos ⟨y, s, by rw [hs, List.append_assoc]⟩]
    cases y with
    | nil => exact absurd (List.cons.inj hs).1 (by decide)
    | cons c y =>
        obtain rfl : c = '\x7b' := (List.cons.inj hs).1.symm
        rw [trimmed_cons (by decide)]
        obtain ⟨b, hb, hsplit⟩ := exists_dropEndWhile isBlank y
        generalize dropEndWhile isBlank y = d at hsplit
        apply objectIn_of_malformed
        -- behind the beginning come the blanks that are trimmed, and the fence
        rw [hs, hsplit, List.cons_append, List.append_assoc] at h
        apply Json.read_of_prefix h
        · intro c hc
          cases b with
          | nil =>
              obtain rfl : '\x60' = c := by simpa [fence] using hc
              decide
          | cons e b =>
              obtain rfl : e = c := by simpa using hc
              exact isNumberPart_of_isBlank (hb e List.mem_cons_self)
        · intro hnil
          have hfence := ((Json.skipSpace_append_eq_nil_iff _ _).mp hnil).2
          exact absurd ((Json.skipSpace_append_eq_nil_iff _ _).mp hfence).1 (by decide)
  · rw [if_neg hno, trimmed_braced]
    have hline : dropEndWhile isBlank ['\n'] = [] := by decide
    rw [hline, List.append_nil]
    exact objectIn_of_read h

/-! ### Replies -/

/-- What the first two attempts leave is found by the other two, unless all of the reply passes
a limit. -/
theorem firstOf_last (h : Json.read (braced x) = .ok (.object found)) {before after : List Char}
    (hbefore : '\x7b' ∉ before) {reply : String}
    (hreply : reply.toList = before ++ (braced x ++ after)) :
    firstOf [fun _ => objectIn (trimmed reply.toList), fun _ => embedded reply.toList]
      = (limit? reply).elim (.ok (some found)) .error := by
  obtain ⟨r, hvalue⟩ := readValue_braced h after
  have hembedded : embedded reply.toList = .ok (some found) := by
    rw [hreply]
    exact embedded_append hbefore hvalue
  unfold limit?
  cases hread : Json.read (trimmed reply.toList) with
  | error fault =>
      cases hfault : failureOf? fault <;> simp [firstOf, objectIn, hread, hfault, hembedded]
  | ok v =>
      by_cases hv : ∃ whole, v = .object whole
      · -- what all of the reply reads as can only be the object in the braces
        obtain ⟨whole, rfl⟩ := hv
        rw [hreply] at hread
        obtain rfl := eq_of_read_trimmed h hbefore hread
        rw [← hreply] at hread
        simp [firstOf, objectIn, hread]
      · have hnone : objectIn (trimmed reply.toList) = .ok none := by
          simp only [objectIn, hread]
          split
          · rename_i whole hok
            exact absurd ⟨whole, Except.ok.inj hok⟩ hv
          · rfl
          · rename_i hok
            cases hok
        simp [firstOf, hnone, hembedded]

/-- An object between marked fences is found unless it has a fence inside. Then what stands
before that fence is tried, and the search goes on from the first brace. -/
theorem payload_fenced (h : Json.read (braced x) = .ok (.object found)) {before : List Char}
    (hbrace : '\x7b' ∉ before) (htick : '\x60' ∉ before) (after : List Char) {reply : String}
    (hreply : reply.toList
      = before ++ (fence ++ (mark ++ (braced x ++ '\n' :: (fence ++ after))))) :
    payload reply =
      if fence <:+: braced x then (limit? reply).elim (.ok (some found)) .error
      else .ok (some found) := by
  obtain ⟨y, hy, hobject⟩ := objectIn_beforeFence h after
  have hskip : skipBlanks (braced x ++ '\n' :: (fence ++ after))
      = braced x ++ '\n' :: (fence ++ after) := rfl
  have hmarked : inFences true reply.toList = objectIn (trimmed y) := by
    rw [hreply]
    exact inFences_append htick (fenced_marked hskip hy)
  unfold payload
  by_cases hfence : fence <:+: braced x
  · rw [if_pos hfence] at hobject ⊢
    -- the mark belongs to what any fences hold, and no value begins like it
    have hunmarked : inFences false reply.toList = .ok none := by
      rw [hreply, inFences_append htick (fenced_unmarked hy), mark, List.cons_append,
        trimmed_cons (by decide)]
      exact objectIn_of_malformed rfl
    have hlead : '\x7b' ∉ before ++ (fence ++ mark) := by
      rw [List.mem_append, not_or]
      exact ⟨hbrace, by decide⟩
    have hlast : reply.toList = before ++ (fence ++ mark)
        ++ (braced x ++ '\n' :: (fence ++ after)) := by
      simp only [hreply, List.append_assoc]
    rw [← firstOf_last h hlead hlast]
    simp only [firstOf, hmarked, hunmarked, hobject]
  · rw [if_neg hfence] at hobject ⊢
    simp only [firstOf, hmarked, hobject]

/-- An object amid prose is found at its first brace, if no fence is in the whole reply. -/
theorem payload_bare (h : Json.read (braced x) = .ok (.object found)) {before after : List Char}
    (hbrace : '\x7b' ∉ before) {reply : String}
    (hreply : reply.toList = before ++ (braced x ++ after))
    (hfence : ¬fence <:+: reply.toList) :
    payload reply = (limit? reply).elim (.ok (some found)) .error := by
  rw [← firstOf_last h hbrace hreply]
  unfold payload
  simp only [firstOf, inFences_of_noFence _ hfence]

end Object

/-- A text that begins and ends with its braces is some text in braces. -/
theorem exists_braced {t : String} (hopen : t.toList.head? = some '\x7b')
    (hclose : t.toList.getLast? = some '\x7d') : ∃ x, t.toList = braced x := by
  obtain ⟨y, hy⟩ := List.head?_eq_some_iff.mp hopen
  obtain ⟨z, hz⟩ := List.getLast?_eq_some_iff.mp hclose
  cases z with
  | nil =>
      rw [hy] at hz
      exact absurd (List.cons.inj hz).1 (by decide)
  | cons c z =>
      rw [hy] at hz
      obtain ⟨rfl, rfl⟩ := List.cons.inj hz
      exact ⟨z, hy⟩

/-- The object of a reply is found: between marked fences, behind a text with no brace and no
backtick in it and in front of any text, even if there are fences in the object's own strings;
and amid prose, behind a text with no brace, if there is no fence at all. Only a limit of the
reader that all of the reply passes can keep it from being found, and not even that if it stands
between fences and has none inside. -/
theorem payload_of_object (t : String) (found : Payload) (h : Json.parse t = .ok (.object found))
    (hopen : t.toList.head? = some '\x7b') (hclose : t.toList.getLast? = some '\x7d')
    (before after : String) (hbrace : '\x7b' ∉ before.toList) (reply : String) :
    (reply = before ++ "\x60\x60\x60json\n" ++ t ++ "\n\x60\x60\x60" ++ after →
      '\x60' ∉ before.toList →
      payload reply =
        if fence <:+: t.toList then (limit? reply).elim (.ok (some found)) .error
        else .ok (some found))
    ∧ (reply = before ++ t ++ after → ¬fence <:+: reply.toList →
      payload reply = (limit? reply).elim (.ok (some found)) .error) := by
  obtain ⟨x, hx⟩ := exists_braced hopen hclose
  rw [Json.parse, hx] at h
  have hmark : "\x60\x60\x60json\n".toList = fence ++ mark := rfl
  have hfence : "\n\x60\x60\x60".toList = '\n' :: fence := rfl
  constructor
  · intro hreply htick
    rw [hx]
    refine payload_fenced h hbrace htick after.toList ?_
    simp only [hreply, String.toList_append, hmark, hfence, hx]
    simp only [List.append_assoc, List.cons_append]
  · intro hreply hnone
    have hsplit : reply.toList = before.toList ++ (braced x ++ after.toList) := by
      simp only [hreply, String.toList_append, hx, List.append_assoc]
    exact payload_bare h hbrace hsplit hnone

/-- An object of one text is read, if a comparison of what is read says so; values as such are
not compared. -/
theorem parse_eq_of_single {s key text : String}
    (h : (match Json.parse s with
      | .ok (.object [(k, .string v)]) => k = key && v = text
      | _ => false) = true) : Json.parse s = .ok (.object [(key, .string text)]) := by
  split at h
  · rename_i k v hparse
    rw [Bool.and_eq_true, decide_eq_true_eq, decide_eq_true_eq] at h
    obtain ⟨rfl, rfl⟩ := h
    exact hparse
  · cases h

/-- An object with a fence in one of its strings, and an object amid prose. -/
theorem payload_of_object_fence_inside :
    payload ("Sure:\n" ++ "\x60\x60\x60json\n" ++ "\x7b\"a\": \"\x60\x60\x60\"\x7d"
      ++ "\n\x60\x60\x60" ++ " \x7b\x7d")
        = .ok (some [("a", .string "\x60\x60\x60")])
      ∧ payload ("[Sure] " ++ "\x7b\"a\": \"b\"\x7d" ++ ", done")
        = .ok (some [("a", .string "b")]) := by
  constructor
  · have hlimit : limit?
        ("Sure:\n" ++ "\x60\x60\x60json\n" ++ "\x7b\"a\": \"\x60\x60\x60\"\x7d"
          ++ "\n\x60\x60\x60"
        ++ " \x7b\x7d") = none := by decide +kernel
    have hparse : Json.parse "\x7b\"a\": \"\x60\x60\x60\"\x7d"
        = .ok (.object [("a", .string "\x60\x60\x60")]) :=
      parse_eq_of_single (by decide +kernel)
    -- without a limit both sides of the case distinction find the object
    have hpayload :=
      (payload_of_object _ _ hparse (by decide) (by decide) "Sure:\n" " \x7b\x7d" (by decide) _).1
      rfl (by decide)
    rw [hlimit, Option.elim_none, ite_self] at hpayload
    exact hpayload
  · have hlimit : limit? ("[Sure] " ++ "\x7b\"a\": \"b\"\x7d" ++ ", done") = none := by
      decide +kernel
    have hnone : ¬fence <:+: ("[Sure] " ++ "\x7b\"a\": \"b\"\x7d" ++ ", done").toList := by
      simp only [String.toList_append, String.reduceToList]
      decide
    have hparse : Json.parse "\x7b\"a\": \"b\"\x7d" = .ok (.object [("a", .string "b")]) :=
      parse_eq_of_single (by decide +kernel)
    have hpayload :=
      (payload_of_object _ _ hparse (by decide) (by decide) "[Sure] " ", done" (by decide) _).2
      rfl hnone
    rw [hlimit] at hpayload
    exact hpayload

end Suggestion

end SchemaAtlas
