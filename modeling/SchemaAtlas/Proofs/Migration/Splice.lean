import Mathlib.Data.List.Basic
import SchemaAtlas.Migration.WriteBack
import SchemaAtlas.Proofs.Migration.TableCalls

/-!
# `SchemaAtlas.Proofs.Migration.Splice`: a text cut at a closure

A text is cut at the brace that opens a closure (`OpenedAt`) and at the one
that closes it (`ClosedAt`). Both braces are code, so the comments of the text
are the same before, between and behind them, whatever is written in between.
-/

set_option autoImplicit false

namespace SchemaAtlas.Migration

open SchemaAtlas.Scan SchemaAtlas.Text

/-! ### The opening brace -/

/-- A text cut at the brace that opens a closure. The quotes are in state `q`
behind the brace, in the eyes of the masking. -/
structure OpenedAt (text : List Char) (m : Match Head) (q : Quotes) (before inside : List Char) :
    Prop where
  cut : text = before ++ '{' :: inside
  stop : m.stop = before.length + 1
  head : ∃ used, HeadText m.value used ∧ used <:+ mask before ++ ['{']
  masking : ∀ t, mask (before ++ '{' :: t) = mask before ++ '{' :: maskFrom (.code q) t
  quotes : Quotes.outside.over (mask before ++ ['{']) = q
  rest : m.rest = maskFrom (.code q) inside

/-- A head ends with an opening brace, and what stands before that brace ends in one of the
texts that are recognized. -/
theorem exists_brace_of_mem {masked : List Char} {m : Match Head} (hm : m ∈ findAll head masked) :
    ∃ x, masked = x ++ '{' :: m.rest ∧ m.stop = x.length + 1
      ∧ ∃ used, HeadText m.value used ∧ used <:+ x ++ ['{'] := by
  obtain ⟨x, used, hcut, hstart, hstop, -, -, hhead⟩ := exists_of_mem_findAllFrom consumes_head hm
  obtain ⟨used', hu, heq⟩ := headText_of_head hhead
  obtain rfl := List.append_cancel_right heq
  obtain ⟨u, rfl, -, -⟩ := hu.guarded
  refine ⟨x ++ u, by rw [hcut]; simp, ?_, u ++ ['{'], hu, ?_⟩
  · simp only [List.length_append, List.length_cons, List.length_nil] at hstop ⊢
    omega
  · rw [List.append_assoc]
    exact List.suffix_append x _

/-- The masked text from the brace of a head on is that brace and the rest behind the
head. -/
theorem drop_of_mem_findAll {masked : List Char} {m : Match Head} (hm : m ∈ findAll head masked) :
    masked.drop (m.stop - 1) = '{' :: m.rest := by
  obtain ⟨x, hcut, hstop, -⟩ := exists_brace_of_mem hm
  rw [hstop, Nat.add_sub_cancel, hcut, List.drop_left]

/-- In the masked text, an opening brace stands right before the place where a head ends. -/
theorem getElem?_of_mem_findAll {masked : List Char} {m : Match Head}
    (hm : m ∈ findAll head masked) :
    masked[m.stop - 1]? = some '{' := by
  have hbrace : (masked.drop (m.stop - 1))[0]? = some '{' := by
    rw [drop_of_mem_findAll hm]
    rfl
  rwa [List.getElem?_drop] at hbrace

/-- The brace of a head is read as code, because in a comment it would have been blanked
out. -/
theorem exists_region_of_mem {text : List Char} {m : Match Head}
    (hm : m ∈ findAll head (mask text)) :
    ∃ q, (regions text)[m.stop - 1]? = some (.code q) :=
  (code_of_maskFrom_getElem? _ _ _ _ (getElem?_of_mem_findAll hm) (by decide) (by decide)).2

/-- And so it is a brace of the text itself: code is the same in the text and in the masked
text. -/
theorem getElem?_text_of_mem_findAll {text : List Char} {m : Match Head}
    (hm : m ∈ findAll head (mask text)) :
    text[m.stop - 1]? = some '{' :=
  (code_of_maskFrom_getElem? _ _ _ _ (getElem?_of_mem_findAll hm) (by decide) (by decide)).1

/-- Every text can be cut at the brace of a head, with what is before it and what is inside
masked apart from one another. -/
theorem exists_openedAt {text : List Char} {m : Match Head} (hm : m ∈ findAll head (mask text))
    {q : Quotes} (hregion : (regions text)[m.stop - 1]? = some (.code q)) :
    ∃ before inside, OpenedAt text m (q.step '{') before inside := by
  obtain ⟨x, hmask, hstop, used, hu, hused⟩ := exists_brace_of_mem hm
  have hget := getElem?_text_of_mem_findAll hm
  obtain ⟨hlt, hchar⟩ := List.getElem?_eq_some_iff.mp hget
  have htext : text = text.take (m.stop - 1) ++ '{' :: text.drop (m.stop - 1 + 1) := by
    rw [← hchar, ← List.drop_eq_getElem_cons hlt, List.take_append_drop]
  have happend := fun t => maskFrom_take_append_cons (.code .outside) hregion (x := '{')
    (by decide) (by decide) t
  -- both ways of cutting the masked text cut it at the same place
  have hsame : mask (text.take (m.stop - 1)) ++ '{' :: maskFrom (.code (q.step '{'))
      (text.drop (m.stop - 1 + 1)) = x ++ '{' :: m.rest := by
    rw [← hmask, mask, ← happend, ← htext, mask]
  have hlength : (mask (text.take (m.stop - 1))).length = x.length := by
    rw [mask, length_maskFrom, List.length_take]
    omega
  obtain ⟨hbefore, hinside⟩ := List.append_inj hsame hlength
  refine ⟨text.take (m.stop - 1), text.drop (m.stop - 1 + 1), htext, ?_, ⟨used, hu, ?_⟩,
    happend, ?_, (List.cons.inj hinside).2.symm⟩
  · rw [List.length_take]
    omega
  · rw [hbefore]
    exact hused
  · have hover := over_maskFrom_take (.code .outside) _ _ _ hregion
    rw [Quotes.over_append]
    show Quotes.over (Quotes.over .outside _) _ = _
    rw [mask, show Quotes.over .outside _ = q from hover]
    rfl

/-! ### The closing brace -/

/-- A piece that leaves no string open, closes no brace but its own, and opens
as many as it closes. -/
structure Inert (x : List Char) : Prop where
  closed : ∀ i, closeFrom .outside 1 i x = none
  quotes : Quotes.outside.over x = .outside
  braces : netBraces .outside x = 0

/-- The search for a closing brace goes past such a piece at any depth, and is as deep
behind it as before. -/
theorem Inert.closeFrom_append {x : List Char} (hx : Inert x) {d : Int} (hd : 1 ≤ d) (i : Nat)
    (r : List Char) :
    closeFrom .outside d i (x ++ r) = closeFrom .outside d (i + x.length) r := by
  rw [Scan.closeFrom_append, closeFrom_eq_none_of_le (hx.closed 0) (by omega) hd, Option.none_or,
    hx.quotes, hx.braces, Int.add_zero]

/-- The body of a closure that is made here is such a piece, for it has no braces and leaves
no string open. -/
theorem inert_bodyText {builder : String} {indent close : List Char} {calls : List Call}
    (h : IsBody builder indent close calls) : Inert (bodyText builder indent close calls) := by
  refine ⟨fun i => ?_, over_bodyText h, ?_⟩
  · have happend := closeFrom_bodyText h 1 i []
    rwa [List.append_nil] at happend
  · exact netBraces_of_noBrace _ _ (notMem_bodyText h (by decide) (by decide))
      (notMem_bodyText h (by decide) (by decide))

/-- What is behind the brace that opens a closure, cut at the brace that closes
it. `masked` is the body with its comments blanked out. -/
structure ClosedAt (q : Quotes) (inside body masked after : List Char) : Prop where
  cut : inside = body ++ '}' :: after
  length : masked.length = body.length
  masking : maskFrom (.code q) inside
    = masked ++ '}' :: maskFrom (.code ((q.over masked).step '}')) after
  inert : Inert masked

/-- A closed closure can be cut at its closing brace, into its body and what comes after
that brace. -/
theorem exists_closedAt {q : Quotes} {inside : List Char} {start close : Nat}
    (h : blockEnd? start (maskFrom (.code q) inside) = some close) :
    ∃ body masked after, ClosedAt q inside body masked after ∧ close = start + body.length := by
  obtain ⟨x, r, hcut, hclose, hnone, hover, hnet⟩ := (closeFrom_eq_some_iff _ _ _ _ _).mp h
  -- the brace is read as code, so the text can be masked in two pieces there
  have hget : (maskFrom (.code q) inside)[x.length]? = some '}' := by
    rw [hcut, List.getElem?_append_right (Nat.le_refl _), Nat.sub_self]
    rfl
  obtain ⟨hchar, q', hregion⟩ := code_of_maskFrom_getElem? _ _ _ _ hget (by decide) (by decide)
  obtain ⟨hlt, hchar⟩ := List.getElem?_eq_some_iff.mp hchar
  have hinside : inside = inside.take x.length ++ '}' :: inside.drop (x.length + 1) := by
    rw [← hchar, ← List.drop_eq_getElem_cons hlt, List.take_append_drop]
  have happend := maskFrom_take_append_cons (.code q) hregion (x := '}') (by decide) (by decide)
    (inside.drop (x.length + 1))
  rw [← hinside, hcut] at happend
  have hlength : x.length = (maskFrom (.code q) (inside.take x.length)).length := by
    rw [length_maskFrom, List.length_take]
    omega
  obtain ⟨hbody, hafter⟩ := List.append_inj happend hlength
  have hq : q' = q.over x := by
    rw [hbody]
    exact (over_maskFrom_take _ _ _ _ hregion).symm
  have hbodyLength : (inside.take x.length).length = x.length := by
    rw [List.length_take]
    omega
  refine ⟨inside.take x.length, x, inside.drop (x.length + 1), ⟨hinside, hbodyLength.symm, ?_, ?_,
    hover, by omega⟩, by rw [hclose, hbodyLength]⟩
  · rw [hcut, (List.cons.inj hafter).2, hq]
  · intro i
    have hadd := closeFrom_add .outside 1 0 start x
    rw [Nat.zero_add, hnone] at hadd
    have hzero : closeFrom .outside 1 0 x = none := by
      simpa using hadd.symm
    have hmove := closeFrom_add .outside 1 0 i x
    rwa [hzero, Nat.zero_add] at hmove

/-! ### The closures of a text with a piece in the middle -/

/-- The closure some characters further on. -/
def Closure.moved (n : Nat) (c : Closure) : Closure :=
  { c with bodyStart := c.bodyStart + n, bodyEnd := c.bodyEnd + n }

/-- The closure behind a head in `before`, closed in `before` itself or else `n`
characters behind the beginning of `after`. -/
def closeAround (after : List Char) (n : Nat) (m : Match Head) : Option Closure :=
  ((closeFrom .outside 1 m.stop m.rest).or
    ((closeFrom .outside (1 + netBraces .outside m.rest) 0 after).map (· + n))).map
      fun close => ⟨m.value, m.stop, close⟩

/-- The closures of a text that is `before`, an inert piece, and `after`: of the
piece, they depend on no more than the place `n` where it ends. -/
def closuresAround (before after : List Char) (n : Nat) : List Closure :=
  (findAll head before).filterMap (closeAround after n)
    ++ (closuresOfMasked after).map (Closure.moved n)

/-- The closures behind some place are those of the text from there on, moved along by the
place. -/
theorem filterMap_close?_findAllFrom (n : Nat) (cs : List Char) :
    (findAllFrom head n 0 cs).filterMap Head.close?
      = (closuresOfMasked cs).map (Closure.moved n) := by
  have hmoved : findAllFrom head n 0 cs = (findAll head cs).map (Match.moved n) := by
    have hadd := findAllFrom_add (p := head) 0 n 0 cs
    rwa [Nat.zero_add] at hadd
  rw [hmoved, closuresOfMasked, List.filterMap_map, List.map_filterMap]
  refine List.filterMap_congr fun m _ => ?_
  have hclose : blockEnd? (m.stop + n) m.rest = (blockEnd? m.stop m.rest).map (· + n) :=
    closeFrom_add .outside 1 m.stop n m.rest
  simp only [Function.comp_apply, Head.close?, Match.moved, hclose, Option.map_map]
  rfl

/-- The closures of a text that goes on with an inert piece: those behind the heads in
front of it, which depend on no more of the piece than its length, and others behind
them. -/
theorem closuresOfMasked_append_of_firm {before x : List Char} (hfirm : Firm head before)
    (hx : Inert x)
    (hquotes : ∀ m ∈ findAll head before, Quotes.outside.over m.rest = .outside)
    (after : List Char) :
    closuresOfMasked (before ++ (x ++ after))
      = (findAll head before).filterMap (closeAround after (before.length + x.length))
        ++ (findAllFrom head before.length 0 (x ++ after)).filterMap Head.close? := by
  rw [closuresOfMasked, findAll, findAllFrom_of_firm hfirm 0 0 (Nat.zero_le _), Nat.zero_add,
    List.filterMap_append, List.filterMap_map]
  congr 1
  refine List.filterMap_congr fun m hm => ?_
  simp only [Function.comp_apply, Head.close?, closeAround, Match.extended, blockEnd?]
  congr 1
  rw [Scan.closeFrom_append, hquotes m hm]
  cases hc : closeFrom .outside 1 m.stop m.rest with
  | some k => rfl
  | none =>
      have hdepth := one_le_add_netBraces hc (Int.le_refl 1)
      obtain ⟨-, -, hlength⟩ := bounds_of_mem_findAllFrom consumes_head hm
      rw [Nat.zero_add] at hlength
      have hadd := closeFrom_add .outside (1 + netBraces .outside m.rest) 0
        (before.length + x.length) after
      rw [Nat.zero_add] at hadd
      rw [Option.none_or, Option.none_or, hx.closeFrom_append hdepth, hlength, hadd]

/-- If no closure begins in the inert piece, the others are those of the text behind it. -/
theorem closuresOfMasked_append {before x after : List Char} (hfirm : Firm head before)
    (hx : Inert x)
    (hquotes : ∀ m ∈ findAll head before, Quotes.outside.over m.rest = .outside)
    (hstart : ∀ m ∈ findAllFrom head before.length 0 (x ++ after),
      before.length + x.length ≤ m.start) :
    closuresOfMasked (before ++ (x ++ after))
      = closuresAround before after (before.length + x.length) := by
  have hfirst : ∀ m ∈ findFrom head before.length (x ++ after),
      before.length + x.length ≤ m.start :=
    fun m hm => hstart m (mem_findAllFrom_of_findFrom hm)
  rw [closuresOfMasked_append_of_firm hfirm hx hquotes after,
    findAllFrom_of_start_le _ _ _ hfirst, filterMap_close?_findAllFrom, closuresAround]

/-- The closure with its offsets from `stop` on moved by the difference of two
lengths, but for a body that starts at `start`. -/
def Closure.shifted (start stop old new : Nat) (c : Closure) : Closure :=
  { c with
    bodyStart :=
      if stop ≤ c.bodyStart ∧ c.bodyStart ≠ start then c.bodyStart + new - old else c.bodyStart
    bodyEnd := if stop ≤ c.bodyEnd then c.bodyEnd + new - old else c.bodyEnd }

/-- The heads in `before` end in it, and a brace that is closed in it is closed before its
end. -/
theorem le_of_mem_findAll {before : List Char} {m : Match Head} (hm : m ∈ findAll head before) :
    m.stop ≤ before.length ∧ 1 ≤ m.stop
      ∧ ∀ k, closeFrom .outside 1 m.stop m.rest = some k → k < before.length := by
  obtain ⟨-, hlt, hlength⟩ := bounds_of_mem_findAllFrom consumes_head hm
  refine ⟨by omega, by omega, fun k hk => ?_⟩
  obtain ⟨-, hk⟩ := bounds_of_closeFrom hk
  omega

/-- Closures whose heads are looked for from some place on have their bodies behind that
place. -/
theorem lt_bodyStart_of_findAllFrom {i : Nat} {cs : List Char} {c : Closure}
    (hc : c ∈ (findAllFrom head i 0 cs).filterMap Head.close?) : i < c.bodyStart := by
  obtain ⟨m, hm, hclose⟩ := List.mem_filterMap.mp hc
  obtain ⟨k, -, rfl⟩ := Option.map_eq_some_iff.mp hclose
  obtain ⟨hstart, hlt, -⟩ := bounds_of_mem_findAllFrom consumes_head hm
  show i < m.stop
  omega

/-- Another piece in the middle shifts the closing braces behind it by as much as the text
has grown or shrunk. -/
theorem filterMap_closeAround {before after : List Char} {n n' : Nat} (hn : before.length ≤ n)
    (k : Nat) :
    (findAll head before).filterMap (closeAround after n')
      = ((findAll head before).filterMap (closeAround after n)).map
          (Closure.shifted before.length n (n + k) (n' + k)) := by
  rw [List.map_filterMap]
  refine List.filterMap_congr fun m hm => ?_
  obtain ⟨hstop, -, hclose⟩ := le_of_mem_findAll hm
  have hstart : ¬(n ≤ m.stop ∧ m.stop ≠ before.length) := by omega
  simp only [closeAround, Option.map_map]
  -- closed in the first piece a brace stays; closed behind the middle it moves along
  cases hc : closeFrom .outside 1 m.stop m.rest with
  | some j =>
      have hj : ¬n ≤ j := by
        have := hclose j hc
        omega
      simp only [Option.some_or, Option.map_some, Function.comp_apply, Closure.shifted,
        if_neg hstart, if_neg hj]
  | none =>
      cases closeFrom .outside (1 + netBraces .outside m.rest) 0 after with
      | none => rfl
      | some j =>
          have hj : n ≤ j + n := by omega
          have hmoved : j + n + (n' + k) - (n + k) = j + n' := by omega
          simp only [Option.none_or, Option.map_some, Function.comp_apply, Closure.shifted,
            if_neg hstart, if_pos hj, hmoved]

/-- So it shifts all closures around it and behind it, and leaves those before it where they
are. -/
theorem closuresAround_eq_map_shifted {before after : List Char} {n n' : Nat}
    (hn : before.length ≤ n) (k : Nat) :
    closuresAround before after n'
      = (closuresAround before after n).map
          (Closure.shifted before.length n (n + k) (n' + k)) := by
  rw [closuresAround, closuresAround, List.map_append, filterMap_closeAround hn k, List.map_map]
  congr 1
  refine List.map_congr_left fun c hc => ?_
  have hpos : 1 ≤ c.bodyStart := by
    rw [closuresOfMasked, List.mem_filterMap] at hc
    obtain ⟨m, hm, hclose⟩ := hc
    obtain ⟨j, -, rfl⟩ := Option.map_eq_some_iff.mp hclose
    exact (le_of_mem_findAll hm).2.1
  have hstart : n ≤ c.bodyStart + n ∧ c.bodyStart + n ≠ before.length := by omega
  have hend : n ≤ c.bodyEnd + n := by omega
  have hs : c.bodyStart + n + (n' + k) - (n + k) = c.bodyStart + n' := by omega
  have he : c.bodyEnd + n + (n' + k) - (n + k) = c.bodyEnd + n' := by omega
  simp only [Function.comp_apply, Closure.shifted, Closure.moved, if_pos hstart, if_pos hend,
    hs, he]

end SchemaAtlas.Migration
