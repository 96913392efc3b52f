import SchemaAtlas.Proofs.Migration.Apart
import SchemaAtlas.Proofs.Scan.Balance

/-!
# `SchemaAtlas.Proofs.Migration.Braces`: the braces of a closure

The offsets of a closure are found in the text with its comments masked, by a search that
remembers depth and quotes. They are used to cut the text itself. This module tells them
without the search: a closure has its body between two braces of the text, and the second
is the first place up to which the braces are balanced, quoted strings left out
(`braced_of_mem_closures`). There is a closure for each head behind which they balance
somewhere, and for no other (`wellBraced_closures`).

A brace is read as code in the masked text, so it stands at the same place in the text
itself (`code_of_maskFrom_getElem?`).
-/

set_option autoImplicit false

namespace SchemaAtlas.Migration

open SchemaAtlas.Scan

/-- Holds of a closure whose body is the text between two braces that match. -/
structure Braced (text : String) (c : Closure) : Prop where
  start_pos : 0 < c.bodyStart
  start_le : c.bodyStart ≤ c.bodyEnd
  end_lt : c.bodyEnd < text.length
  /-- The body starts behind an opening brace. -/
  opening : text.toList[c.bodyStart - 1]? = some '{'
  /-- It ends in front of a closing brace. -/
  closing : text.toList[c.bodyEnd]? = some '}'
  /-- That is the first place up to which the braces are balanced, comments masked. -/
  least : IsLeast {j | BalancedUpTo (mask text.toList) (c.bodyStart - 1) j} c.bodyEnd

/-- What holds of the closures of a text. -/
structure WellBraced (text : String) (closures : List Closure) : Prop where
  /-- They stand in the order of their bodies. -/
  ordered : closures.Pairwise fun c d => c.bodyStart < d.bodyStart
  braced : ∀ c ∈ closures, Braced text c
  /-- Each has a head in front of its body. -/
  headed : ∀ c ∈ closures, ∃ m ∈ findAll head (mask text.toList), m.value = c.toHead
    ∧ m.stop = c.bodyStart
  /-- Behind a head there is one if the braces balance somewhere, and none if they do not. -/
  closed : ∀ m ∈ findAll head (mask text.toList),
    (∃ c ∈ closures, c.bodyStart = m.stop) ↔ ∃ j, BalancedUpTo (mask text.toList) (m.stop - 1) j

/-! ### Closing a head -/

section Head

variable {masked : List Char} {m : Match Head}

/-- A closure ends where the brace of its head is closed, that is, at the first brace that
brings the count back to none. -/
theorem close?_eq (hm : m ∈ findAll head masked) :
    Head.close? m = (closingBrace? masked (m.stop - 1)).map fun close =>
      ⟨m.value, m.stop, close⟩ := by
  have hstop := Nat.sub_add_cancel (le_of_mem_findAll hm).2.1
  rw [Head.close?, closingBrace?_eq_blockEnd? (drop_of_mem_findAll hm), hstop]

/-- The closures are those of the heads whose brace is closed. A head whose brace stays open
has none. -/
theorem mem_closuresOfMasked_iff (c : Closure) :
    c ∈ closuresOfMasked masked
      ↔ ∃ m ∈ findAll head masked, m.value = c.toHead ∧ m.stop = c.bodyStart
        ∧ closingBrace? masked (m.stop - 1) = some c.bodyEnd := by
  rw [closuresOfMasked, List.mem_filterMap]
  refine exists_congr fun m => and_congr_right fun hm => ?_
  rw [close?_eq hm, Option.map_eq_some_iff]
  constructor
  · rintro ⟨j, hj, rfl⟩
    exact ⟨rfl, rfl, hj⟩
  · rintro ⟨hhead, hstop, hj⟩
    exact ⟨c.bodyEnd, hj, by rw [hhead, hstop]⟩

end Head

/-! ### The closures of a text -/

/-- The body of every closure of a text stands between a brace and the one that closes
it. -/
theorem braced_of_mem_closures {text : String} {c : Closure} (hc : c ∈ closures text) :
    Braced text c := by
  obtain ⟨m, hm, -, hstop, hclose⟩ := (mem_closuresOfMasked_iff c).mp hc
  obtain ⟨hbrace, hlt, hleast⟩ := isLeast_of_closingBrace? (drop_of_mem_findAll hm) hclose
  have hpos := (le_of_mem_findAll hm).2.1
  have hopening := getElem?_text_of_mem_findAll hm
  -- what is a brace with the comments masked is the same brace in the text
  have hclosing := (code_of_maskFrom_getElem? _ _ _ _ hbrace (by decide) (by decide)).1
  rw [hstop] at hpos hopening hleast hlt
  refine ⟨hpos, bodyStart_le_bodyEnd hc, ?_, hopening, hclosing, hleast⟩
  rw [← String.length_toList]
  exact (List.getElem?_eq_some_iff.mp hclosing).1

/-- The closures of any text have their bodies between matching braces of the text, in
order, where braces in comments and strings do not count. -/
theorem wellBraced_closures (text : String) : WellBraced text (closures text) where
  ordered := pairwise_closures (mask text.toList)
  braced := fun c hc => braced_of_mem_closures hc
  headed := by
    intro c hc
    obtain ⟨m, hm, hhead, hstop, -⟩ := (mem_closuresOfMasked_iff c).mp hc
    exact ⟨m, hm, hhead, hstop⟩
  closed := by
    intro m hm
    constructor
    · rintro ⟨c, hc, hstop⟩
      rw [← hstop]
      exact ⟨c.bodyEnd, (braced_of_mem_closures hc).least.1⟩
    · rintro ⟨j, hj⟩
      cases hclose : closingBrace? (mask text.toList) (m.stop - 1) with
      | none => exact absurd hj (not_balancedUpTo_of_closingBrace? (drop_of_mem_findAll hm)
          hclose j)
      | some k => exact ⟨⟨m.value, m.stop, k⟩,
          (mem_closuresOfMasked_iff _).mpr ⟨m, hm, rfl, rfl, hclose⟩, rfl⟩

/-- Neither a brace in a string nor one in a comment ends a body. -/
example :
    closures "Schema::table('a',function($t)\x7b'\x7d'/*\x7d*/\x7d"
      = [⟨⟨.alter, "a", "t"⟩, 31, 39⟩] := by
  decide +kernel

end SchemaAtlas.Migration
