import SchemaAtlas.Proofs.Migration.Apart
import SchemaAtlas.Proofs.Migration.Rearranged

/-!
# `SchemaAtlas.Proofs.Migration.Interchange`: the body of a closure in another order

The body of a closure gives way to another one of the same length. If nothing begins in
either of them, no brace stands in them, and both leave strings open or closed alike
(`Interchangeable`), then the closures of the text stay where they are
(`Interchangeable.closures_eq`), and so does the way back
(`Interchangeable.downSpan?_eq`). The body of each closure either stays, too, or holds
the one piece in the place of the other (`Interchangeable.body_cases`).
-/

set_option autoImplicit false

namespace SchemaAtlas.Migration

open SchemaAtlas.Scan SchemaAtlas.Text

/-- Holds of a piece in front of a closing brace in which neither a closure nor the way
back begins and no brace stands. -/
structure Still (y : List Char) : Prop where
  quietHead : Quiet head (y ++ ['}'])
  quietDown : Quiet downHead (y ++ ['}'])
  opened : '{' ∉ y
  closed : '}' ∉ y

/-- Pieces that can stand in one another's place in front of a closing brace. -/
structure Interchangeable (y y' : List Char) : Prop where
  still : Still y
  still' : Still y'
  length : y.length = y'.length
  quotes : ∀ q : Quotes, q.Proper → q.over y = q.over y'

/-- The heads of a text with such a piece in it stand in front of it, or behind the closing
brace. -/
theorem Still.findAll_head {x y : List Char} (hfirm : Firm head x) (hy : Still y)
    (z : List Char) :
    findAll head (x ++ (y ++ '}' :: z))
      = (findAll head x).map (Match.extended (y ++ '}' :: z))
        ++ findAllFrom head (x.length + (y.length + 1)) 0 z := by
  have hquiet := findAllFrom_of_quiet hy.quietHead x.length z
  rw [List.append_assoc, List.singleton_append, List.length_append,
    List.length_singleton] at hquiet
  rw [findAll, findAllFrom_of_firm hfirm 0 0 (Nat.zero_le _), Nat.zero_add, hquiet, findAll]

namespace Interchangeable

variable {x y y' : List Char} (h : Interchangeable y y')

include h

/-- A brace that is open in front of the piece closes where it closed: no brace stands in
either piece, and both leave strings open or closed alike. -/
theorem closeFrom_eq {q : Quotes} (hq : q.Proper) (d : Int) (i : Nat) (w r : List Char) :
    closeFrom q d i (w ++ (y ++ r)) = closeFrom q d i (w ++ (y' ++ r)) := by
  rw [closeFrom_append q d i w (y ++ r), closeFrom_append q d i w (y' ++ r),
    closeFrom_append_of_noBrace _ _ _ _ _ h.still.opened h.still.closed,
    closeFrom_append_of_noBrace _ _ _ _ _ h.still'.opened h.still'.closed, h.quotes _ (hq.over w),
    h.length]

/-- The closures of a text stay where they are. No head begins in the piece, and each body
is closed by the same brace as before. -/
theorem closures_eq (hfirm : Firm head x) (z : List Char) :
    closuresOfMasked (x ++ (y ++ '}' :: z)) = closuresOfMasked (x ++ (y' ++ '}' :: z)) := by
  rw [closuresOfMasked, closuresOfMasked, h.still.findAll_head hfirm, h.still'.findAll_head hfirm,
    h.length, List.filterMap_append, List.filterMap_append, List.filterMap_map,
    List.filterMap_map]
  refine congrArg (· ++ _) (List.filterMap_congr fun m _ => ?_)
  simp only [Function.comp_apply, Head.close?, Match.extended, blockEnd?]
  rw [h.closeFrom_eq (q := .outside) trivial]

/-- The way back stays where it is, for the same two reasons: it begins outside the piece,
and its braces close where they closed. -/
theorem downSpan?_eq (hfirm : Firm downHead x) (z : List Char) :
    downSpan? (x ++ (y ++ '}' :: z)) = downSpan? (x ++ (y' ++ '}' :: z)) := by
  have hbehind : ∀ w, Still w → findFrom downHead x.length (w ++ '}' :: z)
      = findFrom downHead (x.length + (w.length + 1)) z := by
    intro w hw
    have hquiet := findFrom_of_quiet hw.quietDown x.length z
    rwa [List.append_assoc, List.singleton_append, List.length_append,
      List.length_singleton] at hquiet
  have hlength : (x ++ (y ++ '}' :: z)).length = (x ++ (y' ++ '}' :: z)).length := by
    simp only [List.length_append, h.length]
  rw [downSpan?, downSpan?, find?, find?, findFrom_of_firm hfirm, findFrom_of_firm hfirm,
    Nat.zero_add, hbehind y h.still, hbehind y' h.still', h.length, hlength]
  cases findFrom downHead 0 x with
  | none => rfl
  | some m =>
      simp only [Option.map_some, Option.some_or, Match.extended, blockEnd?]
      rw [h.closeFrom_eq (q := .outside) trivial]

/-- A closure is closed in front of the piece, reaches around it, or lies behind it. -/
theorem place_cases (hfirm : Firm head x) {z : List Char} {c : Closure}
    (hc : c ∈ closuresOfMasked (x ++ (y ++ '}' :: z))) :
    (c.bodyStart ≤ x.length ∧ c.bodyEnd < x.length)
      ∨ (c.bodyStart ≤ x.length ∧ x.length + y.length ≤ c.bodyEnd)
      ∨ x.length + y.length < c.bodyStart := by
  rw [closuresOfMasked, h.still.findAll_head hfirm, List.filterMap_append, List.filterMap_map,
    List.mem_append, List.mem_filterMap] at hc
  rcases hc with ⟨m, hm, hclose⟩ | hbehind
  · obtain ⟨k, hk, rfl⟩ := Option.map_eq_some_iff.mp hclose
    obtain ⟨hstop, -, hlt⟩ := le_of_mem_findAll hm
    obtain ⟨-, -, hlength⟩ := bounds_of_mem_findAllFrom consumes_head hm
    rw [Nat.zero_add] at hlength
    simp only [Match.extended, blockEnd?] at hk
    rw [closeFrom_append] at hk
    cases hin : closeFrom .outside 1 m.stop m.rest with
    | some j =>
        rw [hin] at hk
        obtain rfl := Option.some.inj hk
        exact .inl ⟨hstop, hlt j hin⟩
    | none =>
        -- no brace stands in the piece, so the search goes on behind it
        rw [hin, Option.none_or,
          closeFrom_append_of_noBrace _ _ _ _ _ h.still.opened h.still.closed, hlength] at hk
        exact .inr (.inl ⟨hstop, (bounds_of_closeFrom hk).1⟩)
  · have hlt := lt_bodyStart_of_findAllFrom hbehind
    exact .inr (.inr (by omega))

/-- The body of a closure stays, or has the one piece in the place of the other. -/
theorem body_cases (hfirm : Firm head x) {z : List Char} {c : Closure}
    (hc : c ∈ closuresOfMasked (x ++ (y ++ '}' :: z))) :
    c.body (x ++ (y' ++ '}' :: z)) = c.body (x ++ (y ++ '}' :: z))
      ∨ ∃ w v, c.body (x ++ (y ++ '}' :: z)) = w ++ (y ++ v)
        ∧ c.body (x ++ (y' ++ '}' :: z)) = w ++ (y' ++ v) := by
  have hshifted : c.shifted x.length (x.length + y.length)
      (x.length + y.length + ('}' :: z).length)
      (x.length + y'.length + ('}' :: z).length) = c := by
    simp only [Closure.shifted, h.length, Nat.add_sub_cancel, ite_self]
  have hle := bodyStart_le_bodyEnd hc
  -- a body that reaches around the piece is cut at both of its ends
  have haround : c.bodyStart ≤ x.length → x.length + y.length ≤ c.bodyEnd → ∀ w : List Char,
      w.length = y.length →
      c.body (x ++ (w ++ '}' :: z))
        = x.drop c.bodyStart ++ (w ++ ('}' :: z).take (c.bodyEnd - (x.length + y.length))) := by
    intro hstart hend w hw
    have hfirst : (x.drop c.bodyStart).length ≤ c.bodyEnd - c.bodyStart := by
      rw [List.length_drop]
      omega
    have hsecond : w.length ≤ c.bodyEnd - c.bodyStart - (x.drop c.bodyStart).length := by
      rw [List.length_drop]
      omega
    have hrest : c.bodyEnd - c.bodyStart - (x.drop c.bodyStart).length - w.length
        = c.bodyEnd - (x.length + y.length) := by
      rw [List.length_drop]
      omega
    rw [Closure.body, List.drop_append_of_le_length hstart, List.take_append,
      List.take_of_length_le hfirst, List.take_append, List.take_of_length_le hsecond, hrest]
  rcases h.place_cases hfirm hc with hbefore | ⟨hstart, hend⟩ | hbehind
  · have hbody := @body_shifted x y y' ('}' :: z) c (.inl hbefore)
    rw [hshifted] at hbody
    exact .inl hbody
  · exact .inr ⟨_, _, haround hstart hend y rfl, haround hstart hend y' h.length.symm⟩
  · have hbody := @body_shifted x y y' ('}' :: z) c (.inr ⟨hbehind, by omega⟩)
    rw [hshifted] at hbody
    exact .inl hbody

end Interchangeable

/-! ### The text of the closure -/

/-- A text with another body for a closure. -/
def Closure.withBody (text : String) (c : Closure) (body : List Char) : String :=
  String.ofList (text.toList.take c.bodyStart ++ (body ++ text.toList.drop c.bodyEnd))

/-- A text and the one with the other body are cut in the same way once their comments are
blanked out. Without a slash in the two bodies, the comments are the same in both. -/
theorem Interchangeable.exists_masks {text : String} {c : Closure} {y y' : List Char}
    (h : Interchangeable y y')
    (hc : c ∈ closures text) (hy : c.body text.toList = y) (hslash : '/' ∉ y)
    (hslash' : '/' ∉ y') :
    ∃ x z, (∃ last, Guarded last ∧ last <:+ x) ∧ x.length = c.bodyStart
      ∧ x.length + y.length = c.bodyEnd
      ∧ mask text.toList = x ++ (y ++ '}' :: z)
      ∧ mask (c.withBody text y').toList = x ++ (y' ++ '}' :: z) := by
  obtain ⟨m, q, before, inside, body, masked, after, -, -, -, hstop, hopened, hclosed, hend⟩ :=
    exists_cut_of_mem_closures hc
  obtain ⟨used, hu, hsuffix⟩ := hopened.head
  have htake := take_bodyStart hopened hstop
  have hdrop := drop_bodyEnd hopened hclosed hstop hend
  have hbody : body = y := by
    have hinside : text.toList.drop c.bodyStart = inside := by
      have hlength : c.bodyStart = (before ++ ['{']).length := by
        rw [← hstop, hopened.stop, List.length_append, List.length_singleton]
      have hcut : text.toList = (before ++ ['{']) ++ inside := by
        rw [hopened.cut]
        simp
      rw [hcut, hlength, List.drop_left]
    rw [← hy, Closure.body, hinside, hend, Nat.add_sub_cancel_left, hclosed.cut, List.take_left]
  -- the closure may open inside of a string, and both bodies leave it alike
  have hproper : (q.step '{').Proper := by
    rw [← hopened.quotes]
    exact Quotes.Proper.over (s := .outside) trivial _
  have hmask : ∀ w, '/' ∉ w → mask (before ++ '{' :: (w ++ '}' :: after))
      = (mask before ++ ['{'])
        ++ (w ++ '}' :: maskFrom (.code (((q.step '{').over w).step '}')) after) := by
    intro w hw
    rw [hopened.masking, maskFrom_append_of_noSlash _ _ _ hw, maskFrom_code_cons _ (by decide)]
    simp
  have hlength : (mask before ++ ['{']).length = c.bodyStart := by
    rw [← hstop, hopened.stop, List.length_append, mask, length_maskFrom, List.length_singleton]
  have htext : text.toList = before ++ '{' :: (y ++ '}' :: after) := by
    rw [hopened.cut, hclosed.cut, hbody]
  have hnew : (c.withBody text y').toList = before ++ '{' :: (y' ++ '}' :: after) := by
    rw [Closure.withBody, String.toList_ofList, htake, hdrop]
    simp
  refine ⟨mask before ++ ['{'], maskFrom (.code (((q.step '{').over y).step '}')) after,
    ⟨used, hu.guarded, hsuffix⟩, hlength, ?_, ?_, ?_⟩
  · rw [hlength, hend, hbody]
  · rw [htext, hmask y hslash]
  · rw [hnew, hmask y' hslash', h.quotes _ hproper]

end SchemaAtlas.Migration
