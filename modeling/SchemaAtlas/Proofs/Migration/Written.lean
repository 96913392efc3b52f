import SchemaAtlas.Proofs.Migration.Bundle

/-!
# `SchemaAtlas.Proofs.Migration.Written`: the block that is written back

Whatever else a migration holds, a table that is written back into it is read
from it again: where the closure began there is a block with the columns and
foreign keys of the new table (`exists_blocks_writeBack`). What comes before the
closure's brace is the same in both texts, and so the search for closures comes
to the brace in the same way. Behind it all may be read differently, and a closure
around the new body may say other things than before.

The block is one of the way forward if the closure lies outside of the way back.
A way back that begins in front of the closure ends there as well, and any other
begins behind the brace.
-/

set_option autoImplicit false

namespace SchemaAtlas.Migration

open SchemaAtlas.Scan SchemaAtlas.Text

/-- Holds of a closure outside of the way back: its brace opens before the way back
begins, or behind the brace that closes the way back. -/
def Closure.Forward (masked : List Char) (c : Closure) : Prop :=
  ∀ d ∈ downSpan? masked, c.bodyStart < d.1 ∨ d.2 < c.bodyStart

instance (masked : List Char) (c : Closure) : Decidable (c.Forward masked) :=
  inferInstanceAs (Decidable (∀ d ∈ downSpan? masked, _))

/-! ### What comes before a body -/

/-- What comes before the body of a closure in a masked text, opening brace
included. What is found in it does not depend on what comes behind. -/
structure Front (x : List Char) (c : Closure) : Prop where
  length : x.length = c.bodyStart
  head : Firm head x
  down : Firm downHead x
  found : ∃ m ∈ findAll Migration.head x, m.value = c.toHead ∧ m.stop = x.length ∧ m.rest = []

/-- A head that ends where a firm text ends is found in that text already, with nothing
behind it. -/
theorem exists_mem_findAll_of_stop {x r : List Char} (hx : Firm head x) {m : Match Head}
    (hm : m ∈ findAll head (x ++ r)) (hstop : m.stop = x.length) :
    ∃ m' ∈ findAll head x, m'.value = m.value ∧ m'.stop = x.length ∧ m'.rest = [] := by
  rw [findAll, findAllFrom_of_firm hx 0 0 (Nat.zero_le _), List.mem_append, List.mem_map] at hm
  rcases hm with ⟨m', hm', rfl⟩ | hm
  · obtain ⟨-, -, hlength⟩ := bounds_of_mem_findAllFrom consumes_head hm'
    have hend : m'.stop = x.length := hstop
    exact ⟨m', hm', rfl, hend, List.length_eq_zero_iff.mp (by omega)⟩
  · -- the others begin behind it, and have characters
    obtain ⟨hstart, hlt, -⟩ := bounds_of_mem_findAllFrom consumes_head hm
    omega

/-- The text before a closure's body is the same before the body that is written
back. -/
theorem exists_front {text table : String} {columns : List Column} {fks : List ForeignKey}
    {t : Closure} (ht : creation? table (closures text) = some t) (h : Named columns fks) :
    ∃ x r indent close r', Front x t ∧ IsBody t.builder indent close (tableCalls columns fks)
      ∧ mask text.toList = x ++ r
      ∧ mask (writeBack text table columns fks).toList
        = x ++ (bodyText t.builder indent close (tableCalls columns fks) ++ '}' :: r') := by
  have hmem : t ∈ closures text := List.mem_of_find?_eq_some ht
  obtain ⟨m, q, before, inside, body, masked, after, hm, -, hvalue, hstop, ho, hc, hend⟩ :=
    exists_cut_of_mem_closures hmem
  obtain ⟨indent, close, hbody, hnew⟩ :=
    @newBody_eq text.toList t columns fks (isName_builder_of_mem hmem) h
  obtain ⟨used, hu, hused⟩ := ho.head
  have hlength : (mask before ++ ['{']).length = t.bodyStart := by
    rw [List.length_append, mask, length_maskFrom, ← hstop, ho.stop]
    rfl
  have hmask : mask text.toList = (mask before ++ ['{'])
      ++ maskFrom (.code (q.step '{')) inside := by
    rw [ho.cut, ho.masking]
    simp
  have hfirm := firm_head hu.guarded hused
  rw [hmask] at hm
  have hfound := exists_mem_findAll_of_stop hfirm hm (hstop.trans hlength.symm)
  rw [hvalue] at hfound
  -- without a slash, the new body is masked as it is
  have hslash : '/' ∉ bodyText t.builder indent close (tableCalls columns fks) :=
    notMem_bodyText hbody (by decide) (by decide)
  have hmaskNew : ∃ r', mask (writeBack text table columns fks).toList = (mask before ++ ['{'])
      ++ (bodyText t.builder indent close (tableCalls columns fks) ++ '}' :: r') := by
    rw [toList_writeBack ht, rewritten, take_bodyStart ho hstop, drop_bodyEnd ho hc hstop hend,
      hnew, List.append_assoc, List.singleton_append, ho.masking,
      maskFrom_append_of_noSlash _ _ _ hslash, maskFrom_code_cons _ (by decide)]
    exact ⟨_, by simp only [List.append_assoc, List.singleton_append]; rfl⟩
  obtain ⟨r', hr'⟩ := hmaskNew
  exact ⟨mask before ++ ['{'], _, indent, close, r',
    ⟨hlength, hfirm, firm_downHead hu.guarded hused, hfound⟩, hbody, hmask, hr'⟩

/-! ### The closure and its direction -/

/-- Behind the front, a body that was made here is that of a closure. What comes after it
decides about other closures only. -/
theorem exists_closuresOfMasked_front {x : List Char} {c : Closure} (hx : Front x c)
    {indent close : List Char} {calls : List Call} (h : IsBody c.builder indent close calls)
    (r : List Char) :
    ∃ before after, closuresOfMasked (x ++ (bodyText c.builder indent close calls ++ '}' :: r))
      = before ++ { c with bodyEnd :=
        c.bodyStart + (bodyText c.builder indent close calls).length }
        :: after := by
  obtain ⟨m, hm, hvalue, hstop, hrest⟩ := hx.found
  obtain ⟨before, after, hcut⟩ := List.append_of_mem hm
  have hclose : Head.close? (m.extended (bodyText c.builder indent close calls ++ '}' :: r))
      = some { c with bodyEnd :=
        c.bodyStart + (bodyText c.builder indent close calls).length } := by
    rw [Head.close?, Match.extended, hrest, List.nil_append, blockEnd?, closeFrom_bodyText h,
      closeFrom_cons, if_pos ⟨rfl, rfl, rfl⟩, hvalue, hstop, hx.length]
    rfl
  rw [closuresOfMasked, findAll, findAllFrom_of_firm hx.head 0 0 (Nat.zero_le _), ← findAll, hcut,
    List.map_append, List.map_cons, List.append_assoc, List.filterMap_append, List.cons_append,
    List.filterMap_cons_some hclose]
  exact ⟨_, _, rfl⟩

/-- A block that ends in front of some place in a text is closed in front of it. -/
theorem exists_closeFrom_of_lt {rest r : List Char} {stop total n : Nat}
    (hn : stop + rest.length = n)
    (htotal : n ≤ total) (hlt : (blockEnd? stop (rest ++ r)).getD total < n) :
    ∃ k, closeFrom .outside 1 stop rest = some k ∧ k < n := by
  rw [blockEnd?, Scan.closeFrom_append] at hlt
  cases hk : closeFrom .outside 1 stop rest with
  | some k =>
      rw [hk] at hlt
      exact ⟨k, rfl, hlt⟩
  | none =>
      rw [hk, Option.none_or] at hlt
      cases hlater : closeFrom (Quotes.outside.over rest) (1 + netBraces .outside rest)
          (stop + rest.length) r with
      | none =>
          rw [hlater, Option.getD_none] at hlt
          omega
      | some k =>
          obtain ⟨hle, -⟩ := bounds_of_closeFrom hlater
          rw [hlater, Option.getD_some] at hlt
          omega

section Way

variable {x : List Char} (hx : Firm downHead x)

include hx

/-- A way back that begins in a firm text begins at the same place whatever comes behind;
where it ends may depend on that. -/
theorem downSpan?_append_of_front {m : Match Unit} (hm : findFrom downHead 0 x = some m)
    (r : List Char) :
    downSpan? (x ++ r)
      = some (m.start, (blockEnd? m.stop (m.rest ++ r)).getD (x ++ r).length) := by
  rw [downSpan?, find?, findFrom_of_firm hx, hm]
  rfl

/-- If it ends in the firm text as well, it is the same whatever comes behind. -/
theorem exists_downSpan?_append_of_front {m : Match Unit} (hm : findFrom downHead 0 x = some m)
    {r : List Char}
    (hends : (blockEnd? m.stop (m.rest ++ r)).getD (x ++ r).length < x.length) :
    ∃ k < x.length, ∀ r', downSpan? (x ++ r') = some (m.start, k) := by
  obtain ⟨-, -, hlength⟩ := bounds_of_findFrom consumes_downHead hm
  obtain ⟨k, hk, hlt⟩ := exists_closeFrom_of_lt (hlength.trans (Nat.zero_add _))
    (by rw [List.length_append]; omega) hends
  refine ⟨k, hlt, fun r' => ?_⟩
  rw [downSpan?_append_of_front hx hm]
  show some (m.start, (closeFrom .outside 1 m.stop (m.rest ++ r')).getD _) = _
  rw [Scan.closeFrom_append, hk]
  rfl

/-- If none begins in the firm text, the way back is the first one that begins behind it. -/
theorem downSpan?_append_of_behind (hnone : findFrom downHead 0 x = none) (r : List Char) :
    downSpan? (x ++ r) = (findFrom downHead x.length r).map fun m =>
      (m.start, (blockEnd? m.stop m.rest).getD (x ++ r).length) := by
  rw [downSpan?, find?, findFrom_of_firm hx, hnone, Option.map_none, Option.none_or, Nat.zero_add]

end Way

/-- The way back stays before or behind the closure, whatever its body is, if it was there
to begin with. -/
theorem forward_of_front {x : List Char} {c : Closure} (hx : Front x c) {r : List Char}
    (hforward : c.Forward (x ++ r)) (z : List Char) :
    ∀ d ∈ downSpan? (x ++ '\n' :: z), c.bodyStart < d.1 ∨ d.2 < c.bodyStart := by
  intro d hd
  cases hm : findFrom downHead 0 x with
  | none =>
      -- a line break begins no way back
      rw [downSpan?_append_of_behind hx.down hm, findFrom] at hd
      obtain ⟨m, hm, rfl⟩ := Option.map_eq_some_iff.mp hd
      obtain ⟨hstart, -, -⟩ := bounds_of_findFrom consumes_downHead hm
      left
      show c.bodyStart < m.start
      rw [← hx.length]
      omega
  | some m =>
      obtain ⟨-, hlt, hlength⟩ := bounds_of_findFrom consumes_downHead hm
      have hold := hforward _ (downSpan?_append_of_front hx.down hm r)
      rw [← hx.length] at hold ⊢
      -- the old way back begins in front of the brace, so it ends there
      have hends : (blockEnd? m.stop (m.rest ++ r)).getD (x ++ r).length < x.length :=
        hold.resolve_left (by show ¬x.length < m.start; omega)
      obtain ⟨k, hk, hspan⟩ := exists_downSpan?_append_of_front hx.down hm hends
      rw [hspan] at hd
      obtain rfl := Option.some.inj hd
      exact .inr hk

/-! ### The block -/

/-- The closure that is found to create a table does so: it is of that kind and names that
table. -/
theorem of_creation? {table : String} {cs : List Closure} {t : Closure}
    (ht : creation? table cs = some t) :
    t.kind = .create ∧ t.table = table := by
  have hfound := List.find?_some ht
  simpa using hfound

/-- A table that is written back into a closure of the way forward is read again,
as its own migration would be read. -/
theorem exists_blocks_writeBack {text table : String} {columns : List Column}
    {fks : List ForeignKey}
    {t : Closure} (ht : creation? table (closures text) = some t) (h : Named columns fks)
    (hforward : t.Forward (mask text.toList)) :
    ∃ before b after, blocks (writeBack text table columns fks) = before ++ b :: after
      ∧ b.unplaced = sourceBlock ⟨table, columns, fks⟩ := by
  obtain ⟨x, r, indent, close, r', hx, hbody, hmask, hmaskNew⟩ := exists_front ht h
  obtain ⟨before, after, hclosures⟩ := exists_closuresOfMasked_front hx hbody r'
  rw [hmask] at hforward
  obtain ⟨hkind, htable⟩ := of_creation? ht
  let written := bodyText t.builder indent close (tableCalls columns fks)
  let c : Closure := { t with bodyEnd := t.bodyStart + written.length }
  have hbodyText : c.body (x ++ (written ++ '}' :: r')) = written := by
    show ((x ++ (written ++ '}' :: r')).drop t.bodyStart).take
      (t.bodyStart + written.length - t.bodyStart)
      = written
    rw [Nat.add_sub_cancel_left, ← hx.length, List.drop_left, List.take_left]
  -- a way back that does not hold the old body does not hold the new one either
  have hdown : ∀ d ∈ downSpan? (x ++ (written ++ '}' :: r')), c.bodyStart < d.1
      ∨ d.2 ≤ c.bodyStart := by
    intro d hd
    have hd' : d ∈ downSpan?
        (x ++ '\n' :: (linesText t.builder indent (tableCalls columns fks) ++ close
        ++ '}' :: r')) := hd
    exact (forward_of_front hx hforward _ d hd').imp_right Nat.le_of_lt
  have hblocks : blocks (writeBack text table columns fks)
      = (before ++ c :: after).map
          (Closure.block (x ++ (written ++ '}' :: r'))
            (downSpan? (x ++ (written ++ '}' :: r')))) := by
    rw [blocks, hmaskNew, hclosures]
  rw [List.map_append, List.map_cons] at hblocks
  exact ⟨_, _, _, hblocks, unplaced_block_of_body (c := c) hdown hkind htable hbody hbodyText⟩

end SchemaAtlas.Migration
