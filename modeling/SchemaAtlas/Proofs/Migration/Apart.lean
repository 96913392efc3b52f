import SchemaAtlas.Proofs.Migration.Written

/-!
# `SchemaAtlas.Proofs.Migration.Apart`: the other blocks of a migration

A table is written back into one closure of a migration. Where that closure stands
apart (`Closure.Apart`), every other block of the migration says what it said, and on
the same way, forward or back (`exists_split_blocks_writeBack`).

The way back begins in front of the closure or behind it. If it begins in front, it
ends there, and the new body has no part in it. If it begins behind, it moves along
with the closures there.
-/

set_option autoImplicit false

namespace SchemaAtlas.Migration

open SchemaAtlas.Scan SchemaAtlas.Text

instance (c t : Closure) : Decidable (c.Encloses t) :=
  inferInstanceAs (Decidable (_ ∧ _))

/-- Holds of a closure that stands apart in a text: all closures open in code, none
begins in its body or reaches around it, and the way back lies in front of the body or
begins behind it. -/
structure Closure.Apart (text : List Char) (t : Closure) : Prop where
  code : OpensInCode text
  none : NoneBeginsIn text t
  alone : ∀ c ∈ closuresOfMasked (mask text), c.Encloses t → c = t
  away : ∀ d ∈ downSpan? (mask text), d.2 < t.bodyStart ∨ t.bodyEnd < d.1

instance (text : List Char) (t : Closure) : Decidable (t.Apart text) :=
  decidable_of_iff (OpensInCode text ∧ NoneBeginsIn text t
    ∧ (∀ c ∈ closuresOfMasked (mask text), c.Encloses t → c = t)
    ∧ ∀ d ∈ downSpan? (mask text), d.2 < t.bodyStart ∨ t.bodyEnd < d.1)
    ⟨fun ⟨hcode, hnone, halone, haway⟩ => ⟨hcode, hnone, halone, haway⟩,
      fun h => ⟨h.code, h.none, h.alone, h.away⟩⟩

/-! ### Closures on the way back -/

namespace Closure

variable {c c' : Closure} {down? : Option (Nat × Nat)}

/-- A closure says the same wherever it stands, if it has the same head and body and lies on
the same way, forward or back. -/
theorem unplaced_block_eq {masked masked' : List Char} {down'? : Option (Nat × Nat)}
    (hhead : c.toHead = c'.toHead)
    (hbody : c.body masked = c'.body masked')
    (hreverse : c.isReverse down? = c'.isReverse down'?) :
    (c.block masked down?).unplaced = (c'.block masked' down'?).unplaced := by
  have h := agrees_of_body_eq down? down'? hbody (congrArg Head.builder hhead)
  rw [Block.unplaced, Block.unplaced, Block.mk.injEq]
  exact ⟨congrArg Head.table hhead, congrArg Head.kind hhead, h.columns, h.foreignKeys, h.dropped,
    h.droppedForeign,
    h.renamed, hreverse, rfl, rfl⟩

/-- A way that moved along with a closure is its way as it was before. -/
theorem isReverse_map_add {k k' : Nat} (h : c.bodyStart + k' = c'.bodyStart + k) :
    c'.isReverse (down?.map fun d => (d.1 + k', d.2 + k'))
      = c.isReverse (down?.map fun d => (d.1 + k, d.2 + k)) := by
  cases down? with
  | none => rfl
  | some d =>
      rw [isReverse, isReverse, Option.map_some, Option.map_some, Option.any_some,
        Option.any_some, Bool.eq_iff_iff]
      simp only [Bool.and_eq_true, decide_eq_true_eq]
      omega

section Shifted

variable {start stop : Nat} (old new : Nat)

/-- A closure in front of the body that is written begins where it began. -/
theorem shifted_of_le (h : c.bodyStart ≤ start) (hle : start ≤ stop) :
    (c.shifted start stop old new).bodyStart = c.bodyStart :=
  if_neg (by omega)

/-- A closure behind the body that is written begins as much later as the text has become
longer. -/
theorem shifted_of_lt (h : stop < c.bodyStart) (hle : start ≤ stop) :
    (c.shifted start stop old new).bodyStart = c.bodyStart + new - old :=
  if_pos (by omega)

end Shifted

end Closure

/-! ### Where closures stand -/

/-- A closure's body ends behind its start or right at it, if the body is empty. -/
theorem bodyStart_le_bodyEnd {masked : List Char} {c : Closure}
    (hc : c ∈ closuresOfMasked masked) :
    c.bodyStart ≤ c.bodyEnd := by
  rw [closuresOfMasked, List.mem_filterMap] at hc
  obtain ⟨m, -, hclose⟩ := hc
  obtain ⟨k, hk, rfl⟩ := Option.map_eq_some_iff.mp hclose
  exact (bounds_of_closeFrom hk).1

/-- Closures stand one behind the other, in the order in which their bodies begin, also
where one lies in another. -/
theorem pairwise_closures (masked : List Char) :
    (closuresOfMasked masked).Pairwise fun c d => c.bodyStart < d.bodyStart := by
  have hheads := pairwise_findAllFrom consumes_head 0 0 masked
  rw [closuresOfMasked, findAll, List.pairwise_filterMap]
  refine hheads.imp_of_mem fun {a b} _ hb hab c hc d hd => ?_
  obtain ⟨k, -, rfl⟩ := Option.map_eq_some_iff.mp hc
  obtain ⟨l, -, rfl⟩ := Option.map_eq_some_iff.mp hd
  obtain ⟨-, hlt, -⟩ := bounds_of_mem_findAllFrom consumes_head hb
  show a.stop < b.stop
  omega

/-- No closure stands twice, since no two bodies begin in one place. -/
theorem nodup_closures (masked : List Char) : (closuresOfMasked masked).Nodup :=
  (pairwise_closures masked).imp fun hlt heq =>
    absurd (congrArg Closure.bodyStart heq) (Nat.ne_of_lt hlt)

/-! ### The way back in three pieces -/

/-- The way back ends behind its beginning or right at it. -/
theorem le_of_mem_downSpan? {masked : List Char} {d : Nat × Nat} (hd : d ∈ downSpan? masked) :
    d.1 ≤ d.2 := by
  obtain ⟨m, hm, rfl⟩ := Option.map_eq_some_iff.mp hd
  obtain ⟨-, hlt, hlength⟩ := bounds_of_findFrom consumes_downHead hm
  show m.start ≤ (blockEnd? m.stop m.rest).getD masked.length
  cases hend : blockEnd? m.stop m.rest with
  | none =>
      rw [Option.getD_none]
      omega
  | some k =>
      obtain ⟨hle, -⟩ := bounds_of_closeFrom hend
      rw [Option.getD_some]
      omega

section Pieces

variable {x y z : List Char}

/-- A way back that begins in the last piece of a text is found as in that piece alone, so
far on as the pieces before it are long. -/
theorem downSpan?_append_of_none (hx : Firm downHead x) (hnone : findFrom downHead 0 x = none)
    (hy : findFrom downHead x.length (y ++ z) = findFrom downHead (x.length + y.length) z) :
    downSpan? (x ++ (y ++ z))
      = (downSpan? z).map fun d =>
        (d.1 + (x.length + y.length), d.2 + (x.length + y.length)) := by
  have hadd := findFrom_add (p := downHead) 0 (x.length + y.length) z
  rw [Nat.zero_add] at hadd
  have hlength : (x ++ (y ++ z)).length = z.length + (x.length + y.length) := by
    simp only [List.length_append]
    omega
  rw [downSpan?_append_of_behind hx hnone, hy, hadd, Option.map_map, hlength, downSpan?, find?,
    Option.map_map]
  congr 1
  funext m
  have hclose : blockEnd? (m.stop + (x.length + y.length)) m.rest
      = (blockEnd? m.stop m.rest).map (· + (x.length + y.length)) :=
    closeFrom_add .outside 1 m.stop (x.length + y.length) m.rest
  show (m.start + (x.length + y.length),
    (blockEnd? (m.stop + (x.length + y.length)) m.rest).getD _) = _
  rw [hclose]
  cases hend : blockEnd? m.stop m.rest with
  | none => simp [hend]
  | some k => simp [hend]

/-- If the way back begins behind the first two pieces, it is found in the last. -/
theorem findFrom_downHead_of_behind (hx : Firm downHead x) (hnone : findFrom downHead 0 x = none)
    (hbehind : ∀ d ∈ downSpan? (x ++ (y ++ z)), x.length + y.length < d.1) :
    findFrom downHead x.length (y ++ z) = findFrom downHead (x.length + y.length) z := by
  refine findFrom_of_start_le _ _ _ fun m hm => ?_
  refine Nat.le_of_lt
    (hbehind (m.start, (blockEnd? m.stop m.rest).getD (x ++ (y ++ z)).length) ?_)
  rw [downSpan?_append_of_behind hx hnone, hm]
  rfl

end Pieces

/-! ### A table written back -/

section WriteBack

variable {text table : String} {columns : List Column} {fks : List ForeignKey} {t : Closure}

/-- What is written is a body that was made here, and what comes before it is firm. -/
theorem Rewriting.written_eq (ht : creation? table (closures text) = some t)
    (h : Named columns fks)
    (r : Rewriting text.toList (writeBack text table columns fks).toList t) :
    Firm downHead r.maskedBefore ∧ ∃ indent close,
      IsBody t.builder indent close (tableCalls columns fks)
      ∧ r.written = bodyText t.builder indent close (tableCalls columns fks) := by
  obtain ⟨x, rest, -, -, -, hx, -, hmask, -⟩ := exists_front ht h
  constructor
  · have hsame : x = r.maskedBefore := by
      have hpieces := hmask.symm.trans r.mask_text
      exact List.append_inj_left hpieces (by rw [hx.length, r.length_before, r.start])
    rw [← hsame]
    exact hx.down
  · obtain ⟨indent, close, hbody, hnew⟩ :=
      @newBody_eq text.toList t columns fks
        (isName_builder_of_mem (List.mem_of_find?_eq_some ht)) h
    exact ⟨indent, close, hbody, (r.toPieces.written_eq ht).trans hnew⟩

/-- The way back is the same in the new text, or it moved along with what is behind the
body. -/
theorem Rewriting.downSpan?_cases (ht : creation? table (closures text) = some t)
    (h : Named columns fks)
    (hapart : t.Apart text.toList)
    (r : Rewriting text.toList (writeBack text table columns fks).toList t) :
    (∃ d, d.2 < t.bodyStart ∧ downSpan? (mask text.toList) = some d
        ∧ downSpan? (mask (writeBack text table columns fks).toList) = some d)
      ∨ ((∀ d ∈ downSpan? (mask text.toList), t.bodyEnd < d.1)
        ∧ downSpan? (mask text.toList)
            = (downSpan? r.maskedAfter).map (fun d => (d.1 + t.bodyEnd, d.2 + t.bodyEnd))
        ∧ downSpan? (mask (writeBack text table columns fks).toList)
            = (downSpan? r.maskedAfter).map fun d =>
                (d.1 + (t.bodyStart + r.written.length),
                  d.2 + (t.bodyStart + r.written.length))) := by
  obtain ⟨hfirm, indent, close, hbody, hwritten⟩ := r.written_eq ht h
  have hstart : r.maskedBefore.length = t.bodyStart := r.length_before.trans r.start
  have hstop : r.maskedBefore.length + r.maskedOld.length = t.bodyEnd := by
    rw [r.length_before, r.length_old, r.stop]
  have hpast := hapart.away
  rw [r.mask_text, ← hstart, ← hstop] at hpast ⊢
  rw [r.mask_new]
  cases hm : findFrom downHead 0 r.maskedBefore with
  | some m =>
      -- it begins in front of the body, and so it ends there
      left
      obtain ⟨-, hlt, hlength⟩ := bounds_of_findFrom consumes_downHead hm
      have hends := (hpast _ (downSpan?_append_of_front hfirm hm _)).resolve_right (by
        show ¬r.maskedBefore.length + r.maskedOld.length < m.start
        omega)
      obtain ⟨k, hk, hspan⟩ := exists_downSpan?_append_of_front hfirm hm hends
      exact ⟨(m.start, k), hk, hspan _, hspan _⟩
  | none =>
      right
      have hquiet : Quiet downHead r.written := by
        rw [hwritten]
        exact quiet_downHead_bodyText hbody
      have hbehind : ∀ d ∈ downSpan? (r.maskedBefore ++ (r.maskedOld ++ r.maskedAfter)),
          r.maskedBefore.length + r.maskedOld.length < d.1 := by
        intro d hd
        refine (hpast d hd).resolve_left ?_
        have hle := le_of_mem_downSpan? hd
        rw [downSpan?_append_of_behind hfirm hm] at hd
        obtain ⟨m, hm', rfl⟩ := Option.map_eq_some_iff.mp hd
        obtain ⟨hmstart, -, -⟩ := bounds_of_findFrom consumes_downHead hm'
        have hle : m.start ≤ _ := hle
        omega
      exact ⟨hbehind,
        downSpan?_append_of_none hfirm hm (findFrom_downHead_of_behind hfirm hm hbehind),
        downSpan?_append_of_none hfirm hm (findFrom_of_quiet hquiet _ _)⟩

/-- A way back behind the body lies behind it in the new text as well. -/
theorem lt_of_mem_downSpan?_map {after : List Char} {stop n : Nat}
    (hbehind : ∀ d ∈ (downSpan? after).map fun d => (d.1 + stop, d.2 + stop), stop < d.1) :
    ∀ d ∈ (downSpan? after).map fun d => (d.1 + n, d.2 + n), n < d.1 := by
  intro _ hm
  obtain ⟨d, hspan, rfl⟩ := Option.map_eq_some_iff.mp hm
  have hpos : stop < d.1 + stop := hbehind _ (Option.map_eq_some_iff.mpr ⟨d, hspan, rfl⟩)
  show n < d.1 + n
  omega

/-- A closure begins in front of the body that is written, at it, or behind it, but not
inside, where a closure would be lost. -/
theorem Rewriting.bodyStart_cases
    (r : Rewriting text.toList (writeBack text table columns fks).toList t)
    {c : Closure} (hc : c ∈ closures text) :
    c.bodyStart ≤ t.bodyStart ∨ t.bodyEnd < c.bodyStart := by
  have hmem : c ∈ closuresAround r.maskedBefore r.maskedAfter (r.before.length + r.old.length) :=
    r.closures_text ▸ hc
  have hlength := r.length_before
  have hstart := r.start
  have hstop := r.stop
  rcases cases_of_mem_closuresAround hmem with hcase | hcase | hcase
  · exact .inl (by omega)
  · exact .inl (by omega)
  · exact .inr (by omega)

/-- A closure that is not written lies on the same way as before: the way back moves along
with the text around it. -/
theorem Rewriting.isReverse_eq (ht : creation? table (closures text) = some t)
    (h : Named columns fks)
    (hapart : t.Apart text.toList)
    (r : Rewriting text.toList (writeBack text table columns fks).toList t)
    {c : Closure} (hc : c ∈ closures text) :
    (c.shifted t.bodyStart t.bodyEnd text.toList.length
      (writeBack text table columns fks).toList.length).isReverse
        (downSpan? (mask (writeBack text table columns fks).toList))
      = c.isReverse (downSpan? (mask text.toList)) := by
  obtain ⟨hold, hnew⟩ := r.length_eq
  have hle := bodyStart_le_bodyEnd (List.mem_of_find?_eq_some ht)
  rcases r.bodyStart_cases hc with hbefore | hbehind
  · have hstays := Closure.shifted_of_le text.toList.length
      (writeBack text table columns fks).toList.length hbefore hle
    rcases r.downSpan?_cases ht h hapart with ⟨d, -, hd, hd'⟩ | ⟨hpast, hd, hd'⟩
    · rw [hd, hd', Closure.isReverse, hstays]
      rfl
    · -- the way back is behind the closure in both texts
      have hnot : c.isReverse (downSpan? (mask text.toList)) = false :=
        Closure.isReverse_eq_false_iff.mpr fun d hm =>
          .inl (Nat.lt_of_le_of_lt (hbefore.trans hle) (hpast d hm))
      rw [hnot, Closure.isReverse_eq_false_iff, hstays, hd']
      intro d hm
      have hpos := lt_of_mem_downSpan?_map (hd ▸ hpast) d hm
      exact .inl (by omega)
  · have hmoves := Closure.shifted_of_lt text.toList.length
      (writeBack text table columns fks).toList.length hbehind hle
    rcases r.downSpan?_cases ht h hapart with ⟨d, hlt, hd, hd'⟩ | ⟨-, hd, hd'⟩
    · -- it is in front of the closure in both texts
      rw [hd, hd', Closure.isReverse_eq_false_iff.mpr, Closure.isReverse_eq_false_iff.mpr]
      · rintro _ ⟨⟩
        exact .inr (by omega)
      · rintro _ ⟨⟩
        exact .inr (by omega)
    · rw [hd, hd']
      exact Closure.isReverse_map_add (by omega)

/-- A closure that is not written says what it said, though it may stand in another place
now. -/
theorem Rewriting.unplaced_block_eq (ht : creation? table (closures text) = some t)
    (h : Named columns fks)
    (hapart : t.Apart text.toList)
    (r : Rewriting text.toList (writeBack text table columns fks).toList t)
    {c : Closure} (hc : c ∈ closures text) (hne : c ≠ t) :
    let new := (writeBack text table columns fks).toList
    ((c.shifted t.bodyStart t.bodyEnd text.toList.length new.length).block (mask new)
        (downSpan? (mask new))).unplaced
      = (c.block (mask text.toList) (downSpan? (mask text.toList))).unplaced := by
  intro new
  have hbody := (r.body_eq hc fun henc => hne (hapart.alone c hc henc)).2
  exact Closure.unplaced_block_eq rfl hbody (r.isReverse_eq ht h hapart hc)

/-- The closure that is written begins where it began and ends behind the new body. -/
theorem Rewriting.shifted_self
    (r : Rewriting text.toList (writeBack text table columns fks).toList t) :
    t.shifted t.bodyStart t.bodyEnd text.toList.length
      (writeBack text table columns fks).toList.length
      = { t with bodyEnd := t.bodyStart + r.written.length } := by
  obtain ⟨hold, hnew⟩ := r.length_eq
  have hend : t.bodyEnd + (t.bodyStart + r.written.length + r.after.length)
      - (t.bodyEnd + r.after.length)
      = t.bodyStart + r.written.length := by omega
  rw [Closure.shifted, if_neg (fun hmove => hmove.2 rfl), if_pos (Nat.le_refl _), hold,
    hnew, hend]

/-- The new body is what the closure that is written has as its body afterwards. -/
theorem Rewriting.body_self
    (r : Rewriting text.toList (writeBack text table columns fks).toList t) :
    Closure.body (mask (writeBack text table columns fks).toList)
      { t with bodyEnd := t.bodyStart + r.written.length } = r.written := by
  rw [Closure.body, r.mask_new, Nat.add_sub_cancel_left, ← r.start, ← r.length_before,
    List.drop_left, List.take_left]

/-- The closure that is written stays on the way forward, as the way back lies in front of
it or behind it. -/
theorem Rewriting.forward_self (ht : creation? table (closures text) = some t)
    (h : Named columns fks)
    (hapart : t.Apart text.toList)
    (r : Rewriting text.toList (writeBack text table columns fks).toList t) :
    ∀ d ∈ downSpan? (mask (writeBack text table columns fks).toList), t.bodyStart < d.1
      ∨ d.2 ≤ t.bodyStart := by
  rcases r.downSpan?_cases ht h hapart with ⟨d, hlt, -, hd⟩ | ⟨hpast, hd, hd'⟩
  · rw [hd]
    rintro _ ⟨⟩
    exact .inr (Nat.le_of_lt hlt)
  · rw [hd']
    intro d hm
    have hpos := lt_of_mem_downSpan?_map (hd ▸ hpast) d hm
    exact .inl (by omega)

/-- The closure that is written says what the table's own migration would, of the columns
and keys that were written. -/
theorem Rewriting.unplaced_block_self (ht : creation? table (closures text) = some t)
    (h : Named columns fks)
    (hapart : t.Apart text.toList)
    (r : Rewriting text.toList (writeBack text table columns fks).toList t) :
    let new := (writeBack text table columns fks).toList
    ((t.shifted t.bodyStart t.bodyEnd text.toList.length new.length).block (mask new)
        (downSpan? (mask new))).unplaced
      = sourceBlock ⟨table, columns, fks⟩ := by
  obtain ⟨-, indent, close, hisBody, hwritten⟩ := r.written_eq ht h
  obtain ⟨hkind, htable⟩ := of_creation? ht
  have hforward := r.forward_self ht h hapart
  intro new
  rw [r.shifted_self]
  exact unplaced_block_of_body (c := { t with bodyEnd := t.bodyStart + r.written.length })
    hforward hkind
    htable hisBody (r.body_self.trans hwritten)

/-- The closures in front of one and behind it are closures of the same text and others than
this one. -/
theorem mem_closures_of_cut {front rest : List Closure}
    (hcut : closures text = front ++ t :: rest) {c : Closure}
    (hc : c ∈ front ∨ c ∈ rest) : c ∈ closures text ∧ c ≠ t := by
  have hnodup := nodup_closures (mask text.toList)
  rw [show closuresOfMasked (mask text.toList) = front ++ t :: rest from hcut, List.nodup_middle,
    List.nodup_cons, List.mem_append, not_or] at hnodup
  refine ⟨?_, ?_⟩
  · rw [hcut, List.mem_append, List.mem_cons]
    exact hc.imp_right .inr
  · rintro rfl
    exact hc.elim hnodup.1.1 hnodup.1.2

/-- A table that is written back into a closure that stands apart takes the place of
one block, the first that creates the table, and leaves the others. -/
theorem exists_split_blocks_writeBack (ht : creation? table (closures text) = some t)
    (h : Named columns fks)
    (hapart : t.Apart text.toList) :
    ∃ before b after, blocks text = before ++ b :: after
      ∧ (∀ d ∈ before, ¬(d.kind = .create ∧ d.table = table))
      ∧ b.kind = .create ∧ b.table = table ∧ b.reverse = false
      ∧ (blocks (writeBack text table columns fks)).map Block.unplaced
        = before.map Block.unplaced ++ sourceBlock ⟨table, columns, fks⟩
          :: after.map Block.unplaced := by
  obtain ⟨r⟩ := nonempty_rewriting hapart.code ht hapart.none h
  obtain ⟨hcreation, front, rest, hcut, hfront⟩ := List.find?_eq_some_iff_append.mp ht
  have hkind : t.kind = .create ∧ t.table = table := by simpa using hcreation
  have hcutMasked : closuresOfMasked (mask text.toList) = front ++ t :: rest := hcut
  let down := downSpan? (mask text.toList)
  let new := (writeBack text table columns fks).toList
  -- every closure but the one that is written says what it said
  have hsame : ∀ l : List Closure, (∀ c ∈ l, c ∈ closures text ∧ c ≠ t) →
      ((l.map (Closure.shifted t.bodyStart t.bodyEnd text.toList.length new.length)).map
        (Closure.block (mask new) (downSpan? (mask new)))).map Block.unplaced
        = (l.map (Closure.block (mask text.toList) down)).map Block.unplaced := by
    intro l hl
    rw [List.map_map, List.map_map, List.map_map]
    refine List.map_congr_left fun c hc => ?_
    exact r.unplaced_block_eq ht h hapart (hl c hc).1 (hl c hc).2
  have hblocks : blocks text
      = (front ++ t :: rest).map (Closure.block (mask text.toList) down) := by
    rw [blocks, hcutMasked]
  have hblocksNew : blocks (writeBack text table columns fks)
      = ((front ++ t :: rest).map
        (Closure.shifted t.bodyStart t.bodyEnd text.toList.length new.length)).map
          (Closure.block (mask new) (downSpan? (mask new))) := by
    rw [blocks, r.closures_eq, hcutMasked]
  refine ⟨front.map (Closure.block (mask text.toList) down), t.block (mask text.toList) down,
    rest.map (Closure.block (mask text.toList) down), by
      rw [hblocks, List.map_append, List.map_cons], ?_,
    hkind.1, hkind.2, ?_, ?_⟩
  · intro d hd hcreates
    obtain ⟨c, hc, rfl⟩ := List.mem_map.mp hd
    have hnot := hfront c hc
    have hkindc : c.kind = .create := hcreates.1
    have htablec : c.table = table := hcreates.2
    simp [hkindc, htablec] at hnot
  · have hle := bodyStart_le_bodyEnd (List.mem_of_find?_eq_some ht)
    rw [Closure.reverse_block, Closure.isReverse_eq_false_iff]
    intro d hd
    have haway := hapart.away d hd
    omega
  · rw [hblocksNew, List.map_append, List.map_append, List.map_append, List.map_cons,
      List.map_cons, List.map_cons, hsame front fun c hc => mem_closures_of_cut hcut (.inl hc),
      hsame rest fun c hc => mem_closures_of_cut hcut (.inr hc),
      r.unplaced_block_self ht h hapart]

end WriteBack

end SchemaAtlas.Migration
