import SchemaAtlas.Model.Source
import SchemaAtlas.Proofs.Migration.Settled
import SchemaAtlas.Proofs.Migration.Source

/-!
# `SchemaAtlas.Proofs.Migration.Bundle`: migrations one after another in one text

Migrations that are made here can be shown together, with a separator in
between. Read as one text, they give one block each, in their order
(`unplaced_blocks_bundle`): each block is what its own migration says, and the
way back that the reader finds is that of the first migration, which ends before
the second begins.
-/

set_option autoImplicit false

namespace SchemaAtlas.Migration

open SchemaAtlas.Scan SchemaAtlas.Text

/-! ### What one migration says -/

/-- A block without the place of its body. -/
def Block.unplaced (b : Block) : Block :=
  { b with bodyStart := 0, bodyEnd := 0 }

/-- The block that a draft makes, on the way forward. -/
def Draft.block (h : Head) (d : Draft) : Block where
  table := h.table
  kind := h.kind
  columns := d.finalColumns
  foreignKeys := d.finalForeignKeys
  dropped := d.dropped
  droppedForeign := d.droppedForeign
  renamed := d.renamed

/-- What the migration that creates a table says. -/
def sourceBlock (t : Table) : Block :=
  (tableDraft t).block ⟨.create, t.name, usualBuilder⟩

namespace Closure

/-- Holds of a closure that lies on the way back. -/
def isReverse (down? : Option (Nat × Nat)) (c : Closure) : Bool :=
  down?.any fun d => d.1 ≤ c.bodyStart && c.bodyStart < d.2

variable {c : Closure} {down? : Option (Nat × Nat)}

/-- A closure's block is on the way back exactly if the closure lies there. -/
theorem reverse_block (masked : List Char) :
    (c.block masked down?).reverse = c.isReverse down? := rfl

/-- A closure is on the way forward if its body begins in front of the way back or behind
it, or if there is no way back. -/
theorem isReverse_eq_false_iff :
    c.isReverse down? = false ↔ ∀ d ∈ down?, c.bodyStart < d.1 ∨ d.2 ≤ c.bodyStart := by
  cases down? with
  | none => simp [isReverse]
  | some d =>
      rw [isReverse, Option.any_some, Bool.and_eq_false_iff, decide_eq_false_iff_not,
        decide_eq_false_iff_not, Nat.not_le, Nat.not_lt]
      simp

end Closure

/-- A closure that does not lie on the way back says what its draft says. -/
theorem unplaced_block {masked : List Char} {down? : Option (Nat × Nat)} {c : Closure}
    (h : ∀ d ∈ down?, c.bodyStart < d.1 ∨ d.2 ≤ c.bodyStart) :
    (c.block masked down?).unplaced = (c.draft masked).block c.toHead := by
  have hreverse : (down?.any fun d => d.1 ≤ c.bodyStart && c.bodyStart < d.2) = false :=
    Closure.isReverse_eq_false_iff.mpr h
  rw [Closure.block, hreverse]
  rfl

/-- If its body has a table's calls and it creates the table, that is what the table's own
migration says. -/
theorem unplaced_block_of_body {masked indent close : List Char} {down? : Option (Nat × Nat)}
    {c : Closure}
    {t : Table} (hdown : ∀ d ∈ down?, c.bodyStart < d.1 ∨ d.2 ≤ c.bodyStart)
    (hkind : c.kind = .create) (htable : c.table = t.name)
    (h : IsBody c.builder indent close (tableCalls t.columns t.foreignKeys))
    (hbody : c.body masked
      = bodyText c.builder indent close (tableCalls t.columns t.foreignKeys)) :
    (c.block masked down?).unplaced = sourceBlock t := by
  have hdraft : c.draft masked = tableDraft t := by
    rw [Closure.draft, hbody, statements_bodyText h, tableDraft]
  rw [unplaced_block hdown, hdraft, sourceBlock]
  show Draft.block ⟨c.kind, c.table, c.builder⟩ _ = _
  rw [hkind, htable]
  rfl

/-- A migration says what it does behind any text whose way back has ended, since its own
closure does not lie on that way. -/
theorem unplaced_block_sourceClosure {t : Table} (h : Writable t) (x r : List Char)
    (down? : Option (Nat × Nat))
    (hdown : ∀ d ∈ down?, (sourceClosure t x.length).bodyStart < d.1 ∨ d.2 ≤ x.length) :
    ((sourceClosure t x.length).block (x ++ (maskedSource t ++ r)) down?).unplaced
      = sourceBlock t := by
  refine unplaced_block_of_body (fun d hd => ?_) rfl rfl (isBody_source h.spelled)
    (body_sourceClosure x r)
  have hstart : x.length ≤ (sourceClosure t x.length).bodyStart := by
    simp only [sourceClosure]
    omega
  rcases hdown d hd with hlt | hle
  · exact .inl hlt
  · exact .inr (Nat.le_trans hle hstart)

/-! ### The migrations behind the first -/

/-- What stands between migrations, with its remark blanked out. -/
def maskedSeparator : List Char := mask Model.separator.toList

/-- What separates migrations that are shown together is a remark, and in it nothing is
found. -/
theorem silent_separator : Silent Model.separator.toList maskedSeparator := by
  have hblank : Silent maskedSeparator maskedSeparator := silent_of_isSilent (by decide +kernel)
  exact ⟨fun _ => rfl, hblank.head, hblank.down⟩

/-- The migrations behind the first, each with a separator in front. -/
def later (ts : List Table) : List Char :=
  ts.flatMap fun t => Model.separator.toList ++ (source t).toList

/-- The same with remarks blanked out. -/
def maskedLater (ts : List Table) : List Char :=
  ts.flatMap fun t => maskedSeparator ++ maskedSource t

/-- Migrations that are shown together are the first one and what comes later, each behind a
separator. -/
theorem toList_intercalate_source (t : Table) (ts : List Table) :
    (Model.separator.intercalate ((t :: ts).map source)).toList
      = (source t).toList ++ later ts := by
  induction ts generalizing t with
  | nil => simp [later]
  | cons u ts ih =>
      rw [List.map_cons, List.map_cons, String.intercalate_cons_cons, ← List.map_cons,
        String.toList_append, String.toList_append, ih u]
      simp only [later, List.flatMap_cons, List.append_assoc]

/-- What comes later masks to the masked migrations, each behind the separator without its
remark. -/
theorem mask_later {ts : List Table} (h : ∀ t ∈ ts, Writable t) :
    mask (later ts) = maskedLater ts := by
  induction ts with
  | nil => rfl
  | cons t ts ih =>
      have hmasks :=
        masks_append silent_separator.masks (masks_source (h t List.mem_cons_self).spelled)
      have hrest := ih fun u hu => h u (List.mem_cons_of_mem t hu)
      rw [later, List.flatMap_cons, hmasks, ← later, hrest, maskedLater, maskedLater,
        List.flatMap_cons]

/-- The migrations behind some text give a block each, whatever the way back of the text in
front, if it has ended. -/
theorem unplaced_blocks_later {ts : List Table} (h : ∀ t ∈ ts, Writable t) (x : List Char)
    (down? : Option (Nat × Nat)) (hdown : ∀ d ∈ down?, d.2 ≤ x.length) :
    (((findAllFrom head x.length 0 (maskedLater ts)).filterMap Head.close?).map
      (Closure.block (x ++ maskedLater ts) down?)).map Block.unplaced = ts.map sourceBlock := by
  induction ts generalizing x with
  | nil => rfl
  | cons t ts ih =>
      have ht := h t List.mem_cons_self
      have hlength : x.length + maskedSeparator.length = (x ++ maskedSeparator).length := by
        rw [List.length_append]
      have hlength' : (x ++ maskedSeparator).length + (maskedSource t).length
          = (x ++ maskedSeparator ++ maskedSource t).length :=
        List.length_append.symm
      have hcut : maskedLater (t :: ts)
          = maskedSeparator ++ (maskedSource t ++ maskedLater ts) := by
        simp only [maskedLater, List.flatMap_cons, List.append_assoc]
      -- the way back is that of the first migration, which ended in front of all these
      have hfirst := unplaced_block_sourceClosure ht (x ++ maskedSeparator) (maskedLater ts) down?
        fun d hd => by
          rw [List.length_append]
          exact .inr (Nat.le_add_right_of_le (hdown d hd))
      have hrest := ih (fun u hu => h u (List.mem_cons_of_mem t hu))
        (x ++ maskedSeparator ++ maskedSource t) fun d hd => by
          rw [List.append_assoc, List.length_append]
          exact Nat.le_add_right_of_le (hdown d hd)
      rw [hcut, findAllFrom_of_quiet silent_separator.head, hlength,
        filterMap_close?_source ht.spelled, hlength', ← List.append_assoc x, List.map_cons,
        List.map_cons, hfirst, ← List.append_assoc, hrest, List.map_cons]

/-! ### The whole text -/

/-- Migrations that are shown together are read as a block each, in their order, though all
but the first have a way back in front of them. -/
theorem unplaced_blocks_intercalate {ts : List Table} (h : ∀ t ∈ ts, Writable t) :
    (blocks (Model.separator.intercalate (ts.map source))).map Block.unplaced
      = ts.map sourceBlock := by
  cases ts with
  | nil => rfl
  | cons t ts =>
      have ht := h t List.mem_cons_self
      have hts := fun u hu => h u (List.mem_cons_of_mem t hu)
      -- only the first way back counts, and it stands behind the first closure and before the
      -- others
      obtain ⟨a, b, hdown, hstart, hend⟩ := exists_downSpan?_source ht.spelled (maskedLater ts)
      have hbefore : ∀ d ∈ some (a, b), (sourceClosure t ([] : List Char).length).bodyStart < d.1
          ∨ d.2 ≤ ([] : List Char).length := by
        rintro _ ⟨⟩
        rw [List.length_nil]
        exact .inl hstart
      have hfirst := unplaced_block_sourceClosure ht [] (maskedLater ts) (some (a, b)) hbefore
      rw [List.length_nil, List.nil_append] at hfirst
      have hrest := unplaced_blocks_later hts (maskedSource t) (some (a, b)) fun d hd => by
        cases hd
        exact hend
      have hmask : mask (Model.separator.intercalate ((t :: ts).map source)).toList
          = maskedSource t ++ maskedLater ts := by
        rw [toList_intercalate_source, masks_source ht.spelled, mask_later hts]
      rw [blocks, hmask, hdown, closuresOfMasked, findAll, filterMap_close?_source ht.spelled,
        Nat.zero_add, List.map_cons, List.map_cons, List.map_cons, hrest, hfirst]

end SchemaAtlas.Migration
