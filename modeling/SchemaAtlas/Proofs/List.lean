import Mathlib.Data.List.Forall2

/-!
# `SchemaAtlas.Proofs.List`: going through lists

Facts about steps that may fail (`exists_of_bind_eq_ok`, `exists_of_bind_eq_error`), about lists
that are gone through with something that may give nothing (`sublist_map_filterMap`) or
fail (`eq_filterMap_of_mapM`), about the first and the last
element of a kind, about the only one with a key (`filter_eq_singleton`,
`find?_eq_of_perm`), about what a fold leaves as it is (`apply_foldl`) and what it enters into
a list (`foldl_eq_append_of_nodup`), and about lists in step with one another
(`nodup_of_forall₂`).
-/

set_option autoImplicit false

namespace SchemaAtlas

variable {α β γ ε : Type}

/-! ### One step after another -/

section Bind

variable {x : Except ε α} {f : α → Except ε β}

/-- Two steps succeed one after the other if each of them does, the second with what the
first one gives. -/
theorem exists_of_bind_eq_ok {b : β} (h : x >>= f = .ok b) : ∃ a, x = .ok a ∧ f a = .ok b := by
  cases x with
  | error e => cases h
  | ok a => exact ⟨a, rfl, h⟩

/-- Two steps one after the other fail as the first one does, or as the second does with
what the first one gives. -/
theorem exists_of_bind_eq_error {e : ε} (h : x >>= f = .error e) :
    x = .error e ∨ ∃ a, x = .ok a ∧ f a = .error e := by
  cases x with
  | error e' =>
      cases h
      exact .inl rfl
  | ok a => exact .inr ⟨a, rfl, h⟩

end Bind

/-! ### Going through a list -/

/-- What is found while going through a list stands in the order of what it was found for. -/
theorem sublist_map_filterMap {f : α → Option β} {g : β → γ} {k : α → γ}
    {l : List α} (h : ∀ a ∈ l, ∀ b, f a = some b → g b = k a) :
    ((l.filterMap f).map g).Sublist (l.map k) := by
  induction l with
  | nil => exact List.Sublist.refl _
  | cons a l ih =>
      have hrest := ih fun a' ha' => h a' (List.mem_cons_of_mem a ha')
      cases ha : f a with
      | none =>
          rw [List.filterMap_cons_none ha, List.map_cons]
          exact hrest.cons _
      | some b =>
          rw [List.filterMap_cons_some ha, List.map_cons, List.map_cons,
            h a List.mem_cons_self b ha]
          exact hrest.cons_cons _

/-- If nothing fails, what is read from a list is what is read from its elements. -/
theorem eq_filterMap_of_mapM {f : α → Except ε β} {l : List α} {found : List β}
    (h : l.mapM f = .ok found) :
    found = l.filterMap fun a => (f a).toOption := by
  induction l generalizing found with
  | nil =>
      cases h
      rfl
  | cons a l ih =>
      rw [List.mapM_cons] at h
      obtain ⟨first, hfirst, h⟩ := exists_of_bind_eq_ok h
      obtain ⟨rest, hrest, h⟩ := exists_of_bind_eq_ok h
      obtain rfl := Except.ok.inj h
      rw [List.filterMap_cons, hfirst, ← ih hrest]
      rfl

/-- What is read from a list is read from one of its elements, by itself. -/
theorem exists_of_mem_mapM {f : α → Except ε β} {l : List α} {found : List β}
    (h : l.mapM f = .ok found)
    {b : β} (hb : b ∈ found) : ∃ a ∈ l, f a = .ok b := by
  rw [eq_filterMap_of_mapM h] at hb
  obtain ⟨a, ha, hsome⟩ := List.mem_filterMap.mp hb
  refine ⟨a, ha, ?_⟩
  cases hfa : f a with
  | error failure =>
      rw [hfa] at hsome
      cases hsome
  | ok found =>
      rw [hfa] at hsome
      exact congrArg Except.ok (Option.some.inj hsome)

/-- Going through a list does not fail exactly if none of its elements does. -/
theorem exists_mapM_iff {f : α → Except ε β} {l : List α} :
    (∃ found, l.mapM f = .ok found) ↔ ∀ a ∈ l, ∃ b, f a = .ok b := by
  induction l with
  | nil => exact ⟨fun _ a ha => absurd ha List.not_mem_nil, fun _ => ⟨[], rfl⟩⟩
  | cons a l ih =>
      rw [List.mapM_cons, List.forall_mem_cons, ← ih]
      cases ha : f a with
      | error e => simp [bind, Except.bind]
      | ok b =>
          cases hl : l.mapM f with
          | error e => simp [bind, Except.bind]
          | ok rest => simp [bind, Except.bind, pure, Except.pure]

/-- Going through a list fails as one of its elements does, the first one that fails. -/
theorem exists_of_mapM_eq_error {f : α → Except ε β} {l : List α} {e : ε}
    (h : l.mapM f = .error e) :
    ∃ a ∈ l, f a = .error e := by
  induction l with
  | nil => cases h
  | cons a l ih =>
      rw [List.mapM_cons] at h
      rcases exists_of_bind_eq_error h with ha | ⟨b, -, h⟩
      · exact ⟨a, List.mem_cons_self, ha⟩
      rcases exists_of_bind_eq_error h with hl | ⟨rest, -, h⟩
      · obtain ⟨a', ha', hfails⟩ := ih hl
        exact ⟨a', List.mem_cons_of_mem a ha', hfails⟩
      · cases h

/-- Going through a list fails if one of its elements fails, when all failures are alike. -/
theorem mapM_eq_error_iff {f : α → Except ε β}
    (hf : ∀ a a' e e', f a = .error e → f a' = .error e' → e = e')
    {l : List α} {e : ε} : l.mapM f = .error e ↔ ∃ a ∈ l, f a = .error e := by
  refine ⟨exists_of_mapM_eq_error, fun ⟨a, ha, hfails⟩ => ?_⟩
  cases hl : l.mapM f with
  | error e' =>
      obtain ⟨a', -, hfails'⟩ := exists_of_mapM_eq_error hl
      rw [hf a' a e' e hfails' hfails]
  | ok found =>
      obtain ⟨b, hb⟩ := exists_mapM_iff.mp ⟨found, hl⟩ a ha
      rw [hfails] at hb
      cases hb

/-- An element that is not the first one to satisfy `p` outlasts the removal of that first
one. -/
theorem mem_eraseP_of_find?_ne {p : α → Bool} {l : List α} {a : α} (ha : a ∈ l)
    (h : l.find? p ≠ some a) :
    a ∈ l.eraseP p := by
  induction l with
  | nil => cases ha
  | cons b l ih =>
      cases hb : p b with
      | true =>
          rw [List.find?_cons_of_pos hb] at h
          rw [List.eraseP_cons_of_pos hb]
          exact (List.mem_cons.mp ha).resolve_left fun heq => h (congrArg some heq.symm)
      | false =>
          have hno : ¬p b = true := by simp [hb]
          rw [List.find?_cons_of_neg hno] at h
          rw [List.eraseP_cons_of_neg hno]
          exact List.mem_cons.mpr ((List.mem_cons.mp ha).imp_right fun hl => ih hl h)

/-- The last element of a kind is the one behind which there is no other. -/
theorem find?_reverse_eq_some_iff {p : α → Bool} {l : List α} {a : α} :
    l.reverse.find? p = some a
      ↔ p a = true ∧ ∃ before after, l = before ++ a :: after ∧ ∀ b ∈ after, p b = false := by
  rw [List.find?_eq_some_iff_append]
  constructor
  · rintro ⟨ha, later, earlier, hl, hlater⟩
    refine ⟨ha, earlier.reverse, later.reverse, ?_, fun b hb => ?_⟩
    · rw [← List.reverse_reverse l, hl]
      simp
    · simpa using hlater b (List.mem_reverse.mp hb)
  · rintro ⟨ha, before, after, rfl, hafter⟩
    exact ⟨ha, after.reverse, before.reverse, by simp,
      fun b hb => by simpa using hafter b (List.mem_reverse.mp hb)⟩

/-- An element whose key does not stand behind it is the last with its key. -/
theorem find?_reverse_of_notMem [BEq β] [LawfulBEq β] {key : α → β} {before after : List α}
    {a : α}
    (h : key a ∉ after.map key) :
    (before ++ a :: after).reverse.find? (fun b => key b == key a) = some a :=
  find?_reverse_eq_some_iff.mpr ⟨beq_self_eq_true _, before, after, rfl, fun b hb =>
    beq_eq_false_iff_ne.mpr fun hkey => h (List.mem_map.mpr ⟨b, hb, hkey⟩)⟩

/-- Of the elements with a key one is the last: the list can be cut at it, with no such
element behind. -/
theorem exists_last_of_mem {key : α → β} {l : List α} {k : β} (h : k ∈ l.map key) :
    ∃ before a after, l = before ++ a :: after ∧ key a = k ∧ k ∉ after.map key := by
  induction l with
  | nil => cases h
  | cons b l ih =>
      by_cases hl : k ∈ l.map key
      · obtain ⟨before, a, after, rfl, ha, hafter⟩ := ih hl
        exact ⟨b :: before, a, after, rfl, ha, hafter⟩
      · have hb : key b = k := ((List.mem_cons.mp h).resolve_right hl).symm
        exact ⟨[], b, l, rfl, hb, hl⟩

/-- Where no key stands twice, only one element has a key, so what is chosen by the key of
an element is this element alone. -/
theorem filter_eq_singleton {p : α → Bool} {g : α → β} {l : List α} (hd : (l.map g).Nodup) {a : α}
    (ha : a ∈ l)
    (hp : ∀ b, p b = true ↔ g b = g a) : l.filter p = [a] := by
  induction l with
  | nil => cases ha
  | cons b l ih =>
      rw [List.map_cons, List.nodup_cons] at hd
      rcases List.mem_cons.mp ha with rfl | ha
      · have hnone : l.filter p = [] := List.filter_eq_nil_iff.mpr fun b hb hpb =>
          hd.1 ((hp b).mp hpb ▸ List.mem_map_of_mem hb)
        rw [List.filter_cons_of_pos ((hp a).mpr rfl), hnone]
      · have hb : ¬p b = true := fun hpb => hd.1 ((hp b).mp hpb ▸ List.mem_map_of_mem ha)
        rw [List.filter_cons_of_neg hb, ih hd.2 ha]

/-- Where no key stands twice, the first element with a key is the same in any order of the
list, as it is the only one. -/
theorem find?_eq_of_perm [BEq β] [LawfulBEq β] {key : α → β} {l l' : List α} (hperm : l.Perm l')
    (hd : (l.map key).Nodup) (k : β) :
    l.find? (fun a => key a == k) = l'.find? (fun a => key a == k) := by
  have hfilter := hperm.filter fun a => key a == k
  have hlength : (l.filter fun a => key a == k).length ≤ 1 := by
    cases hl : l.filter fun a => key a == k with
    | nil => exact Nat.zero_le 1
    | cons a rest =>
        obtain ⟨ha, hk⟩ := List.mem_filter.mp (hl ▸ List.mem_cons_self (a := a) (l := rest))
        have hone := filter_eq_singleton (p := fun b => key b == k) hd ha fun b => by
          rw [beq_iff_eq, ← eq_of_beq hk]
        exact Nat.le_of_eq (congrArg List.length (hl.symm.trans hone))
  rw [← List.head?_filter, ← List.head?_filter]
  cases hl : l.filter fun a => key a == k with
  | nil =>
      rw [hl] at hfilter
      rw [hfilter.nil_eq]
  | cons a rest =>
      rw [hl] at hfilter hlength
      obtain rfl : rest = [] :=
        List.eq_nil_of_length_eq_zero (Nat.le_zero.mp (Nat.le_of_succ_le_succ hlength))
      rw [List.singleton_perm.mp hfilter]

/-! ### Folding -/

section Fold

variable {f : β → α → β} {l : List α}

/-- What no step of a fold changes stays as it is through the whole fold. -/
theorem apply_foldl {g : β → γ} (h : ∀ a ∈ l, ∀ b, g (f b a) = g b) (b : β) :
    g (l.foldl f b) = g b :=
  List.foldlRecOn (motive := fun c => g c = g b) l f rfl fun c hc a ha => (h a ha c).trans hc

end Fold

section Enter

variable {put : List α → α → List α} {new l : List α}

/-- What stands in a list in the end stood in it before, or was put there. -/
theorem mem_or_mem_of_mem_foldl (hput : ∀ l a, ∀ b ∈ put l a, b = a ∨ b ∈ l) {b : α}
    (hb : b ∈ new.foldl put l) : b ∈ l ∨ b ∈ new :=
  List.foldlRecOn (motive := fun l' => b ∈ l' → b ∈ l ∨ b ∈ new) new put .inl
    (fun l' ih a ha hb => (hput l' a b hb).elim (fun h => .inr (h ▸ ha)) ih) hb

/-- If what is put into a list under a new key goes to the end, so does all that is put
there under new and distinct keys. -/
theorem foldl_eq_append_of_nodup {key : α → β}
    (hput : ∀ l a, key a ∉ l.map key → put l a = l ++ [a])
    (h : ((l ++ new).map key).Nodup) : new.foldl put l = l ++ new := by
  induction new generalizing l with
  | nil => rw [List.foldl_nil, List.append_nil]
  | cons a new ih =>
      rw [List.append_cons] at h
      have ha : key a ∉ l.map key := by
        rw [List.map_append, List.map_append, List.nodup_append] at h
        have hfirst := List.nodup_append.mp h.1
        exact fun hm => hfirst.2.2 _ hm _ List.mem_cons_self rfl
      rw [List.foldl_cons, hput l a ha, ih h, List.append_assoc, List.singleton_append]

end Enter

/-! ### Lists in step -/

/-- What is made of the first parts of pairs alone is made of the first list, if the second
one is long enough. -/
theorem map_fst_zip_of_le (f : α → γ) {l : List α} {l' : List β} (h : l.length ≤ l'.length) :
    (l.zip l').map (fun m => f m.1) = l.map f := by
  calc (l.zip l').map (fun m => f m.1) = ((l.zip l').map Prod.fst).map f := by
        rw [List.map_map]
        rfl
    _ = l.map f := by rw [List.map_fst_zip h]

section Step

variable {R : α → β → Prop} {l : List α} {l' : List β}

/-- Of two lists in step, each element of the first has one of the second at its side. -/
theorem exists_of_mem_left_of_forall₂ (h : List.Forall₂ R l l') {a : α} (ha : a ∈ l) :
    ∃ b ∈ l', R a b := by
  induction h with
  | nil => cases ha
  | cons hfirst _ ih =>
      rcases List.mem_cons.mp ha with rfl | ha
      · exact ⟨_, List.mem_cons_self, hfirst⟩
      · obtain ⟨b, hb, hab⟩ := ih ha
        exact ⟨b, List.mem_cons_of_mem _ hb, hab⟩

/-- Of two lists in step, each element of the second has one of the first at its side. -/
theorem exists_of_mem_right_of_forall₂ (h : List.Forall₂ R l l') {b : β} (hb : b ∈ l') :
    ∃ a ∈ l, R a b :=
  exists_of_mem_left_of_forall₂ (R := fun b a => R a b) h.flip hb

/-- A list has no element twice if it is in step with one that has none, and each of its
elements is in step with one only. -/
theorem nodup_of_forall₂ (h : List.Forall₂ R l l') (hone : ∀ a a' b, R a b → R a' b → a = a')
    (hl : l.Nodup) :
    l'.Nodup := by
  induction h with
  | nil => exact List.nodup_nil
  | cons hfirst hrest ih =>
      rw [List.nodup_cons] at hl ⊢
      refine ⟨fun hmem => hl.1 ?_, ih hl.2⟩
      obtain ⟨a, ha, hab⟩ := exists_of_mem_right_of_forall₂ hrest hmem
      rw [hone _ _ _ hfirst hab]
      exact ha

end Step

end SchemaAtlas
