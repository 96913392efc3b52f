import SchemaAtlas.Proofs.Naming

/-!
# `SchemaAtlas.Proofs.Naming.Singular`: when the singular undoes the plural

The rules for singular and plural are told here of words that are cut in front of their
endings. A plural has one of four shapes (`pluralChars_cases`), and for each ending that
the singular takes off there is an equation (`singularChars_append_ies`,
`singularChars_append_es`, `singularChars_append_s`).

The singular takes the longest ending that fits. So it gives a word back from its plural
unless the end of the word and the `s` of the plural make a longer ending together, or the
word ended in `s` before. These are the `lossyEnds`, and no other end does any harm
(`singularize_pluralize_iff`).
-/

set_option autoImplicit false

namespace SchemaAtlas.Naming

open SchemaAtlas.Text

/-! ### The ends of words -/

/-- The hissing sounds at the ends of words. -/
def hissingEnds : List String := ["s", "sh", "ch", "x", "z"]

/-- The ends of words that the singular of the plural lacks. -/
def lossyEnds : List String := "s" :: "ie" :: hissingEnds.map (· ++ "e")

/-- A word hisses if it ends in one of the hissing sounds. The check reads the word from its
end, hence the reversal. -/
theorem hisses_reverse_iff (w : List Char) :
    hisses w.reverse = true ↔ ∃ hiss ∈ hissingEnds, hiss.toList <:+ w := by
  have hlists : hissingEnds.map String.toList
      = [['s'], ['s', 'h'], ['c', 'h'], ['x'], ['z']] := rfl
  have hexists : (∃ hiss ∈ hissingEnds, hiss.toList <:+ w)
      ↔ ∃ hiss ∈ hissingEnds.map String.toList, hiss.reverse <+: w.reverse := by
    simp only [List.mem_map, exists_exists_and_eq_and, List.reverse_prefix]
  rw [hexists, hlists]
  -- the rule looks at a word from its end, one letter or two
  generalize w.reverse = r
  fun_cases hisses r with
  | case1 => simp
  | case2 => simp
  | case3 => simp
  | case4 => simp
  | case5 => simp
  | case6 r hs hx hz hsh hch =>
    refine iff_of_false Bool.false_ne_true ?_
    rintro ⟨hiss, hmem, rest, rfl⟩
    simp only [List.mem_cons, List.not_mem_nil, or_false] at hmem
    rcases hmem with rfl | rfl | rfl | rfl | rfl
    · exact hs rest rfl
    · exact hsh rest rfl
    · exact hch rest rfl
    · exact hx rest rfl
    · exact hz rest rfl

/-- Without a line break at the end, the ending of a word is its last characters. -/
theorem ending_eq_reverse {w : List Char} (h : ¬['\n'] <:+ w) : ending w = w.reverse := by
  rw [ending]
  split
  · rename_i r hr
    refine absurd ?_ h
    rw [← List.reverse_prefix, hr]
    simp
  · rfl

/-- A word is taken for the plural of a hissing one if it ends in `es` behind a word that
hisses. -/
theorem endsInHissingEs_iff {w : List Char} (h : ¬['\n'] <:+ w) :
    endsInHissingEs (ending w) = true ↔ ∃ v, w = v ++ ['e', 's'] ∧ hisses v.reverse = true := by
  rw [ending_eq_reverse h]
  constructor
  · intro hes
    unfold endsInHissingEs at hes
    split at hes
    · rename_i r hr
      refine ⟨r.reverse, ?_, by rwa [List.reverse_reverse]⟩
      rw [← List.reverse_reverse w, hr]
      simp
    · cases hes
  · rintro ⟨v, rfl, hv⟩
    simpa [endsInHissingEs] using hv

/-- A word that is taken to end in a consonant and `y` does end in `y`, which is all that
its plural depends on. -/
theorem exists_of_endsInConsonantY {w : List Char} (h : ¬['\n'] <:+ w)
    (hy : endsInConsonantY (ending w) = true) :
    ∃ v, w = v ++ ['y'] := by
  rw [ending_eq_reverse h] at hy
  unfold endsInConsonantY at hy
  split at hy
  · rename_i c r hr
    refine ⟨(c :: r).reverse, ?_⟩
    rw [← List.reverse_reverse w, hr]
    simp
  · cases hy

/-! ### What the singular takes off -/

/-- The ending `ies` becomes a `y`, whatever stands before it. This comes before the other
endings. -/
theorem singularChars_append_ies (v : List Char) :
    singularChars (v ++ ['i', 'e', 's']) = v ++ ['y'] := by
  have hies : ['i', 'e', 's'].isSuffixOf (v ++ ['i', 'e', 's']) = true :=
    List.isSuffixOf_iff_suffix.mpr (List.suffix_append _ _)
  rw [singularChars, if_pos hies]
  simp

/-- A word that ends in one character does not end in another. It settles which of the
endings applies. -/
theorem not_suffix_append {a c : Char} (h : a ≠ c) (v : List Char) : ¬[a] <:+ v ++ [c] := by
  rintro ⟨x, hx⟩
  exact h (List.cons.inj (List.append_inj_right' hx rfl)).1

/-- The ending `es` is taken off as a whole from behind a word that hisses. -/
theorem singularChars_append_es {v : List Char} (hv : hisses v.reverse = true) :
    singularChars (v ++ ['e', 's']) = v := by
  have hbreak : ¬['\n'] <:+ v ++ ['e', 's'] := by
    rw [List.append_cons]
    exact not_suffix_append (by decide) (v ++ ['e'])
  have hies : ¬['i', 'e', 's'].isSuffixOf (v ++ ['e', 's']) = true := by
    rw [List.isSuffixOf_iff_suffix]
    show ¬['i'] ++ ['e', 's'] <:+ v ++ ['e', 's']
    rw [List.suffix_append_inj_of_length_eq rfl]
    -- no word that ends in `i` hisses
    rintro ⟨⟨u, rfl⟩, -⟩
    rw [List.reverse_append] at hv
    exact absurd hv Bool.false_ne_true
  rw [singularChars, if_neg hies, if_pos ((endsInHissingEs_iff hbreak).mpr ⟨v, rfl, hv⟩)]
  simp

/-- The ending `s` is taken off alone, unless one of the two longer endings applies. -/
theorem singularChars_append_s {v : List Char} (hie : ¬['i', 'e'] <:+ v)
    (hes : ∀ u, v = u ++ ['e'] → hisses u.reverse = false) : singularChars (v ++ ['s']) = v := by
  have hies : ¬['i', 'e', 's'].isSuffixOf (v ++ ['s']) = true := by
    rw [List.isSuffixOf_iff_suffix]
    show ¬['i', 'e'] ++ ['s'] <:+ v ++ ['s']
    rw [List.suffix_append_inj_of_length_eq rfl]
    exact fun h => hie h.1
  have hhissing : ¬endsInHissingEs (ending (v ++ ['s'])) = true := by
    rw [endsInHissingEs_iff (not_suffix_append (by decide) v)]
    rintro ⟨u, hu, hhiss⟩
    rw [show u ++ ['e', 's'] = (u ++ ['e']) ++ ['s'] by simp] at hu
    rw [hes u (List.append_cancel_right hu)] at hhiss
    cases hhiss
  have hs : ['s'].isSuffixOf (v ++ ['s']) = true :=
    List.isSuffixOf_iff_suffix.mpr (List.suffix_append _ _)
  rw [singularChars, if_neg hies, if_neg hhissing, if_pos hs, List.dropLast_concat]

/-- A word that does not end in `s` is a singular, since all three endings do. -/
theorem singularChars_of_not_suffix {w : List Char} (hbreak : ¬['\n'] <:+ w) (hs : ¬['s'] <:+ w) :
    singularChars w = w := by
  have hies : ¬['i', 'e', 's'].isSuffixOf w = true := by
    rw [List.isSuffixOf_iff_suffix]
    exact fun h => hs ((List.suffix_append ['i', 'e'] ['s']).trans h)
  have hes : ¬endsInHissingEs (ending w) = true := by
    rw [endsInHissingEs_iff hbreak]
    rintro ⟨v, rfl, -⟩
    exact hs ((List.suffix_append ['e'] ['s']).trans (List.suffix_append v ['e', 's']))
  rw [singularChars, if_neg hies, if_neg hes, if_neg (mt List.isSuffixOf_iff_suffix.mp hs)]

/-- The singular of a word that ends in `s` is shorter, so a word is its own singular only
if it does not end in `s`. -/
theorem length_singularChars_lt {w : List Char} (h : ['s'] <:+ w) :
    (singularChars w).length < w.length := by
  have hpos := h.length_le
  rw [List.length_singleton] at hpos
  rw [singularChars]
  split
  · rename_i hies
    have hlength := (List.isSuffixOf_iff_suffix.mp hies).length_le
    simp only [List.length_cons, List.length_nil, List.length_append,
      List.length_take] at hlength ⊢
    omega
  · split
    · rw [List.length_take]
      omega
    · rw [if_pos (List.isSuffixOf_iff_suffix.mpr h), List.length_dropLast]
      omega

/-- The singular has one of four shapes, in the order in which the endings are tried. The
other proofs go through these and not through the check. -/
theorem singularChars_cases {w : List Char} (h : ¬['\n'] <:+ w) :
    (∃ v, w = v ++ ['i', 'e', 's'] ∧ singularChars w = v ++ ['y'])
      ∨ (∃ v, w = v ++ ['e', 's'] ∧ hisses v.reverse = true ∧ singularChars w = v)
      ∨ (∃ v, w = v ++ ['s'] ∧ ¬['i', 'e'] <:+ v
        ∧ (∀ u, v = u ++ ['e'] → hisses u.reverse = false)
        ∧ singularChars w = v)
      ∨ (¬['s'] <:+ w ∧ singularChars w = w) := by
  by_cases hs : ['s'] <:+ w
  · obtain ⟨v, rfl⟩ := hs
    by_cases hie : ['i', 'e'] <:+ v
    · obtain ⟨u, rfl⟩ := hie
      rw [List.append_assoc]
      exact .inl ⟨u, rfl, singularChars_append_ies u⟩
    · by_cases hes : ∃ u, v = u ++ ['e'] ∧ hisses u.reverse = true
      · obtain ⟨u, rfl, hhiss⟩ := hes
        rw [List.append_assoc]
        exact .inr (.inl ⟨u, rfl, hhiss, singularChars_append_es hhiss⟩)
      · have hplain : ∀ u, v = u ++ ['e'] → hisses u.reverse = false := fun u hu =>
          Bool.eq_false_iff.mpr fun hhiss => hes ⟨u, hu, hhiss⟩
        exact .inr (.inr (.inl ⟨v, rfl, hie, hplain, singularChars_append_s hie hplain⟩))
  · exact .inr (.inr (.inr ⟨hs, singularChars_of_not_suffix h hs⟩))

/-! ### The singular of the plural -/

/-- The plural has one of four shapes as well: the word itself if it ends in `s`, and
otherwise one of three endings. -/
theorem pluralChars_cases {w : List Char} (h : ¬['\n'] <:+ w) :
    (['s'] <:+ w ∧ pluralChars w = w)
      ∨ (∃ v, w = v ++ ['y'] ∧ pluralChars w = v ++ ['i', 'e', 's'])
      ∨ (¬['s'] <:+ w ∧ hisses w.reverse = true ∧ pluralChars w = w ++ ['e', 's'])
      ∨ (¬['s'] <:+ w ∧ pluralChars w = w ++ ['s']) := by
  rw [pluralChars]
  split
  · rename_i hs
    exact .inl ⟨List.isSuffixOf_iff_suffix.mp hs, rfl⟩
  · rename_i hs
    rw [List.isSuffixOf_iff_suffix] at hs
    split
    · rename_i hy
      obtain ⟨v, rfl⟩ := exists_of_endsInConsonantY h hy
      exact .inr (.inl ⟨v, rfl, by rw [List.dropLast_concat]⟩)
    · split
      · rename_i hhiss
        rw [ending_eq_reverse h] at hhiss
        exact .inr (.inr (.inl ⟨hs, hhiss, rfl⟩))
      · exact .inr (.inr (.inr ⟨hs, rfl⟩))

/-- A word has one of the lossy ends if it ends in `s` or `ie`, or in `e` behind a hissing
sound. -/
theorem exists_lossyEnds_iff (w : List Char) :
    (∃ tail ∈ lossyEnds, tail.toList <:+ w)
      ↔ ['s'] <:+ w ∨ ['i', 'e'] <:+ w ∨ ∃ u, w = u ++ ['e'] ∧ hisses u.reverse = true := by
  have hhissing : (∃ hiss ∈ hissingEnds, (hiss ++ "e").toList <:+ w)
      ↔ ∃ u, w = u ++ ['e'] ∧ hisses u.reverse = true := by
    have he : "e".toList = ['e'] := rfl
    simp only [String.toList_append, he, hisses_reverse_iff]
    constructor
    · rintro ⟨hiss, hmem, x, rfl⟩
      exact ⟨x ++ hiss.toList, by simp, hiss, hmem, List.suffix_append _ _⟩
    · rintro ⟨u, rfl, hiss, hmem, hsuffix⟩
      exact ⟨hiss, hmem, (List.suffix_append_inj_of_length_eq rfl).mpr ⟨hsuffix, rfl⟩⟩
  rw [← hhissing]
  simp only [lossyEnds, List.mem_cons, List.mem_map, or_and_right, exists_or, exists_eq_left,
    exists_exists_and_eq_and]
  rfl

/-- A word with one of the endings that a plural loses ends in `s` or in `e`. -/
theorem suffix_of_lossyEnds {w : List Char} (h : ∃ tail ∈ lossyEnds, tail.toList <:+ w) :
    ['s'] <:+ w ∨ ['e'] <:+ w := by
  rcases (exists_lossyEnds_iff w).mp h with hs | hie | ⟨u, rfl, -⟩
  · exact .inl hs
  · exact .inr ((List.suffix_append ['i'] ['e']).trans hie)
  · exact .inr (List.suffix_append u ['e'])

/-- The singular of the plural is the word again, unless the word has one of the lossy ends. -/
theorem singularChars_pluralChars_iff {w : List Char} (h : ¬['\n'] <:+ w) :
    singularChars (pluralChars w) = w ↔ ¬∃ tail ∈ lossyEnds, tail.toList <:+ w := by
  rcases pluralChars_cases h with
    ⟨hs, hplural⟩ | ⟨v, rfl, hplural⟩ | ⟨hs, hhiss, hplural⟩ | ⟨hs, hplural⟩
  · -- the plural leaves the `s`, and the singular takes it off
    refine iff_of_false (fun heq => ?_) (not_not_intro ((exists_lossyEnds_iff w).mpr (.inl hs)))
    rw [hplural] at heq
    have hlt := length_singularChars_lt hs
    rw [heq] at hlt
    exact Nat.lt_irrefl _ hlt
  · -- the word ends in `y`, and so in no lossy end
    rw [hplural, singularChars_append_ies]
    refine iff_of_true rfl fun hlossy => ?_
    rcases suffix_of_lossyEnds hlossy with hs | he
    · exact not_suffix_append (by decide) v hs
    · exact not_suffix_append (by decide) v he
  · -- what hisses does not end in `e`
    rw [hplural, singularChars_append_es hhiss]
    refine iff_of_true rfl fun hlossy => ?_
    obtain ⟨u, rfl⟩ := (suffix_of_lossyEnds hlossy).resolve_left hs
    rw [List.reverse_append] at hhiss
    exact absurd hhiss Bool.false_ne_true
  · rw [hplural, exists_lossyEnds_iff]
    constructor
    · -- behind a lossy end the singular takes more off than the `s`
      rintro heq (hends | ⟨u, rfl⟩ | ⟨u, rfl, hhiss⟩)
      · exact hs hends
      · rw [show u ++ ['i', 'e'] ++ ['s'] = u ++ ['i', 'e', 's'] by simp,
          singularChars_append_ies] at heq
        simpa using congrArg List.length heq
      · rw [show u ++ ['e'] ++ ['s'] = u ++ ['e', 's'] by simp,
          singularChars_append_es hhiss] at heq
        simpa using congrArg List.length heq
    · intro hlossy
      rw [not_or, not_or] at hlossy
      exact singularChars_append_s hlossy.2.1 fun u hu =>
        Bool.eq_false_iff.mpr fun hhiss => hlossy.2.2 ⟨u, hu, hhiss⟩

/-- Of a word without a line break at the end, the singular of the plural is the word if and
only if it has none of the lossy ends. -/
theorem singularize_pluralize_iff {word : String} (h : endsWith "\n" word = false) :
    singularize (pluralize word) = word ↔ ∀ tail ∈ lossyEnds, endsWith tail word = false := by
  have hends : ∀ tail : String, endsWith tail word = true ↔ tail.toList <:+ word.toList :=
    fun tail =>
    List.isSuffixOf_iff_suffix
  have hbreak : ¬['\n'] <:+ word.toList := by
    rw [← Bool.not_eq_true, hends] at h
    exact h
  have hword : singularize (pluralize word) = word
      ↔ singularChars (pluralChars word.toList) = word.toList := by
    rw [singularize, pluralize, String.toList_ofList, ← String.toList_inj, String.toList_ofList]
  rw [hword, singularChars_pluralChars_iff hbreak]
  simp only [← hends, not_exists, not_and, Bool.not_eq_true]

/-- The `es` of `churches` is taken off as a whole, so the singular of the plural of
`church` is `church`. -/
theorem singularize_pluralize_iff_church :
    endsWith "\n" "church" = false ∧ (∀ tail ∈ lossyEnds, endsWith tail "church" = false)
      ∧ singularize (pluralize "church") = "church" := by
  have hbreak : endsWith "\n" "church" = false := by decide
  have hends : ∀ tail ∈ lossyEnds, endsWith tail "church" = false := by decide
  exact ⟨hbreak, hends, (singularize_pluralize_iff hbreak).mpr hends⟩

/-- The one of `horses` is too, though only its `s` was put behind the word. -/
example : pluralize "horse" = "horses" ∧ singularize "horses" = "hors" := by decide

end SchemaAtlas.Naming
