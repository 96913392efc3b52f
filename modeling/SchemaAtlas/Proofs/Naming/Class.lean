import SchemaAtlas.Proofs.Naming.Singular

/-!
# `SchemaAtlas.Proofs.Naming.Class`: from a class back to its table

The class of a table is named by the singular of the table's name, with a capital for each
word in place of the underscores. The table of a class by convention is found by looking
for the capitals again. What that finds is the singular of the name, if each word of the
name has a letter in front and more letters or digits behind it
(`snakeCase_tableToModel`): a capital with something small in front of it begins a word,
and inside of a word there is none (`markWords_flatMap_capitalize`).

The singular itself changes the last word only (`singularChars_append_cons`), and may leave
no more than one letter of it. That does no harm at the end of the name. Single letters
in front of other words are lost in a run of capitals.
-/

set_option autoImplicit false

namespace SchemaAtlas.Naming

open SchemaAtlas.Text SchemaAtlas.Scan

/-! ### Words -/

/-- Holds of small letters and digits. -/
def isSmall (c : Char) : Bool := c.isLower || c.isDigit

/-- Holds of small letters and digits with a letter in front. -/
def isSmallWord (word : List Char) : Bool := word.head?.any Char.isLower && word.all isSmall

/-- Holds of names that are such words joined by underscores, each of at least two characters. -/
def isTableName (name : String) : Bool :=
  (cutChars '_' name.toList).all fun word => isSmallWord word && 2 ≤ word.length

/-- A word is its first letter, a small one, and what is behind it, small letters and
digits. -/
theorem exists_cons_of_isSmallWord {word : List Char} (h : isSmallWord word = true) :
    ∃ c r, word = c :: r ∧ c.isLower = true ∧ ∀ d ∈ r, isSmall d = true := by
  rw [isSmallWord, Bool.and_eq_true, List.all_eq_true] at h
  cases word with
  | nil => exact absurd h.1 Bool.false_ne_true
  | cons c r => exact ⟨c, r, rfl, h.1, fun d hd => h.2 d (List.mem_cons_of_mem c hd)⟩

/-- Small characters are within the basic ones, are not capitals, and are their own small
forms. -/
theorem small_of_isSmall {c : Char} (h : isSmall c = true) :
    c.toNat < 128 ∧ c.isUpper = false ∧ c.toLower = c := by
  have hrange : c.toNat < 128 := by
    rw [isSmall, Bool.or_eq_true] at h
    rcases h with h | h
    · exact toNat_lt_of_isLower h
    · exact toNat_lt_of_isDigit h
  exact ⟨hrange, of_ascii (p := fun c => isSmall c = true → c.isUpper = false ∧ c.toLower = c)
    (by decide +kernel) hrange h⟩

/-- A word with a capital in front is that capital and the small characters of the word; in
small letters it is the word again. -/
theorem exists_capitalize_eq {word : List Char} (h : isSmallWord word = true) :
    ∃ C r, capitalize word = C :: r ∧ C.isUpper = true ∧ (∀ d ∈ r, isSmall d = true)
      ∧ word.length = r.length + 1
      ∧ (∀ d ∈ C :: r, d.toNat < 128) ∧ (C :: r).map Char.toLower = word := by
  obtain ⟨c, r, rfl, hc, hr⟩ := exists_cons_of_isSmallWord h
  obtain ⟨C, hcapital, hrange, hupper, hlower⟩ := exists_capitalOf_eq hc
  refine ⟨C, r, by rw [capitalize, hcapital, List.singleton_append], hupper, hr, rfl, ?_, ?_⟩
  · intro d hd
    rcases List.mem_cons.mp hd with rfl | hd
    · exact hrange
    · exact (small_of_isSmall (hr d hd)).1
  · rw [List.map_cons, hlower, List.map_congr_left fun d hd => (small_of_isSmall (hr d hd)).2.2,
      List.map_id']

/-! ### Looking for capitals -/

/-- No word begins where no capital is, so a small character is passed over by the
marking. -/
theorem markWords_cons_of_isSmall (a : Char) {b : Char} (h : isSmall b = true) (r : List Char) :
    markWords (a :: b :: r) = a :: markWords (b :: r) := by
  have hnot : wordStarts a b r = false := by
    rw [wordStarts, (small_of_isSmall h).2.1, Bool.false_and]
  rw [markWords, if_neg (by simp [hnot])]

/-- Inside of a word no other begins, so a first character with small ones behind it stays
as it is. -/
theorem markWords_cons {r : List Char} (h : ∀ d ∈ r, isSmall d = true) (a : Char) :
    markWords (a :: r) = a :: r := by
  induction r generalizing a with
  | nil => rfl
  | cons b r ih =>
      rw [markWords_cons_of_isSmall a (h b List.mem_cons_self),
        ih fun d hd => h d (List.mem_cons_of_mem b hd)]

/-- A capital behind a word of two characters or more begins another word, and is marked as
its beginning. -/
theorem markWords_append_cons {r : List Char} (hne : r ≠ []) (h : ∀ d ∈ r, isSmall d = true)
    {b : Char}
    (hb : b.isUpper = true) (a : Char) (s : List Char) :
    markWords (a :: r ++ b :: s) = a :: r ++ '_' :: markWords (b :: s) := by
  -- only the last character of the word has the capital behind it
  induction r generalizing a with
  | nil => exact absurd rfl hne
  | cons d r ih =>
      have hd := h d List.mem_cons_self
      rw [List.cons_append, List.cons_append, markWords_cons_of_isSmall a hd]
      cases r with
      | nil =>
          have hstarts : wordStarts d b s = true := by
            rw [isSmall] at hd
            rw [wordStarts, hb, hd]
            rfl
          rw [List.nil_append, markWords, if_pos hstarts]
          rfl
      | cons e r =>
          rw [← List.cons_append,
            ih (List.cons_ne_nil e r) fun x hx => h x (List.mem_cons_of_mem d hx)]
          rfl

/-- The words of a class are found again, each of them marked off from the next. Only the
last one may have a single letter. -/
theorem markWords_flatMap_capitalize {words : List (List Char)} {last : List Char}
    (hwords : ∀ word ∈ words, isSmallWord word = true ∧ 2 ≤ word.length)
    (hlast : isSmallWord last = true) :
    markWords ((words ++ [last]).flatMap capitalize)
      = unlines '_' (words.map capitalize) ++ capitalize last := by
  obtain ⟨L, l, hcapital, hupper, hl, -, -, -⟩ := exists_capitalize_eq hlast
  induction words with
  | nil =>
      rw [List.nil_append, List.flatMap_singleton, hcapital, markWords_cons hl]
      rfl
  | cons word words ih =>
      obtain ⟨hword, hlength⟩ := hwords word List.mem_cons_self
      obtain ⟨C, r, hfirst, -, hr, hcount, -, -⟩ := exists_capitalize_eq hword
      have hne : r ≠ [] := by
        rintro rfl
        rw [hcount] at hlength
        exact absurd hlength (by decide)
      have hrest := ih fun w hw => hwords w (List.mem_cons_of_mem word hw)
      -- the next word begins with a capital, whichever it is
      obtain ⟨D, s, hnext, hD⟩ : ∃ D s, (words ++ [last]).flatMap capitalize = D :: s
        ∧ D.isUpper = true := by
        cases words with
        | nil => exact ⟨L, l, by rw [List.nil_append, List.flatMap_singleton, hcapital], hupper⟩
        | cons next words =>
            obtain ⟨hsmall, -⟩ := hwords next (List.mem_cons_of_mem word List.mem_cons_self)
            obtain ⟨D, s, hnext, hD, -, -, -, -⟩ := exists_capitalize_eq hsmall
            exact ⟨D, s ++ (words ++ [last]).flatMap capitalize,
              by rw [List.cons_append, List.flatMap_cons, hnext, List.cons_append], hD⟩
      rw [hnext] at hrest
      rw [List.cons_append, List.flatMap_cons, hfirst, hnext, markWords_append_cons hne hr hD,
        hrest, List.map_cons, hfirst, unlines_cons]
      simp

/-- The class that is named by some words is the words joined by underscores again. -/
theorem snakeCase_of_words {words : List (List Char)} {last : List Char}
    (hwords : ∀ word ∈ words, isSmallWord word = true ∧ 2 ≤ word.length)
    (hlast : isSmallWord last = true) :
    snakeCase (String.ofList ((words ++ [last]).flatMap capitalize))
      = String.ofList (unlines '_' words ++ last) := by
  -- in ASCII letters are made small one by one, which takes back the capital one
  have hcapital : ∀ word, isSmallWord word = true →
      (∀ d ∈ capitalize word, d.toNat < 128) ∧ (capitalize word).map Char.toLower = word := by
    intro word hword
    obtain ⟨C, r, heq, -, -, -, hrange, hlower⟩ := exists_capitalize_eq hword
    rw [heq]
    exact ⟨hrange, hlower⟩
  have hlower : (unlines '_' (words.map capitalize)).map Char.toLower = unlines '_' words := by
    rw [unlines, List.flatMap_map, List.map_flatMap, unlines]
    refine List.flatMap_congr fun word hword => ?_
    rw [List.map_append, (hcapital word (hwords word hword).1).2]
    rfl
  have hrange : ∀ c ∈ unlines '_' (words.map capitalize) ++ capitalize last, c.toNat < 128 := by
    intro c hc
    rcases List.mem_append.mp hc with hc | hc
    · rw [unlines, List.flatMap_map] at hc
      obtain ⟨word, hword, hc⟩ := List.mem_flatMap.mp hc
      rcases List.mem_append.mp hc with hc | hc
      · exact (hcapital word (hwords word hword).1).1 c hc
      · rw [List.mem_singleton.mp hc]
        decide
    · exact (hcapital last hlast).1 c hc
  rw [snakeCase, String.toList_ofList, markWords_flatMap_capitalize hwords hlast, lower,
    String.toList_ofList, lowerFrom_of_ascii hrange, List.map_append, hlower,
    (hcapital last hlast).2]

/-! ### The singular of the last word -/

/-- What ends a name ends its last word, if it has no underscore in it and so cannot reach
over to the word before. -/
theorem suffix_append_cons_iff {tail : List Char} (h : '_' ∉ tail) (x last : List Char) :
    tail <:+ x ++ '_' :: last ↔ tail <:+ last := by
  have hlast : '_' :: last <:+ x ++ '_' :: last := List.suffix_append x _
  refine ⟨fun htail => ?_, fun htail => (htail.trans (List.suffix_cons '_' last)).trans hlast⟩
  by_cases hle : tail.length ≤ last.length
  · exact List.suffix_of_suffix_length_le htail ((List.suffix_cons '_' last).trans hlast) hle
  · -- a longer one would have the underscore in it
    have hlong := List.suffix_of_suffix_length_le hlast htail (by rw [List.length_cons]; omega)
    exact absurd (hlong.subset List.mem_cons_self) h

/-- A name hisses if and only if its last word does, since no hissing sound has an
underscore in it. -/
theorem hisses_append_cons (x v : List Char) :
    hisses (x ++ '_' :: v).reverse = hisses v.reverse := by
  have hword : ∀ hiss ∈ hissingEnds, '_' ∉ hiss.toList := by decide
  rw [Bool.eq_iff_iff, hisses_reverse_iff, hisses_reverse_iff]
  exact exists_congr fun hiss => and_congr_right fun hmem =>
    suffix_append_cons_iff (hword hiss hmem) x v

/-- The singular of a name is that of its last word, behind the others, which stay as they
are. -/
theorem singularChars_append_cons {last : List Char} (hbreak : ¬['\n'] <:+ last) (x : List Char) :
    singularChars (x ++ '_' :: last) = x ++ '_' :: singularChars last := by
  -- what the singular looks at is shorter than to reach the underscore
  rcases singularChars_cases hbreak with
    ⟨v, rfl, hlast⟩ | ⟨v, rfl, hhiss, hlast⟩ | ⟨v, rfl, hie, hes, hlast⟩
    | ⟨hs, hlast⟩
  · have hname := singularChars_append_ies (x ++ '_' :: v)
    rw [List.append_assoc, List.cons_append] at hname
    rw [hname, hlast, List.append_assoc, List.cons_append]
  · have hname := singularChars_append_es ((hisses_append_cons x v).trans hhiss)
    rw [List.append_assoc, List.cons_append] at hname
    rw [hname, hlast]
  · have hnameIe : ¬['i', 'e'] <:+ x ++ '_' :: v :=
      mt (suffix_append_cons_iff (by decide) x v).mp hie
    have hnameEs : ∀ u, x ++ '_' :: v = u ++ ['e'] → hisses u.reverse = false := by
      intro u hu
      have hend : ['e'] <:+ v := (suffix_append_cons_iff (by decide) x v).mp ⟨u, hu.symm⟩
      obtain ⟨t, rfl⟩ := hend
      rw [← List.cons_append, ← List.append_assoc] at hu
      rw [← List.append_cancel_right hu, hisses_append_cons]
      exact hes t rfl
    have hname := singularChars_append_s hnameIe hnameEs
    rw [List.append_assoc, List.cons_append] at hname
    rw [hname, hlast]
  · have hnameBreak : ¬['\n'] <:+ x ++ '_' :: last :=
      mt (suffix_append_cons_iff (by decide) x last).mp hbreak
    rw [hlast, singularChars_of_not_suffix hnameBreak
      (mt (suffix_append_cons_iff (by decide) x last).mp hs)]

/-- No sign is in a word, and no line break: it has small letters and digits only. -/
theorem notMem_of_isSmallWord {word : List Char} (h : isSmallWord word = true) {c : Char}
    (hc : isSmall c = false) :
    c ∉ word := by
  rw [isSmallWord, Bool.and_eq_true, List.all_eq_true] at h
  exact fun hmem => ne_of_class (h.2 c hmem) hc rfl

/-- The beginning of a word is a word, if anything is left of it. Taking off the ending of a
plural gives such a beginning. -/
theorem isSmallWord_of_append {v t : List Char} (h : isSmallWord (v ++ t) = true) (hv : v ≠ []) :
    isSmallWord v = true := by
  cases v with
  | nil => exact absurd rfl hv
  | cons c v =>
      rw [isSmallWord, Bool.and_eq_true, List.all_append, Bool.and_eq_true] at h
      rw [isSmallWord, Bool.and_eq_true]
      exact ⟨h.1, h.2.1⟩

/-- The singular of a word of two characters or more is a word. It cannot become empty: `es`
is taken off behind a hissing word only, and a lone `s` is no such word. -/
theorem isSmallWord_singularChars {word : List Char} (h : isSmallWord word = true)
    (hlength : 2 ≤ word.length) :
    isSmallWord (singularChars word) = true := by
  have hbreak : ¬['\n'] <:+ word := fun hends =>
    notMem_of_isSmallWord h (by decide) (hends.subset List.mem_cons_self)
  rcases singularChars_cases hbreak with
    ⟨v, rfl, hsingular⟩ | ⟨v, rfl, hhiss, hsingular⟩ | ⟨v, rfl, -, -, hsingular⟩
    | ⟨-, hsingular⟩
  · rw [hsingular]
    cases v with
    | nil => decide -- a `y` for the whole of `ies`
    | cons c v =>
        have hv := isSmallWord_of_append h (List.cons_ne_nil c v)
        rw [isSmallWord, Bool.and_eq_true] at hv ⊢
        refine ⟨hv.1, ?_⟩
        rw [List.all_append, hv.2]
        decide
  · rw [hsingular]
    refine isSmallWord_of_append h ?_
    rintro rfl
    exact absurd hhiss Bool.false_ne_true
  · rw [hsingular]
    refine isSmallWord_of_append h ?_
    rintro rfl
    exact absurd hlength (by decide)
  · rw [hsingular]
    exact h

/-- A name is its last word behind the others, each of them ended by an underscore, and each
of two characters or more. -/
theorem exists_words_of_isTableName {name : String} (h : isTableName name = true) :
    ∃ words last, name.toList = unlines '_' words ++ last
      ∧ ∀ word ∈ words ++ [last], isSmallWord word = true ∧ 2 ≤ word.length := by
  have hsplit := List.dropLast_concat_getLast (cutChars_ne_nil '_' name.toList)
  refine ⟨(cutChars '_' name.toList).dropLast,
    (cutChars '_' name.toList).getLast (cutChars_ne_nil _ _), ?_, ?_⟩
  · have hname : unlines '_' (cutChars '_' name.toList) = name.toList ++ ['_'] :=
      unlines_cutChars _
    rw [← hsplit, unlines_append, unlines_cons, unlines_nil, List.append_nil,
      ← List.append_assoc] at hname
    exact (List.append_cancel_right hname).symm
  · rw [hsplit]
    intro word hword
    simpa using List.all_eq_true.mp h word hword

/-- The singular of a name is found by the singular of its last word, whatever the words
before it are. -/
theorem toList_singularize_of_words {name : String} {words : List (List Char)} {last : List Char}
    (hname : name.toList = unlines '_' words ++ last) (hbreak : ¬['\n'] <:+ last) :
    (singularize name).toList = unlines '_' words ++ singularChars last := by
  rw [singularize, String.toList_ofList, hname]
  rcases List.eq_nil_or_concat words with rfl | ⟨front, word, rfl⟩
  · rfl
  · rw [List.concat_eq_append, unlines_append, unlines_cons, unlines_nil, List.append_nil]
    have hcut : ∀ r : List Char,
        unlines '_' front ++ (word ++ ['_']) ++ r = (unlines '_' front ++ word) ++ '_' :: r := by
      simp
    rw [hcut, singularChars_append_cons hbreak, ← hcut]

/-- The class of a table leads back to the singular of the table's name, and so to the plural of
that. -/
theorem snakeCase_tableToModel {table : String} (h : isTableName table = true) :
    snakeCase (tableToModel table) = singularize table
      ∧ modelToTable (tableToModel table) = pluralize (singularize table) := by
  obtain ⟨words, last, hname, hall⟩ := exists_words_of_isTableName h
  have hwords : ∀ word ∈ words, isSmallWord word = true ∧ 2 ≤ word.length := fun word hword =>
    hall word (List.mem_append_left _ hword)
  obtain ⟨hlast, hlength⟩ := hall last (List.mem_append_right _ List.mem_cons_self)
  have hbreak : ¬['\n'] <:+ last := fun hends =>
    notMem_of_isSmallWord hlast (by decide) (hends.subset List.mem_cons_self)
  have hsingular := toList_singularize_of_words hname hbreak
  have hsmall := isSmallWord_singularChars hlast hlength
  have hcut : cutChars '_' (singularize table).toList = words ++ [singularChars last] := by
    rw [hsingular]
    exact cutChars_unlines_append
      (fun word hword => notMem_of_isSmallWord (hwords word hword).1 (by decide))
      (notMem_of_isSmallWord hsmall (by decide))
  have hsnake : snakeCase (tableToModel table) = singularize table := by
    rw [tableToModel, pascalCase, hcut, snakeCase_of_words hwords hsmall, ← hsingular,
      String.ofList_toList]
  exact ⟨hsnake, by rw [modelToTable, hsnake]⟩

/-- No more than one letter may be left of the last word. Here it is `ies`, of which only a
`y` is left, and both equations hold. -/
theorem snakeCase_tableToModel_ies :
    isTableName "sha256_boxes_ies" = true
      ∧ tableToModel "sha256_boxes_ies" = "Sha256BoxesY"
      ∧ snakeCase (tableToModel "sha256_boxes_ies") = singularize "sha256_boxes_ies"
      ∧ modelToTable (tableToModel "sha256_boxes_ies")
        = pluralize (singularize "sha256_boxes_ies") := by
  have hname : isTableName "sha256_boxes_ies" = true := by decide
  exact ⟨hname, by decide, snakeCase_tableToModel hname⟩

/-- Words of one letter are not told apart. -/
example : tableToModel "a_b_c" = "ABC" ∧ snakeCase "ABC" = "abc" := by decide

end SchemaAtlas.Naming
