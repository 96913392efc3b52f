import SchemaAtlas.Migration.Block
import SchemaAtlas.Model.Class
import SchemaAtlas.Proofs.Scan.Segment

/-!
# `SchemaAtlas.Proofs.Scan.Comments`: comments are blanked out, once and for all

Masking shows each character of the code and blanks each one of a comment, line breaks
excepted (`maskFrom_eq_zipWith`). So the masked text is as long as the text and breaks
its lines where the text does.

A masked text has no comments: masked again, it stays as it is (`maskFrom_maskFrom`).
The second pass reads blanks where the first one read a comment, outside of strings.
Elsewhere it is in the state of the first, since no two characters that come together
open a comment unless they did before: what is not blank in the masked text was read
as code. Migrations and classes are read off the masked text, so the comments of a
text have no say in either (`extraction_maskComments`).
-/

set_option autoImplicit false

namespace SchemaAtlas.Scan

/-! ### What is shown of a character -/

/-- A character is shown as it is or as a blank, whatever region it is in. -/
theorem Region.shown_eq_or (region : Region) (c : Char) :
    region.shown c = c ∨ region.shown c = ' ' := by
  have hcomment : (if c = '\n' then '\n' else ' ') = c
      ∨ (if c = '\n' then '\n' else ' ') = ' ' := by
    split
    · rename_i hbreak
      exact .inl hbreak.symm
    · exact .inr rfl
  cases region with
  | code q => exact .inl rfl
  | lineComment | blockComment => exact hcomment

/-- Line breaks are shown as they are in every region, and nothing else is shown as one. -/
theorem Region.shown_eq_newline_iff (region : Region) (c : Char) :
    region.shown c = '\n' ↔ c = '\n' := by
  have hcomment : (if c = '\n' then '\n' else ' ') = '\n' ↔ c = '\n' := by
    split
    · rename_i hbreak
      exact iff_of_true rfl hbreak
    · rename_i hother
      exact iff_of_false (by decide) hother
  cases region with
  | code q => exact Iff.rfl
  | lineComment | blockComment => exact hcomment

/-- The masked text shows each character as its region has it, which is what the statements
about single places start from. -/
theorem mask_eq_zipWith (cs : List Char) : mask cs = List.zipWith Region.shown (regions cs) cs :=
  maskFrom_eq_zipWith _ cs

/-- Each character has a region, and at its place the masked text has what that region shows
of it. -/
theorem getElem?_mask {cs : List Char} {i : Nat} {c : Char} (h : cs[i]? = some c) :
    ∃ region, (regions cs)[i]? = some region ∧ (mask cs)[i]? = some (region.shown c) := by
  have hlength : (mask cs).length = min (regions cs).length cs.length := by
    rw [mask_eq_zipWith, List.length_zipWith]
  rw [mask, length_maskFrom] at hlength
  obtain ⟨hi, -⟩ := List.getElem?_eq_some_iff.mp h
  have hregion : (regions cs)[i]? = some (regions cs)[i] := List.getElem?_eq_getElem (by omega)
  refine ⟨_, hregion, ?_⟩
  rw [mask_eq_zipWith, List.getElem?_zipWith, hregion, h]

/-- The masked text breaks its lines where the text does, so line numbers are the same in
both. -/
theorem getElem?_mask_eq_newline_iff (cs : List Char) (i : Nat) :
    (mask cs)[i]? = some '\n' ↔ cs[i]? = some '\n' := by
  cases h : cs[i]? with
  | none =>
      have hnone : (mask cs)[i]? = none := by
        rw [List.getElem?_eq_none_iff, mask, length_maskFrom]
        exact List.getElem?_eq_none_iff.mp h
      rw [hnone]
  | some c =>
      obtain ⟨region, -, hshown⟩ := getElem?_mask h
      rw [hshown, Option.some.injEq, Option.some.injEq, region.shown_eq_newline_iff]

/-! ### Masking a masked text -/

/-- Where the masked text goes on with a character that is not blank, so does the text. -/
theorem head?_of_maskFrom {region : Region} {cs r : List Char} {c : Char}
    (h : maskFrom region cs = c :: r)
    (hs : c ≠ ' ') (hn : c ≠ '\n') : ∃ r', cs = c :: r' := by
  have hfirst : (maskFrom region cs)[0]? = some c := by rw [h]; rfl
  obtain ⟨hcs, -⟩ := code_of_maskFrom_getElem? region cs 0 c hfirst hs hn
  cases cs with
  | nil => cases hcs
  | cons d r' => exact ⟨r', by rw [Option.some.inj hcs]⟩

/-- A masked text stays as it is, read as code from the state that the quotes were in. -/
theorem maskFrom_maskFrom (region : Region) (cs : List Char) :
    maskFrom (.code region.quotes) (maskFrom region cs) = maskFrom region cs := by
  -- a blank leaves the reader outside of strings
  have hblank : ∀ r, maskFrom (.code .outside) r = r →
      maskFrom (.code .outside) (' ' :: r) = ' ' :: r := by
    intro r hr
    rw [maskFrom_code_cons _ (by decide)]
    exact congrArg _ hr
  have hbreak : ∀ r, maskFrom (.code .outside) r = r →
      maskFrom (.code .outside) ('\n' :: r) = '\n' :: r := by
    intro r hr
    rw [maskFrom_code_cons _ (by decide)]
    exact congrArg _ hr
  fun_induction maskFrom region cs with
  | case1 => rfl
  | case2 r ih | case3 r ih | case7 r ih => exact hblank _ (hblank _ ih)
  | case4 q c r h1 h2 ih =>
      -- the character behind it is one of the text, if it opens a comment with this one
      have hopen : ∀ d, d ≠ ' ' → d ≠ '\n' →
          (∀ r', q = .outside → c = '/' → r = d :: r' → False) →
          ∀ r', q = .outside → c = '/' → maskFrom (.code (q.step c)) r = d :: r' → False := by
        intro d hs hn hfree r' hq hc hmasked
        obtain ⟨r'', hr⟩ := head?_of_maskFrom hmasked hs hn
        exact hfree r'' hq hc hr
      rw [Region.quotes, maskFrom.eq_4 _ _ _ (hopen '/' (by decide) (by decide) h1)
        (hopen '*' (by decide) (by decide) h2)]
      exact congrArg _ ih
  | case5 r ih => exact hbreak _ ih
  | case6 c r hc ih => exact hblank _ ih
  | case8 c r hc ih =>
      split
      · exact hbreak _ ih
      · exact hblank _ ih

/-- A masked text has no comments left, so masking it again changes nothing. -/
theorem mask_mask (cs : List Char) : mask (mask cs) = mask cs :=
  maskFrom_maskFrom (.code .outside) cs

/-! ### Extraction -/

/-- The characters of the masked text are those that `mask` makes of the text's
characters. -/
theorem toList_maskComments (text : String) : (maskComments text).toList = mask text.toList :=
  String.toList_ofList

/-- The masked text is as long as the text, so offsets into the one are offsets into the
other. -/
theorem length_maskComments (text : String) : (maskComments text).length = text.length := by
  rw [← String.length_toList, ← String.length_toList, toList_maskComments, mask, length_maskFrom]

/-- Masking a text that has been masked before gives the same as masking it once. -/
theorem mask_maskComments (text : String) :
    mask (maskComments text).toList = mask text.toList := by
  rw [toList_maskComments, mask_mask]

/-- Comments are blanked out character by character, without moving any other character or
any end of a line, and there is no comment left for another masking. Migrations and
classes read the same with their comments blanked out, places included. -/
theorem extraction_maskComments (text : String) :
    (maskComments text).length = text.length
      ∧ (∀ i : Nat, (maskComments text).toList[i]? = some '\n' ↔ text.toList[i]? = some '\n')
      ∧ (∀ (i : Nat) (c : Char), text.toList[i]? = some c →
          ∃ region : Region, (regions text.toList)[i]? = some region
            ∧ (maskComments text).toList[i]? = some (region.shown c)
            ∧ (region.shown c = c ∨ region.shown c = ' '))
      ∧ maskComments (maskComments text) = maskComments text
      ∧ Migration.blocks (maskComments text) = Migration.blocks text
      ∧ ∀ path, Model.ofText? (maskComments text) path = Model.ofText? text path := by
  refine ⟨length_maskComments text, ?_, ?_, ?_, ?_, ?_⟩
  · intro i
    rw [toList_maskComments]
    exact getElem?_mask_eq_newline_iff text.toList i
  · intro i c hc
    obtain ⟨region, hregion, hshown⟩ := getElem?_mask hc
    rw [toList_maskComments]
    exact ⟨region, hregion, hshown, region.shown_eq_or c⟩
  · show String.ofList (mask (maskComments text).toList) = String.ofList (mask text.toList)
    rw [mask_maskComments]
  · unfold Migration.blocks
    rw [mask_maskComments]
  · intro path
    unfold Model.ofText?
    rw [mask_maskComments]

/-- A line comment in a string is none, and one behind a string is. -/
example : maskComments "'//' // x" = "'//'     " := by
  decide

end SchemaAtlas.Scan
