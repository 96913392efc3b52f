import Mathlib.Data.List.Basic
import SchemaAtlas.Naming
import SchemaAtlas.Proofs.Scan.Search
import SchemaAtlas.Proofs.Text.Case
import SchemaAtlas.Proofs.Text.Lines

/-!
# `SchemaAtlas.Proofs.Naming`: names made from names

Tables that are named after columns have names again: a plural is never empty
and adds word characters only. Classes that are named after tables have no signs in
their names, such as slashes, that are not in the table's (`mem_of_mem_tableToModel`):
a capital form is never a sign, as the tables of capitals tell. Different tables may have
one class, but not if their names are plurals by the rules, of words in small letters
(`eq_of_tableToModel_eq`).
-/

set_option autoImplicit false

namespace SchemaAtlas

open SchemaAtlas.Text SchemaAtlas.Scan

namespace Naming

/-- The plural of word characters is a name. It may add letters, and it never takes all of
them away. -/
theorem isName_pluralize {word : String} (h : ∀ c ∈ word.toList, isWord c = true) :
    isName (pluralize word) = true := by
  -- the four shapes of a plural, in the order in which they are tried
  rw [isName_iff, pluralize, String.toList_ofList, pluralChars]
  split
  · rename_i hend
    refine ⟨?_, h⟩
    intro hnil
    rw [hnil] at hend
    exact absurd hend (by decide)
  · split
    · refine ⟨by simp, fun c hc => ?_⟩
      rcases List.mem_append.mp hc with hc | hc
      · exact h c ((List.dropLast_sublist _).subset hc)
      · exact List.all_eq_true.mp (show ['i', 'e', 's'].all isWord = true by decide) c hc
    · split
      · refine ⟨by simp, fun c hc => ?_⟩
        rcases List.mem_append.mp hc with hc | hc
        · exact h c hc
        · exact List.all_eq_true.mp (show ['e', 's'].all isWord = true by decide) c hc
      · refine ⟨by simp, fun c hc => ?_⟩
        rcases List.mem_append.mp hc with hc | hc
        · exact h c hc
        · exact List.all_eq_true.mp (show ['s'].all isWord = true by decide) c hc

/-- What is before an ending and the ending make up the name, and that is all that
`beforeTail?` says. -/
theorem beforeTail?_eq_some_iff (tail s stem : String) :
    beforeTail? tail s = some stem ↔ s = stem ++ tail := by
  rw [beforeTail?, dropLast, endsWith]
  constructor
  · intro h
    split at h
    · rename_i hend
      obtain ⟨x, hx⟩ := List.isSuffixOf_iff_suffix.mp hend
      obtain rfl := Option.some.inj h
      apply String.toList_injective
      rw [String.toList_append, String.toList_ofList, ← hx]
      simp
    · cases h
  · rintro rfl
    have hend : tail.toList.isSuffixOf (stem ++ tail).toList = true := by
      rw [List.isSuffixOf_iff_suffix, String.toList_append]
      exact List.suffix_append _ _
    rw [if_pos hend, String.toList_append, List.length_append, Nat.add_sub_cancel, List.take_left,
      String.ofList_toList]

/-- What is before an ending is part of the name, so it has word characters only if the name
has. -/
theorem isWord_of_beforeTail? {tail s stem : String} (hs : ∀ c ∈ s.toList, isWord c = true)
    (h : beforeTail? tail s = some stem) : ∀ c ∈ stem.toList, isWord c = true := by
  intro c hc
  obtain rfl := (beforeTail?_eq_some_iff tail s stem).mp h
  refine hs c ?_
  rw [String.toList_append]
  exact List.mem_append_left _ hc

/-- The table that a column's name implies has a name, whether or not the column ends like a
reference. -/
theorem isName_defaultTarget {column : String} (h : isName column = true) :
    isName (defaultTarget column) = true := by
  rw [defaultTarget, referenceBase]
  refine isName_pluralize ?_
  cases hstem : beforeTail? referenceEnd column with
  | none => exact ((isName_iff column).mp h).2
  | some stem => exact isWord_of_beforeTail? ((isName_iff column).mp h).2 hstem

end Naming

/-! ### Characters that are kept out -/

namespace Text

/-- Holds of code points below those of the letters, and of the backslash. -/
def isSign (n : Nat) : Bool := n < 65 || n == 92

/-- Holds of a run of capitals that leads to characters, and to none of these. -/
def CaseRun.isPure (run : CaseRun) : Bool :=
  let low := (run.first : Int) + run.shift
  let high := (run.last : Int) + run.shift
  65 ≤ low && (92 < low || high < 92) && (high < 0xD800 || (0xDFFF < low && high < 0x110000))

/-- If a valid code point is no sign, then neither is the code point of the character that
it stands for. -/
theorem isSign_toNat_ofNat {n : Nat} (hn : isSign n = false) (hvalid : n.isValidChar) :
    isSign (Char.ofNat n).toNat = false := by
  have hsame : (Char.ofNat n).toNat = n := by
    rw [Char.ofNat, dif_pos hvalid]
    exact UInt32.toNat_ofNatLT
  rw [hsame]
  exact hn

/-- Where a run of code points has capital forms, none of these is a sign, and all of them
are characters. That is what the check `isPure` asks for. -/
theorem isSign_of_apply? {run : CaseRun} {n m : Nat} (h : run.isPure = true)
    (hm : run.apply? n = some m) :
    isSign m = false ∧ m.isValidChar := by
  unfold CaseRun.apply? at hm
  split at hm
  · rename_i hin
    simp only [Bool.and_eq_true, decide_eq_true_eq] at hin
    simp only [CaseRun.isPure, Bool.and_eq_true, Bool.or_eq_true, decide_eq_true_eq] at h
    obtain rfl := Option.some.inj hm
    simp only [isSign, Bool.or_eq_false_iff, decide_eq_false_iff_not, beq_eq_false_iff_ne, ne_eq,
      Nat.isValidChar]
    omega
  · cases hm

/-- All runs of the table of capitals are pure. This is one computation over the table, so
that no proof has to look into it again. -/
theorem isPure_capitalRuns : ∀ run ∈ capitalRuns, run.isPure = true := by
  decide +kernel

/-- No sign is in a capital form of several characters, such as the two that a sharp s
becomes. -/
theorem isSign_longCapitals :
    ∀ entry ∈ longCapitals, ∀ n ∈ entry.2, isSign (Char.ofNat n).toNat = false := by
  decide +kernel

/-- Each character of a capital form is the character itself, or else no sign. So a sign in
a capital form was a sign before. -/
theorem eq_or_isSign_of_mem_capitalOf {c d : Char} (h : d ∈ capitalOf c) :
    d = c ∨ isSign d.toNat = false := by
  unfold capitalOf at h
  simp only at h
  split at h
  · rename_i hsmall
    have hupper := of_ascii (p := fun c => c.toUpper = c ∨ isSign c.toUpper.toNat = false)
      (by decide +kernel) hsmall
    rw [List.mem_singleton.mp h]
    exact hupper
  · split at h
    · rename_i entry hentry
      obtain ⟨n, hn, rfl⟩ := List.mem_map.mp h
      exact .inr (isSign_longCapitals _ (List.mem_of_find?_eq_some hentry) n hn)
    · split at h
      · rename_i m hm
        obtain ⟨run, hrun, happly⟩ := List.exists_of_findSome?_eq_some hm
        obtain ⟨hsign, hvalid⟩ := isSign_of_apply? (isPure_capitalRuns run hrun) happly
        rw [List.mem_singleton.mp h]
        exact .inr (isSign_toNat_ofNat hsign hvalid)
      · exact .inl (List.mem_singleton.mp h)

end Text

namespace Naming

variable {c : Char}

/-- A singular has no characters of its own but a `y`, the one that takes the place of
`ies`. -/
theorem mem_singularChars {w : List Char} (h : c ∈ singularChars w) : c ∈ w ∨ c = 'y' := by
  unfold singularChars at h
  split at h
  · rcases List.mem_append.mp h with h | h
    · exact .inl (List.mem_of_mem_take h)
    · exact .inr (List.mem_singleton.mp h)
  · split at h
    · exact .inl (List.mem_of_mem_take h)
    · split at h
      · exact .inl ((List.dropLast_sublist w).subset h)
      · exact .inl h

/-- Words joined by capitals have no signs that are not in the name: a capital form adds
none. -/
theorem mem_of_mem_pascalCase {name : String} (hc : isSign c.toNat = true)
    (h : c ∈ (pascalCase name).toList) :
    c ∈ name.toList := by
  rw [pascalCase, String.toList_ofList] at h
  obtain ⟨piece, hpiece, h⟩ := List.mem_flatMap.mp h
  refine mem_of_mem_cutChars hpiece ?_
  cases piece with
  | nil => cases h
  | cons d piece =>
      rcases List.mem_append.mp h with h | h
      · rcases eq_or_isSign_of_mem_capitalOf h with rfl | hsign
        · exact List.mem_cons_self
        · rw [hc] at hsign
          cases hsign
      · exact List.mem_cons_of_mem d h

/-- The name of a class has no signs that are not in its table's, so a file of that name
stays in its folder if the table's name has no slash. -/
theorem mem_of_mem_tableToModel {name : String} (hc : isSign c.toNat = true)
    (h : c ∈ (tableToModel name).toList) : c ∈ name.toList := by
  have hsingular := mem_of_mem_pascalCase hc h
  rw [singularize, String.toList_ofList] at hsingular
  rcases mem_singularChars hsingular with hmem | rfl
  · exact hmem
  · exact absurd hc (by decide)

/-! ### Conventional names -/

/-- Holds of words in small letters and digits, each with a letter in front, that are joined by
underscores. -/
def isSnake (name : String) : Bool :=
  (cutChars '_' name.toList).all fun word => word.head?.any Char.isLower && word.all fun c =>
    !c.isUpper

/-- Holds of the names of tables that are plurals by the rules, of words in small letters. -/
structure IsConventional (table : String) : Prop where
  plural : pluralize (singularize table) = table
  snake : isSnake (singularize table) = true

instance (table : String) : Decidable (IsConventional table) :=
  decidable_of_iff (pluralize (singularize table) = table ∧ isSnake (singularize table) = true)
    ⟨fun ⟨hplural, hsnake⟩ => ⟨hplural, hsnake⟩, fun h => ⟨h.plural, h.snake⟩⟩

/-- A capital as an underscore and its small form. -/
def reopened (c : Char) : List Char :=
  if c.isUpper then ['_', c.toLower] else [c]

/-- A word with a capital in front is opened again into the word behind an underscore, since
there is no other capital in it. -/
theorem flatMap_reopened_capitalize {word : List Char}
    (hfirst : word.head?.any Char.isLower = true)
    (hrest : ∀ c ∈ word, c.isUpper = false) :
    (capitalize word).flatMap reopened = '_' :: word := by
  cases word with
  | nil => cases hfirst
  | cons c word =>
      have hlower : c.isLower = true := hfirst
      have hcapital :=
        of_ascii (p := fun c => c.isLower = true → (capitalOf c).flatMap reopened = ['_', c])
        (by decide +kernel) (toNat_lt_of_isLower hlower) hlower
      have hsame : word.flatMap reopened = word := by
        have hone : ∀ d ∈ word, reopened d = [d] := by
          intro d hd
          simp [reopened, hrest d (List.mem_cons_of_mem c hd)]
        rw [List.flatMap_congr hone, List.flatMap_singleton']
      rw [capitalize, List.flatMap_append, hcapital, hsame]
      rfl

/-- The pieces of a text, each behind a separator, are the text behind one separator.
Nothing is lost by cutting. -/
theorem flatMap_cons_cutChars (sep : Char) (cs : List Char) :
    (cutChars sep cs).flatMap (sep :: ·) = sep :: cs := by
  have hmirror : ∀ pieces : List (List Char),
      pieces.flatMap (sep :: ·) ++ [sep] = [sep] ++ unlines sep pieces := by
    intro pieces
    induction pieces with
    | nil => rfl
    | cons piece pieces ih =>
        rw [List.flatMap_cons, List.append_assoc, ih, unlines_cons]
        simp
  have h := hmirror (cutChars sep cs)
  rw [unlines_cutChars, ← List.append_assoc] at h
  exact List.append_cancel_right h

/-- Joining words by capitals loses nothing: opened again at its capitals, the joined name
is the name it was made of. -/
theorem flatMap_reopened_pascalCase {name : String} (h : isSnake name = true) :
    (pascalCase name).toList.flatMap reopened = '_' :: name.toList := by
  have hwords : ∀ word ∈ cutChars '_' name.toList,
      (capitalize word).flatMap reopened = '_' :: word := by
    intro word hword
    have hsmall := List.all_eq_true.mp h word hword
    rw [Bool.and_eq_true] at hsmall
    exact flatMap_reopened_capitalize hsmall.1 (by simpa using hsmall.2)
  rw [pascalCase, String.toList_ofList, List.flatMap_assoc, List.flatMap_congr hwords,
    flatMap_cons_cutChars]

/-- Tables with conventional names have classes of their own, since the singular and the
words are read back from the class. -/
theorem eq_of_tableToModel_eq {table other : String} (ht : IsConventional table)
    (ho : IsConventional other)
    (h : tableToModel table = tableToModel other) : table = other := by
  have hsingular : singularize table = singularize other := by
    apply String.toList_injective
    have hback := congrArg (fun name => name.toList.flatMap reopened) h
    simp only [tableToModel, flatMap_reopened_pascalCase ht.snake,
      flatMap_reopened_pascalCase ho.snake] at hback
    exact (List.cons.inj hback).2
  rw [← ht.plural, ← ho.plural, hsingular]

end Naming

end SchemaAtlas
