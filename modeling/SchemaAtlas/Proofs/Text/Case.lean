import SchemaAtlas.Text.Case

/-!
# `SchemaAtlas.Proofs.Text.Case`: capital and small forms in ASCII

Below 128 the forms of characters are not looked up in tables, and there are few enough
characters to go through all of them (`of_ascii`). The capital form of a small letter is
one character, and the letter is its small form (`exists_capitalOf_eq`). The small form of
ASCII text is that of its characters: the one character that looks at its neighbours, the
capital sigma, is not in it (`lowerFrom_of_ascii`).
-/

set_option autoImplicit false

namespace SchemaAtlas.Text

variable {c : Char}

/-- What holds of all characters below 128 can be found out by going through them. -/
theorem of_ascii {p : Char → Prop} (h : ∀ n < 128, p (Char.ofNat n)) (hc : c.toNat < 128) :
    p c := by
  have hn := h c.toNat hc
  rwa [Char.ofNat_toNat] at hn

/-- Small letters are ASCII characters, so what is known of ASCII text is known of them. -/
theorem toNat_lt_of_isLower (h : c.isLower = true) : c.toNat < 128 := by
  have hle : c.val ≤ 'z'.val := of_decide_eq_true (Bool.and_eq_true_iff.mp h).2
  exact Nat.lt_of_le_of_lt (UInt32.le_iff_toNat_le.mp hle) (by decide)

/-- Digits are ASCII characters as well. -/
theorem toNat_lt_of_isDigit (h : c.isDigit = true) : c.toNat < 128 := by
  have hle : c.val ≤ '9'.val := of_decide_eq_true (Bool.and_eq_true_iff.mp h).2
  exact Nat.lt_of_le_of_lt (UInt32.le_iff_toNat_le.mp hle) (by decide)

/-- The capital form of a small letter is one character, and its small form is that letter
again. -/
theorem exists_capitalOf_eq (h : c.isLower = true) :
    ∃ C : Char, capitalOf c = [C] ∧ C.toNat < 128 ∧ C.isUpper = true ∧ C.toLower = c :=
  ⟨c.toUpper, of_ascii (p := fun c => c.isLower = true →
    capitalOf c = [c.toUpper] ∧ c.toUpper.toNat < 128 ∧ c.toUpper.isUpper = true
      ∧ c.toUpper.toLower = c)
    (by decide +kernel) (toNat_lt_of_isLower h) h⟩

/-- The small form of ASCII text is found character by character, whatever stands before
it. -/
theorem lowerFrom_of_ascii {cs : List Char} (h : ∀ c ∈ cs, c.toNat < 128) (behind : Bool) :
    lowerFrom behind cs = cs.map Char.toLower := by
  induction cs generalizing behind with
  | nil => rfl
  | cons c cs ih =>
      have hc := h c List.mem_cons_self
      have hsigma : c ≠ 'Σ' := by
        rintro rfl
        exact absurd hc (by decide)
      rw [lowerFrom, if_neg (by simpa using hsigma), smallOf, if_pos hc,
        ih fun d hd => h d (List.mem_cons_of_mem c hd)]
      rfl

end SchemaAtlas.Text
