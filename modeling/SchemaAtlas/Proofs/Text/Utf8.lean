import SchemaAtlas.Text.Utf8

/-!
# `SchemaAtlas.Proofs.Text.Utf8`: reading what was written

The reader takes bytes one at a time and keeps what it has of a character that was
begun. A lead byte begins a character of as many bytes as were written
(`start_of_two`, `start_of_three`, `start_of_four`), every further byte adds six bits
(`step_of_continues`, `step_of_completes`), and the last one completes the character.
So the bytes of a character are read as that character (`decodeFrom_encodeChar`), and
those of a text as the text (`decode_encode`). Since the first byte of a character goes
on with none, a text is read behind any other bytes too
(`exists_decodeFrom_append_encode`).
-/

set_option autoImplicit false

namespace SchemaAtlas.Text.Utf8

/-! ### One byte -/

/-- The next byte is read as the number that was written, if it is one that a byte can
hold. -/
theorem decodeFrom_cons (pending : Option Pending) {b : Nat} (hb : b < 256) (r : List UInt8) :
    decodeFrom pending (UInt8.ofNat b :: r)
      = (step pending b).1 ++ decodeFrom (step pending b).2 r := by
  rw [decodeFrom, UInt8.toNat_ofNat_of_lt' hb]

section Lead

variable {b : Nat}

/-- A byte below 0x80 is a character by itself. -/
theorem start_of_one (h : b < 0x80) : start b = ([Char.ofNat b], none) := by
  rw [start, if_pos h]

/-- A byte from 0xC2 on and below 0xE0 begins a character of two bytes. -/
theorem start_of_two (hlow : 0xC2 ≤ b) (hhigh : b < 0xE0) :
    start b = ([], some ⟨b - 0xC0, 1, 0x80, 0xBF⟩) := by
  rw [start, if_neg (by omega), if_neg (by omega), if_pos hhigh]

/-- A byte from 0xE0 on and below 0xF0 begins a character of three bytes. For two of these
bytes, fewer second bytes are allowed. -/
theorem start_of_three (hlow : 0xE0 ≤ b) (hhigh : b < 0xF0) :
    start b = ([],
      some ⟨b - 0xE0, 2, if b = 0xE0 then 0xA0 else 0x80, if b = 0xED then 0x9F else 0xBF⟩) := by
  rw [start, if_neg (by omega), if_neg (by omega), if_neg (by omega), if_pos hhigh]

/-- A byte from 0xF0 on and below 0xF5 begins a character of four bytes. For the first and
the last of these bytes, fewer second bytes are allowed. -/
theorem start_of_four (hlow : 0xF0 ≤ b) (hhigh : b < 0xF5) :
    start b = ([],
      some ⟨b - 0xF0, 3, if b = 0xF0 then 0x90 else 0x80, if b = 0xF4 then 0x8F else 0xBF⟩) := by
  rw [start, if_neg (by omega), if_neg (by omega), if_neg (by omega), if_neg (by omega),
    if_pos hhigh]

end Lead

section Tail

variable {p : Pending} {bits : Nat}

/-- A byte that goes on with a character adds six bits to it, and there are more to come. -/
theorem step_of_continues (hlow : p.low ≤ 0x80 + bits) (hhigh : 0x80 + bits ≤ p.high)
    (hmissing : p.missing ≠ 1) :
    step (some p) (0x80 + bits) = ([], some ⟨p.bits * 64 + bits, p.missing - 1, 0x80, 0xBF⟩) := by
  rw [step, if_pos ⟨hlow, hhigh⟩, if_neg hmissing, Nat.add_sub_cancel_left]

/-- The last byte of a character adds the last six bits, and the character is done. -/
theorem step_of_completes (hlow : p.low ≤ 0x80 + bits) (hhigh : 0x80 + bits ≤ p.high)
    (hmissing : p.missing = 1) :
    step (some p) (0x80 + bits) = ([Char.ofNat (p.bits * 64 + bits)], none) := by
  rw [step, if_pos ⟨hlow, hhigh⟩, if_pos hmissing, Nat.add_sub_cancel_left]

/-- With one byte missing, the next one that is allowed completes the character. -/
theorem decodeFrom_one {low high : Nat} (lead : Nat) (hbits : bits < 0x40)
    (hlow : low ≤ 0x80 + bits)
    (hhigh : 0x80 + bits ≤ high) (r : List UInt8) :
    decodeFrom (some ⟨lead, 1, low, high⟩) (UInt8.ofNat (0x80 + bits) :: r)
      = Char.ofNat (lead * 64 + bits) :: decodeFrom none r := by
  rw [decodeFrom_cons _ (by omega), step_of_completes hlow hhigh rfl]
  rfl

/-- With two bytes missing, the next two complete the character, the second of them in the
usual range. -/
theorem decodeFrom_two {low high last : Nat} (lead : Nat) (hbits : bits < 0x40)
    (hlow : low ≤ 0x80 + bits)
    (hhigh : 0x80 + bits ≤ high) (hlast : last < 0x40) (r : List UInt8) :
    decodeFrom (some ⟨lead, 2, low, high⟩)
      (UInt8.ofNat (0x80 + bits) :: UInt8.ofNat (0x80 + last) :: r)
      = Char.ofNat ((lead * 64 + bits) * 64 + last) :: decodeFrom none r := by
  rw [decodeFrom_cons _ (by omega), step_of_continues hlow hhigh (Nat.succ_succ_ne_one _)]
  exact decodeFrom_one _ hlast (by omega) (by omega) r

/-- With three bytes missing, the next three complete the character, the last two of them in
the usual range. -/
theorem decodeFrom_three {low high last next : Nat} (lead : Nat) (hbits : bits < 0x40)
    (hlow : low ≤ 0x80 + bits) (hhigh : 0x80 + bits ≤ high) (hnext : next < 0x40)
    (hlast : last < 0x40)
    (r : List UInt8) :
    decodeFrom (some ⟨lead, 3, low, high⟩)
        (UInt8.ofNat (0x80 + bits) :: UInt8.ofNat (0x80 + next) :: UInt8.ofNat (0x80 + last) :: r)
      = Char.ofNat (((lead * 64 + bits) * 64 + next) * 64 + last) :: decodeFrom none r := by
  rw [decodeFrom_cons _ (by omega), step_of_continues hlow hhigh (Nat.succ_succ_ne_one _)]
  exact decodeFrom_two _ hnext (by omega) (by omega) hlast r

end Tail

/-! ### One character -/

/-- The number of a character is no surrogate, and not beyond the last one. So it takes four
bytes at most. -/
theorem toNat_cases (c : Char) : c.toNat < 0xD800 ∨ 0xDFFF < c.toNat ∧ c.toNat < 0x110000 :=
  c.valid

section Bytes

variable {n : Nat}

/-- A number that takes two bytes is read back from them. -/
theorem decodeFrom_of_two (hlow : 0x80 ≤ n) (hhigh : n < 0x800) (r : List UInt8) :
    decodeFrom none (UInt8.ofNat (0xC0 + n / 0x40) :: UInt8.ofNat (0x80 + n % 0x40) :: r)
      = Char.ofNat n :: decodeFrom none r := by
  have hlast : n % 0x40 < 0x40 := Nat.mod_lt _ (by omega)
  have hbits : (0xC0 + n / 0x40 - 0xC0) * 64 + n % 0x40 = n := by omega
  rw [decodeFrom_cons none (by omega), step, start_of_two (by omega) (by omega), List.nil_append,
    decodeFrom_one _ hlast (by omega) (by omega), hbits]

/-- A number that takes three bytes and stands for no surrogate is read back from them. -/
theorem decodeFrom_of_three (hlow : 0x800 ≤ n) (hhigh : n < 0x10000)
    (hvalid : n < 0xD800 ∨ 0xDFFF < n)
    (r : List UInt8) :
    decodeFrom none (UInt8.ofNat (0xE0 + n / 0x1000) :: UInt8.ofNat (0x80 + n / 0x40 % 0x40)
      :: UInt8.ofNat (0x80 + n % 0x40) :: r) = Char.ofNat n :: decodeFrom none r := by
  have hsecond : n / 0x40 % 0x40 < 0x40 := Nat.mod_lt _ (by omega)
  have hlast : n % 0x40 < 0x40 := Nat.mod_lt _ (by omega)
  have hbits : ((0xE0 + n / 0x1000 - 0xE0) * 64 + n / 0x40 % 0x40) * 64 + n % 0x40 = n := by omega
  -- the second byte is high enough if the lead byte is the first, and low enough for no surrogate
  have hleast : (if 0xE0 + n / 0x1000 = 0xE0 then 0xA0 else 0x80) ≤ 0x80 + n / 0x40 % 0x40 := by
    split
    · omega
    · omega
  have hmost : 0x80 + n / 0x40 % 0x40 ≤ if 0xE0 + n / 0x1000 = 0xED then 0x9F else 0xBF := by
    split
    · omega
    · omega
  rw [decodeFrom_cons none (by omega), step, start_of_three (by omega) (by omega),
    List.nil_append, decodeFrom_two _ hsecond hleast hmost hlast, hbits]

/-- A number that takes four bytes and is not beyond the last one is read back from them. -/
theorem decodeFrom_of_four (hlow : 0x10000 ≤ n) (hhigh : n < 0x110000) (r : List UInt8) :
    decodeFrom none (UInt8.ofNat (0xF0 + n / 0x40000) :: UInt8.ofNat (0x80 + n / 0x1000 % 0x40)
      :: UInt8.ofNat (0x80 + n / 0x40 % 0x40) :: UInt8.ofNat (0x80 + n % 0x40) :: r)
      = Char.ofNat n :: decodeFrom none r := by
  have hsecond : n / 0x1000 % 0x40 < 0x40 := Nat.mod_lt _ (by omega)
  have hthird : n / 0x40 % 0x40 < 0x40 := Nat.mod_lt _ (by omega)
  have hlast : n % 0x40 < 0x40 := Nat.mod_lt _ (by omega)
  have hbits :
      (((0xF0 + n / 0x40000 - 0xF0) * 64 + n / 0x1000 % 0x40) * 64 + n / 0x40 % 0x40) * 64
      + n % 0x40 = n := by omega
  -- as before, with the last code point in the place of surrogates
  have hleast : (if 0xF0 + n / 0x40000 = 0xF0 then 0x90 else 0x80)
      ≤ 0x80 + n / 0x1000 % 0x40 := by
    split
    · omega
    · omega
  have hmost : 0x80 + n / 0x1000 % 0x40 ≤ if 0xF0 + n / 0x40000 = 0xF4 then 0x8F else 0xBF := by
    split
    · omega
    · omega
  rw [decodeFrom_cons none (by omega), step, start_of_four (by omega) (by omega), List.nil_append,
    decodeFrom_three _ hsecond hleast hmost hthird hlast, hbits]

end Bytes

/-- The bytes of a character are read as the character, whatever bytes come behind them. -/
theorem decodeFrom_encodeChar (c : Char) (r : List UInt8) :
    decodeFrom none (encodeChar c ++ r) = c :: decodeFrom none r := by
  have hvalid := toNat_cases c
  have hchar : Char.ofNat c.toNat = c := Char.ofNat_toNat c
  rw [encodeChar]
  simp only [Nat.div_one]
  split
  · rename_i hone
    rw [List.singleton_append, decodeFrom_cons none (by omega), step, start_of_one hone, hchar]
    rfl
  · rename_i hone
    split
    · rename_i htwo
      rw [List.cons_append, List.singleton_append, decodeFrom_of_two (by omega) htwo, hchar]
    · rename_i htwo
      split
      · rename_i hthree
        rw [List.cons_append, List.cons_append, List.singleton_append,
          decodeFrom_of_three (by omega) hthree (by omega), hchar]
      · rename_i hthree
        rw [List.cons_append, List.cons_append, List.cons_append, List.singleton_append,
          decodeFrom_of_four (by omega) (by omega), hchar]

/-! ### Whole texts -/

/-- Text is written piece by piece, so the bytes of two pieces stand one behind the
other. -/
theorem encode_append (s t : String) : encode (s ++ t) = encode s ++ encode t := by
  rw [encode, String.toList_append, List.flatMap_append]
  rfl

/-- Characters that were written are read first, and then the bytes behind them by
themselves. -/
theorem decodeFrom_encode_append (s : String) (r : List UInt8) :
    decodeFrom none (encode s ++ r) = s.toList ++ decodeFrom none r := by
  rw [encode]
  induction s.toList with
  | nil => rfl
  | cons c cs ih =>
      rw [List.flatMap_cons, List.append_assoc, decodeFrom_encodeChar, ih, List.cons_append]

/-- The bytes of a text are read as its characters, with nothing in front of or behind
them. -/
theorem decodeFrom_encode (s : String) : decodeFrom none (encode s) = s.toList := by
  have hread := decodeFrom_encode_append s []
  rw [List.append_nil] at hread
  rw [hread]
  exact List.append_nil _

/-- Text that was written is read as it was, so a save and a load lose nothing. -/
theorem decode_encode (s : String) : decode (encode s) = s := by
  rw [decode, decodeFrom_encode, String.ofList_toList]

/-! ### Text behind any bytes -/

/-- Holds of what was begun if it goes on with bytes that begin nothing. -/
def Pending.GoesOn (p : Pending) : Prop :=
  0x80 ≤ p.low ∧ p.high ≤ 0xBF

/-- What a first byte leaves pending is a character that goes on. -/
theorem goesOn_of_start {b : Nat} : ∀ p ∈ (start b).2, p.GoesOn := by
  intro p hp
  rw [start] at hp
  split at hp
  · cases hp
  · split at hp
    · cases hp
    · split at hp
      · obtain rfl := Option.some.inj hp
        exact ⟨Nat.le_refl _, Nat.le_refl _⟩
      · split at hp
        · obtain rfl := Option.some.inj hp
          simp only [Pending.GoesOn]
          exact ⟨by split <;> omega, by split <;> omega⟩
        · split at hp
          · obtain rfl := Option.some.inj hp
            simp only [Pending.GoesOn]
            exact ⟨by split <;> omega, by split <;> omega⟩
          · cases hp

/-- Whatever a byte leaves pending is a character that goes on, so this is so all the
way. -/
theorem goesOn_of_step (pending : Option Pending) (b : Nat) :
    ∀ p ∈ (step pending b).2, p.GoesOn := by
  intro p hp
  cases pending with
  | none => exact goesOn_of_start p hp
  | some q =>
      rw [step] at hp
      split at hp
      · simp only at hp
        split at hp
        · cases hp
        · obtain rfl := Option.some.inj hp
          exact ⟨Nat.le_refl _, Nat.le_refl _⟩
      · exact goesOn_of_start p hp

/-- The first byte of a character begins one, and is none of those that go on with one. -/
theorem exists_lead (c : Char) :
    ∃ b r, encodeChar c = UInt8.ofNat b :: r ∧ b < 256 ∧ (b < 0x80 ∨ 0xBF < b) := by
  have hvalid := toNat_cases c
  rw [encodeChar]
  generalize c.toNat = n at hvalid
  simp only
  split
  · exact ⟨n, _, rfl, by omega, by omega⟩
  · split
    · exact ⟨_, _, rfl, by omega, by omega⟩
    · split
      · exact ⟨_, _, rfl, by omega, by omega⟩
      · exact ⟨_, _, rfl, by omega, by omega⟩

/-- A character that was begun and not finished ends where another one begins. It is
replaced, and the other one is read. -/
theorem decodeFrom_some_encodeChar {p : Pending} (hp : p.GoesOn) (c : Char) (r : List UInt8) :
    decodeFrom (some p) (encodeChar c ++ r)
      = replacement :: decodeFrom none (encodeChar c ++ r) := by
  obtain ⟨b, rest, hencode, hb, hlead⟩ := exists_lead c
  have hnot : ¬(p.low ≤ b ∧ b ≤ p.high) := by
    obtain ⟨hlow, hhigh⟩ := hp
    omega
  have hstep : step (some p) b = (replacement :: (start b).1, (start b).2) := by
    rw [step, if_neg hnot]
  rw [hencode, List.cons_append, decodeFrom_cons _ hb, decodeFrom_cons _ hb, hstep]
  rfl

/-- Whatever bytes stand in front of text that was written, the text is read last and as it
was. -/
theorem exists_decodeFrom_append_encode {pending : Option Pending} (hp : ∀ p ∈ pending, p.GoesOn)
    (bytes : List UInt8) (s : String) :
    ∃ front, decodeFrom pending (bytes ++ encode s) = front ++ s.toList := by
  induction bytes generalizing pending with
  | nil =>
      have hread := decodeFrom_encode s
      cases pending with
      | none => exact ⟨[], hread⟩
      | some p =>
          cases hs : s.toList with
          | nil => exact ⟨_, (List.append_nil _).symm⟩
          | cons c cs =>
              -- the first character of the text ends what was begun
              refine ⟨[replacement], ?_⟩
              rw [List.nil_append, encode, hs, List.flatMap_cons,
                decodeFrom_some_encodeChar (hp p rfl)]
              rw [encode, hs, List.flatMap_cons] at hread
              rw [hread]
              rfl
  | cons b bytes ih =>
      obtain ⟨front, hfront⟩ := ih (goesOn_of_step pending b.toNat)
      refine ⟨(step pending b.toNat).1 ++ front, ?_⟩
      rw [List.cons_append, decodeFrom, hfront, List.append_assoc]

end SchemaAtlas.Text.Utf8
