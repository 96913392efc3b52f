import Mathlib.Algebra.Group.Nat.Defs
import SchemaAtlas.Calendar.Moment

/-!
# `SchemaAtlas.Proofs.Calendar.Stamp`: stamps in the order of time

From the year 1000 on, each part of a stamp has as many digits as in any other
stamp (`toList_stamp`). So a text that begins with the stamp of a moment comes
before each text that begins with the stamp of the next second, whatever stands
behind the stamps (`stamp_append_lt`). Seconds of the calendar are followed by
seconds of the calendar (`Proper.next`). Any stamp is made of digits and
underscores (`isDigit_of_mem_stamp`).
-/

set_option autoImplicit false

namespace SchemaAtlas.Moment

/-! ### Numbers of one width -/

/-- The last digits of a number, so many of them. -/
def padded : (width : Nat) → Nat → List Char
  | 0, _ => []
  | width + 1, n => padded width (n / 10) ++ [Nat.digitChar (n % 10)]

/-- The characters of the ten digits come in the order of their values, which is what
comparing numbers by their characters rests on. -/
theorem digitChar_lt {a b : Nat} (h : a < b) (hb : b < 10) :
    Nat.digitChar a < Nat.digitChar b := by
  have htable : ∀ b : Fin 10, ∀ a : Fin b, Nat.digitChar a < Nat.digitChar b := by decide
  exact htable ⟨b, hb⟩ ⟨a, h⟩

/-- Of two numbers of one width the smaller comes first, whatever stands behind them: the
first digit in which they differ decides. -/
theorem padded_append_lt {width a b : Nat} (h : a < b) (hb : b < 10 ^ width) (x y : List Char) :
    padded width a ++ x < padded width b ++ y := by
  induction width generalizing a b x y with
  | zero => omega
  | succ width ih =>
      rw [padded, padded, List.append_assoc, List.append_assoc]
      have hb' : b / 10 < 10 ^ width := by
        rw [Nat.pow_succ] at hb
        omega
      rcases Nat.lt_or_ge (a / 10) (b / 10) with hlt | hge
      · exact ih hlt hb' _ _
      · -- the digits in front are the same, so the last one decides
        have hfront : a / 10 = b / 10 := by omega
        rw [hfront]
        refine List.append_left_lt (List.cons_lt_cons_iff.mpr (.inl ?_))
        exact digitChar_lt (by omega) (by omega)

/-- A number that has as many digits as it is padded to is written in just its digits, with
no zero in front. -/
theorem toDigits_eq_padded {width n : Nat} (hle : 10 ^ width ≤ n) (hlt : n < 10 ^ (width + 1)) :
    Nat.toDigits 10 n = padded (width + 1) n := by
  induction width generalizing n with
  | zero =>
      have hten : n < 10 := hlt
      rw [Nat.toDigits_of_lt_base hten, padded, Nat.mod_eq_of_lt hten]
      rfl
  | succ width ih =>
      rw [Nat.pow_succ] at hle hlt
      have hpos := Nat.pow_pos (a := 10) (n := width) (by decide)
      rw [Nat.toDigits_of_base_le (by decide) (by omega), padded, ih (by omega) (by omega)]

/-- The parts of a stamp below a hundred are numbers of width two, with a zero in front of a
single digit. -/
theorem toList_twoDigits {n : Nat} (h : n < 100) : (twoDigits n).toList = padded 2 n := by
  rw [twoDigits]
  split
  · rename_i hone
    have hzero : n / 10 = 0 := by omega
    show (("0" : String) ++ n.repr).toList = _
    rw [String.toList_append, Nat.toList_repr, Nat.toDigits_of_lt_base hone, padded, padded,
      padded, hzero, Nat.mod_eq_of_lt hone]
    rfl
  · show n.repr.toList = _
    rw [Nat.toList_repr]
    exact toDigits_eq_padded (by omega) h

/-! ### The characters of a stamp -/

/-- A number in decimal writing has digits and nothing else, and so has no letter, slash or
underscore in it. -/
theorem isDigit_of_mem_repr {n : Nat} {c : Char} (h : c ∈ n.repr.toList) : c.isDigit = true := by
  rw [Nat.toList_repr] at h
  exact Nat.isDigit_of_mem_toDigits (by decide) (by decide) h

/-- A part of two digits has digits and nothing else, whether a zero was put in front or
not. -/
theorem isDigit_of_mem_twoDigits {n : Nat} {c : Char} (h : c ∈ (twoDigits n).toList) :
    c.isDigit = true := by
  unfold twoDigits at h
  split at h
  · rw [String.toList_append] at h
    rcases List.mem_append.mp h with h | h
    · have hzero : "0".toList = ['0'] := rfl
      rw [hzero, List.mem_singleton] at h
      rw [h]
      decide
    · exact isDigit_of_mem_repr h
  · exact isDigit_of_mem_repr h

/-- Stamps are written in digits and underscores. Letters, slashes and control characters
that are not wanted in a path cannot come from the stamp in it. -/
theorem isDigit_of_mem_stamp {m : Moment} {c : Char} (h : c ∈ m.stamp.toList) :
    c.isDigit = true ∨ c = '_' := by
  have hline : "_".toList = ['_'] := rfl
  unfold stamp at h
  simp only [String.toList_append, hline, List.mem_append, List.mem_singleton] at h
  rcases h with (((((((h | h) | h) | h) | h) | h) | h) | h) | h
  · exact .inl (isDigit_of_mem_repr h)
  · exact .inr h
  · exact .inl (isDigit_of_mem_twoDigits h)
  · exact .inr h
  · exact .inl (isDigit_of_mem_twoDigits h)
  · exact .inr h
  · exact .inl (isDigit_of_mem_twoDigits h)
  · exact .inl (isDigit_of_mem_twoDigits h)
  · exact .inl (isDigit_of_mem_twoDigits h)

/-! ### Moments of the calendar -/

/-- Holds of the seconds of the calendar. -/
structure Proper (m : Moment) : Prop where
  year : 1 ≤ m.year ∧ m.year ≤ lastYear
  month : 1 ≤ m.month ∧ m.month ≤ 12
  day : 1 ≤ m.day ∧ m.day ≤ daysIn m.year m.month
  hour : m.hour ≤ 23
  minute : m.minute ≤ 59
  second : m.second ≤ 59

instance (m : Moment) : Decidable m.Proper :=
  decidable_of_iff ((1 ≤ m.year ∧ m.year ≤ lastYear) ∧ (1 ≤ m.month ∧ m.month ≤ 12)
      ∧ (1 ≤ m.day ∧ m.day ≤ daysIn m.year m.month) ∧ m.hour ≤ 23 ∧ m.minute ≤ 59 ∧ m.second ≤ 59)
    ⟨fun h => ⟨h.1, h.2.1, h.2.2.1, h.2.2.2.1, h.2.2.2.2.1, h.2.2.2.2.2⟩,
      fun h => ⟨h.year, h.month, h.day, h.hour, h.minute, h.second⟩⟩

/-- Every month has a first day, also a month of a number that the calendar does not
have. -/
theorem daysIn_pos (year month : Nat) : 1 ≤ daysIn year month := by
  rw [daysIn]
  split
  · split <;> decide
  · split <;> decide

/-- No month has more than 31 days, so the number of a day always fits the two digits that
it has in a stamp. -/
theorem daysIn_le (year month : Nat) : daysIn year month ≤ 31 := by
  rw [daysIn]
  split
  · split <;> decide
  · split <;> decide

/-- Holds of the last second of a day. -/
structure DayOver (m : Moment) : Prop where
  hour : 23 ≤ m.hour
  minute : 59 ≤ m.minute
  second : 59 ≤ m.second

/-- What the next second is: one part goes up by one, the parts before it stay, and
those behind it were full and start anew. -/
theorem next?_cases {m m' : Moment} (h : m.next? = some m') :
    (m.second < 59 ∧ m' = { m with second := m.second + 1 })
      ∨ (59 ≤ m.second ∧ m.minute < 59 ∧ m' = { m with minute := m.minute + 1, second := 0 })
      ∨ (59 ≤ m.second ∧ 59 ≤ m.minute ∧ m.hour < 23
        ∧ m' = { m with hour := m.hour + 1, minute := 0, second := 0 })
      ∨ (m.DayOver ∧ m.day < daysIn m.year m.month ∧ m' = ⟨m.year, m.month, m.day + 1, 0, 0, 0⟩)
      ∨ (m.DayOver ∧ daysIn m.year m.month ≤ m.day ∧ m.month < 12
        ∧ m' = ⟨m.year, m.month + 1, 1, 0, 0, 0⟩)
      ∨ (m.DayOver ∧ daysIn m.year m.month ≤ m.day ∧ 12 ≤ m.month ∧ m.year < lastYear
        ∧ m' = ⟨m.year + 1, 1, 1, 0, 0, 0⟩) := by
  rw [next?] at h
  split at h
  · exact .inl ⟨‹_›, (Option.some.inj h).symm⟩
  rename_i hsecond
  split at h
  · exact .inr (.inl ⟨by omega, ‹_›, (Option.some.inj h).symm⟩)
  rename_i hminute
  split at h
  · exact .inr (.inr (.inl ⟨by omega, by omega, ‹_›, (Option.some.inj h).symm⟩))
  rename_i hhour
  -- the clock is full, so the date decides
  have hover : m.DayOver := ⟨by omega, by omega, by omega⟩
  rw [nextDay?] at h
  split at h
  · exact .inr (.inr (.inr (.inl ⟨hover, ‹_›, (Option.some.inj h).symm⟩)))
  rename_i hday
  split at h
  · exact .inr (.inr (.inr (.inr (.inl ⟨hover, by omega, ‹_›, (Option.some.inj h).symm⟩))))
  rename_i hmonth
  split at h
  · exact .inr
      (.inr (.inr (.inr (.inr ⟨hover, by omega, by omega, ‹_›, (Option.some.inj h).symm⟩))))
  · cases h

/-- The second after a second of the calendar is one as well, and in no earlier year. -/
theorem Proper.next {m m' : Moment} (hm : m.Proper) (h : m.next? = some m') :
    m'.Proper ∧ m.year ≤ m'.year := by
  obtain ⟨hyear, hmonth, hday, hhour, hminute, hsecond⟩ := hm
  rcases next?_cases h with
    ⟨hlt, rfl⟩ | ⟨-, hlt, rfl⟩ | ⟨-, -, hlt, rfl⟩ | ⟨-, hlt, rfl⟩ | ⟨-, -, hlt, rfl⟩
    | ⟨-, -, -, hlt, rfl⟩
  · exact ⟨⟨hyear, hmonth, hday, hhour, hminute, hlt⟩, Nat.le_refl _⟩
  · exact ⟨⟨hyear, hmonth, hday, hhour, hlt, Nat.zero_le _⟩, Nat.le_refl _⟩
  · exact ⟨⟨hyear, hmonth, hday, hlt, Nat.zero_le _, Nat.zero_le _⟩, Nat.le_refl _⟩
  · exact ⟨⟨hyear, hmonth, ⟨Nat.le_add_left _ _, hlt⟩, Nat.zero_le _, Nat.zero_le _,
      Nat.zero_le _⟩,
      Nat.le_refl _⟩
  · exact ⟨⟨hyear, ⟨Nat.le_add_left _ _, hlt⟩, ⟨Nat.le_refl _, daysIn_pos _ _⟩, Nat.zero_le _,
      Nat.zero_le _,
      Nat.zero_le _⟩, Nat.le_refl _⟩
  · exact ⟨⟨⟨Nat.le_add_left _ _, hlt⟩, ⟨Nat.le_refl 1, (by decide : 1 ≤ 12)⟩,
      ⟨Nat.le_refl _, daysIn_pos _ _⟩,
      Nat.zero_le _, Nat.zero_le _, Nat.zero_le _⟩, Nat.le_succ _⟩

/-! ### Stamps -/

/-- A stamp is four digits for the year, and two for each of the other parts. -/
theorem toList_stamp {m : Moment} (hm : m.Proper) (hyear : 1000 ≤ m.year) :
    m.stamp.toList = padded 4 m.year ++ '_' :: (padded 2 m.month ++ '_' :: (padded 2 m.day
      ++ '_' :: (padded 2 m.hour ++ (padded 2 m.minute ++ padded 2 m.second)))) := by
  have hlast : m.year ≤ 9999 := hm.year.2
  have hyears : (toString m.year).toList = padded 4 m.year := by
    show m.year.repr.toList = _
    rw [Nat.toList_repr]
    exact toDigits_eq_padded hyear (by omega)
  have hmonths := toList_twoDigits (n := m.month) (by have hle := hm.month.2; omega)
  have hdays := toList_twoDigits (n := m.day) (by
    have hle := Nat.le_trans hm.day.2 (daysIn_le _ _)
    omega)
  have hhours := toList_twoDigits (n := m.hour) (by have hle := hm.hour; omega)
  have hminutes := toList_twoDigits (n := m.minute) (by have hle := hm.minute; omega)
  have hseconds := toList_twoDigits (n := m.second) (by have hle := hm.second; omega)
  simp only [stamp, String.toList_append, hyears, hmonths, hdays, hhours, hminutes, hseconds,
    List.append_assoc]
  rfl

/-- A text that begins with the stamp of a moment comes before one that begins with the
stamp of the next. -/
theorem stamp_append_lt {m m' : Moment} (hm : m.Proper) (hyear : 1000 ≤ m.year)
    (h : m.next? = some m')
    (x y : List Char) : m.stamp.toList ++ x < m'.stamp.toList ++ y := by
  obtain ⟨hm', hyear'⟩ := hm.next h
  rw [toList_stamp hm hyear, toList_stamp hm' (Nat.le_trans hyear hyear')]
  have hcons : ∀ {l l' : List Char} (c : Char), l < l' → c :: l < c :: l' :=
    fun c hlt => List.cons_lt_cons_iff.mpr (.inr ⟨rfl, hlt⟩)
  simp only [List.append_assoc, List.cons_append]
  -- the parts in front of the one that goes up are the same
  rcases next?_cases h with
    ⟨hlt, rfl⟩ | ⟨-, hlt, rfl⟩ | ⟨-, -, hlt, rfl⟩ | ⟨-, hlt, rfl⟩ | ⟨-, -, hlt, rfl⟩
    | ⟨-, -, -, hlt, rfl⟩
  · refine List.append_left_lt
      (hcons _ (List.append_left_lt (hcons _ (List.append_left_lt (hcons _
      (List.append_left_lt (List.append_left_lt ?_)))))))
    exact padded_append_lt (Nat.lt_succ_self _) (by omega) _ _
  · refine List.append_left_lt
      (hcons _ (List.append_left_lt (hcons _ (List.append_left_lt (hcons _
      (List.append_left_lt ?_))))))
    exact padded_append_lt (Nat.lt_succ_self _) (by omega) _ _
  · refine List.append_left_lt
      (hcons _ (List.append_left_lt (hcons _ (List.append_left_lt (hcons _ ?_)))))
    exact padded_append_lt (Nat.lt_succ_self _) (by omega) _ _
  · refine List.append_left_lt (hcons _ (List.append_left_lt (hcons _ ?_)))
    have hle := daysIn_le m.year m.month
    exact padded_append_lt (Nat.lt_succ_self _) (by omega) _ _
  · refine List.append_left_lt (hcons _ ?_)
    exact padded_append_lt (Nat.lt_succ_self _) (by omega) _ _
  · have hle : m.year < 9999 := hlt
    exact padded_append_lt (Nat.lt_succ_self _) (by omega) _ _

end SchemaAtlas.Moment
