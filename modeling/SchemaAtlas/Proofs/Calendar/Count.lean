import Mathlib.Data.Nat.Init
import SchemaAtlas.Proofs.Calendar.Stamp

/-!
# `SchemaAtlas.Proofs.Calendar.Count`: seconds counted from the beginning of the calendar

A moment has a number: the seconds up to it, from the years before its year, the
months before its month, the days, hours, minutes and seconds (`count`). Carrying
agrees with counting: the next second is counted one higher (`Proper.count_next`),
only the last second of the year 9999 has no next one (`Proper.eq_last`), and none
is counted higher than that one (`Proper.count_le`).
-/

set_option autoImplicit false

namespace SchemaAtlas.Moment

/-! ### The count -/

/-- The number of days before a year begins. -/
def daysBeforeYear (year : Nat) : Nat :=
  365 * (year - 1) + (year - 1) / 4 - (year - 1) / 100 + (year - 1) / 400

/-- The number of days of a year before a month begins. -/
def daysBeforeMonth (year : Nat) : (month : Nat) → Nat
  | 0 => 0
  | 1 => 0
  | month + 2 => daysBeforeMonth year (month + 1) + daysIn year (month + 1)

/-- The number of days up to the one of a moment. -/
def days (m : Moment) : Nat :=
  daysBeforeYear m.year + daysBeforeMonth m.year m.month + m.day

/-- The number of seconds up to a moment. -/
def count (m : Moment) : Nat :=
  ((m.days * 24 + m.hour) * 60 + m.minute) * 60 + m.second

/-- The last second of the calendar. -/
def last : Moment :=
  ⟨lastYear, 12, 31, 23, 59, 59⟩

/-! ### Years -/

/-- The number of days of a year. -/
def daysOf (year : Nat) : Nat :=
  if isLeap year then 366 else 365

/-- The rule of the calendar in words of divisibility: every fourth year is a leap year,
apart from the full centuries, of which again only every fourth is one. -/
theorem isLeap_iff (year : Nat) :
    isLeap year = true ↔ 4 ∣ year ∧ (¬ 100 ∣ year ∨ 400 ∣ year) := by
  simp [isLeap, Nat.dvd_iff_mod_eq_zero]

/-- A year is a day longer than 365 days if it is a leap year. -/
theorem daysBeforeYear_succ {year : Nat} (h : 1 ≤ year) :
    daysBeforeYear (year + 1) = daysBeforeYear year + daysOf year := by
  obtain ⟨n, rfl⟩ := Nat.exists_eq_add_of_le' h
  show 365 * (n + 1) + (n + 1) / 4 - (n + 1) / 100 + (n + 1) / 400
    = 365 * n + n / 4 - n / 100 + n / 400 + daysOf (n + 1)
  have hcentury : n / 100 ≤ 365 * n := by omega
  rw [Nat.succ_div, Nat.succ_div, Nat.succ_div, daysOf]
  have hrule := isLeap_iff (n + 1)
  -- a multiple of 400 is one of 100, and that is one of 4
  have hfour : 100 ∣ n + 1 → 4 ∣ n + 1 := Nat.dvd_trans (by decide)
  have hhundred : 400 ∣ n + 1 → 100 ∣ n + 1 := Nat.dvd_trans (by decide)
  generalize n / 4 = fours at *
  generalize n / 100 = centuries at *
  generalize n / 400 = cycles at *
  by_cases h400 : 400 ∣ n + 1
  · have h100 := hhundred h400
    have h4 := hfour h100
    rw [if_pos h4, if_pos h100, if_pos h400, if_pos (hrule.mpr ⟨h4, .inr h400⟩)]
    omega
  · by_cases h100 : 100 ∣ n + 1
    · have hno : ¬ isLeap (n + 1) = true := fun hyes => (hrule.mp hyes).2.elim (· h100) h400
      rw [if_pos (hfour h100), if_pos h100, if_neg h400, if_neg hno]
      omega
    · by_cases h4 : 4 ∣ n + 1
      · rw [if_pos h4, if_neg h100, if_neg h400, if_pos (hrule.mpr ⟨h4, .inl h100⟩)]
        omega
      · have hno : ¬ isLeap (n + 1) = true := fun hyes => h4 (hrule.mp hyes).1
        rw [if_neg h4, if_neg h100, if_neg h400, if_neg hno]
        omega

/-- A later year has no fewer days before it. With this the days of two moments in different
years can be compared without going through the years between them. -/
theorem daysBeforeYear_mono {year later : Nat} (h : year ≤ later) :
    daysBeforeYear year ≤ daysBeforeYear later := by
  induction h with
  | refl => exact Nat.le_refl _
  | @step later _ ih =>
      rcases Nat.eq_zero_or_pos later with rfl | hpos
      · exact ih
      · rw [daysBeforeYear_succ hpos]
        omega

/-- The months of a year have all its days between them: those before December and those of
December make up the whole year, leap years included. -/
theorem daysBeforeMonth_add_daysIn (year : Nat) :
    daysBeforeMonth year 12 + daysIn year 12 = daysOf year := by
  have hfebruary : daysIn year 2 = if isLeap year then 29 else 28 := rfl
  show 0 + 31 + daysIn year 2 + 31 + 30 + 31 + 30 + 31 + 31 + 30 + 31 + 30 + 31 = daysOf year
  rw [hfebruary, daysOf]
  split <;> rfl

/-- No month goes beyond the end of its year: the days before it and its own days are at
most those of the year. -/
theorem daysBeforeMonth_add_le {year month : Nat} (h : 1 ≤ month ∧ month ≤ 12) :
    daysBeforeMonth year month + daysIn year month ≤ daysOf year := by
  obtain ⟨hlow, hhigh⟩ := h
  rw [← daysBeforeMonth_add_daysIn year]
  -- what the months behind it add is not taken away again
  induction hhigh using Nat.decreasingInduction with
  | self => exact Nat.le_refl _
  | of_succ month hlt ih =>
      obtain ⟨m, rfl⟩ := Nat.exists_eq_add_of_le' hlow
      have hstep : daysBeforeMonth year (m + 1 + 1) = daysBeforeMonth year (m + 1) + daysIn year
          (m + 1) := rfl
      have hlater := ih (Nat.le_add_left 1 (m + 1))
      omega

/-! ### Carrying and counting -/

/-- The day after a moment of the last second of a day is counted one higher. -/
theorem count_midnight {m : Moment} (hm : m.Proper) (hover : m.DayOver) {year month day : Nat}
    (hdays : days ⟨year, month, day, 0, 0, 0⟩ = m.days + 1) :
    count ⟨year, month, day, 0, 0, 0⟩ = m.count + 1 := by
  show ((days ⟨year, month, day, 0, 0, 0⟩ * 24 + 0) * 60 + 0) * 60 + 0 = m.count + 1
  rw [hdays, count, Nat.le_antisymm hm.hour hover.hour, Nat.le_antisymm hm.minute hover.minute,
    Nat.le_antisymm hm.second hover.second]
  omega

/-- The next second is counted one higher. So counting seconds agrees with stepping through
the calendar, over the ends of minutes, days, months and years alike. -/
theorem Proper.count_next {m m' : Moment} (hm : m.Proper) (h : m.next? = some m') :
    m'.count = m.count + 1 := by
  rcases next?_cases h with
    ⟨-, rfl⟩ | ⟨hsecond, -, rfl⟩ | ⟨hsecond, hminute, -, rfl⟩ | ⟨hover, -, rfl⟩
    | ⟨hover, hday, -, rfl⟩ | ⟨hover, hday, hmonth, -, rfl⟩
  · rfl
  · show ((m.days * 24 + m.hour) * 60 + (m.minute + 1)) * 60 + 0 = m.count + 1
    rw [count, Nat.le_antisymm hm.second hsecond]
    omega
  · show ((m.days * 24 + (m.hour + 1)) * 60 + 0) * 60 + 0 = m.count + 1
    rw [count, Nat.le_antisymm hm.second hsecond, Nat.le_antisymm hm.minute hminute]
    omega
  · exact count_midnight hm hover rfl
  · -- the month is over
    refine count_midnight hm hover ?_
    obtain ⟨month, hmonth⟩ := Nat.exists_eq_add_of_le' hm.month.1
    rw [days, days, Nat.le_antisymm hm.day.2 hday, hmonth]
    show daysBeforeYear m.year + (daysBeforeMonth m.year (month + 1) + daysIn m.year (month + 1))
      + 1 = _
    rw [← Nat.add_assoc]
  · -- the year is over
    refine count_midnight hm hover ?_
    have hyear := daysBeforeYear_succ hm.year.1
    have hmonths := daysBeforeMonth_add_daysIn m.year
    rw [days, days, Nat.le_antisymm hm.day.2 hday, Nat.le_antisymm hm.month.2 hmonth]
    show daysBeforeYear (m.year + 1) + 0 + 1 = _
    omega

/-- Only the last second of the calendar has no next one. Any earlier second has a next one
in its minute, or one of the larger parts goes up. -/
theorem Proper.eq_last {m : Moment} (hm : m.Proper) (h : m.next? = none) : m = last := by
  rw [next?] at h
  split at h
  · cases h
  split at h
  · cases h
  split at h
  · cases h
  rw [nextDay?] at h
  split at h
  · cases h
  split at h
  · cases h
  split at h
  · cases h
  -- no part can go up any more, so each is at its largest, from the year down
  rename_i hsecond hminute hhour hday hmonth hyear
  obtain ⟨year, month, day, hour, minute, second⟩ := m
  obtain ⟨hyear', hmonth', hday', hhour', hminute', hsecond'⟩ := hm
  simp only at hsecond hminute hhour hday hmonth hyear
  simp only at hyear' hmonth' hday' hhour' hminute' hsecond'
  have hdecember : daysIn year 12 = 31 := rfl
  obtain rfl : year = lastYear := by omega
  obtain rfl : month = 12 := by omega
  rw [last, Moment.mk.injEq]
  omega

/-- No second of the calendar is counted higher than the last one, because every part of a
moment is at most what it is there. -/
theorem Proper.count_le {m : Moment} (hm : m.Proper) : m.count ≤ last.count := by
  -- in years before the last, the whole year is over before the last one begins
  have hyears : daysBeforeYear m.year + daysOf m.year ≤ daysBeforeYear lastYear + 365 := by
    rcases Nat.lt_or_ge m.year lastYear with hlt | hge
    · have hmono := daysBeforeYear_mono (Nat.succ_le_of_lt hlt)
      rw [daysBeforeYear_succ hm.year.1] at hmono
      exact Nat.le_trans hmono (Nat.le_add_right _ _)
    · have hcommon : daysOf lastYear = 365 := rfl
      have hyear : m.year = lastYear := Nat.le_antisymm hm.year.2 hge
      exact Nat.le_of_eq (by rw [hyear, hcommon])
  have hmonths : daysBeforeMonth m.year m.month + daysIn m.year m.month ≤ daysOf m.year :=
    daysBeforeMonth_add_le hm.month
  have hday := hm.day.2
  have hdays : m.days ≤ daysBeforeYear lastYear + 365 := by
    rw [days]
    omega
  have hlast : last.count = (((daysBeforeYear lastYear + 365) * 24 + 23) * 60 + 59) * 60
      + 59 := rfl
  have hhour := hm.hour
  have hminute := hm.minute
  have hsecond := hm.second
  rw [hlast, count]
  omega

end SchemaAtlas.Moment
