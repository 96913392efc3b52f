/-!
# `SchemaAtlas.Calendar.Moment`: seconds of the calendar

A moment is a second of the calendar from the year 1 to the year 9999. The next second is found
by carrying: a minute has sixty seconds, an hour sixty minutes, a day twenty-four hours, and a
month as many days as the leap-year rule gives it.
-/

set_option autoImplicit false

namespace SchemaAtlas

/-- A second of the calendar. -/
structure Moment where
  year : Nat
  month : Nat
  day : Nat
  hour : Nat
  minute : Nat
  second : Nat
  deriving DecidableEq, Repr, Inhabited

namespace Moment

/-- The last year of the calendar. -/
def lastYear : Nat := 9999

/-- Every fourth year is a leap year, but of the full centuries only every fourth. -/
def isLeap (year : Nat) : Bool :=
  year % 4 == 0 && (year % 100 != 0 || year % 400 == 0)

/-- The number of days of a month. -/
def daysIn (year month : Nat) : Nat :=
  if month = 2 then (if isLeap year then 29 else 28)
  else if month = 4 ∨ month = 6 ∨ month = 9 ∨ month = 11 then 30
  else 31

/-- Midnight of the next day; there is none after the last day of the calendar. -/
def nextDay? (m : Moment) : Option Moment :=
  if m.day < daysIn m.year m.month then some ⟨m.year, m.month, m.day + 1, 0, 0, 0⟩
  else if m.month < 12 then some ⟨m.year, m.month + 1, 1, 0, 0, 0⟩
  else if m.year < lastYear then some ⟨m.year + 1, 1, 1, 0, 0, 0⟩
  else none

/-- The next second; there is none after the end of the calendar. -/
def next? (m : Moment) : Option Moment :=
  if m.second < 59 then some { m with second := m.second + 1 }
  else if m.minute < 59 then some { m with minute := m.minute + 1, second := 0 }
  else if m.hour < 23 then some { m with hour := m.hour + 1, minute := 0, second := 0 }
  else m.nextDay?

/-- A number in at least two digits. -/
def twoDigits (n : Nat) : String :=
  if n < 10 then "0" ++ toString n else toString n

/-- The moment as it stands in the names of migrations, such as `2024_01_31_120000`. -/
def stamp (m : Moment) : String :=
  toString m.year ++ "_" ++ twoDigits m.month ++ "_" ++ twoDigits m.day ++ "_" ++ twoDigits m.hour
    ++ twoDigits m.minute ++ twoDigits m.second

/-- The moment written as `2024-01-31T12:00:00`. A fraction of a second is left off. -/
def ofIso? (s : String) : Option Moment :=
  let number (start count : Nat) : Option Nat :=
    let ds := (s.toList.drop start).take count
    if ds.length = count ∧ ds.all Char.isDigit then
      some (ds.foldl (fun n c => n * 10 + (c.toNat - '0'.toNat)) 0)
    else none
  match number 0 4, number 5 2, number 8 2 with
  | some year, some month, some day =>
    some ⟨year, month, day, (number 11 2).getD 0, (number 14 2).getD 0, (number 17 2).getD 0⟩
  | _, _, _ => none

/-- Midnight some days later; the calendar's last day at most. -/
def afterDays : Nat → Moment → Moment
  | 0, m => m
  | n + 1, m => afterDays n (m.nextDay?.getD m)

/-- The moment some seconds after the beginning of the year 1970. -/
def ofUnixSeconds (n : Nat) : Moment :=
  let time := n % 86400
  { afterDays (n / 86400) ⟨1970, 1, 1, 0, 0, 0⟩ with
    hour := time / 3600
    minute := time / 60 % 60
    second := time % 60 }

end Moment

end SchemaAtlas
