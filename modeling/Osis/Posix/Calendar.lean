import Mathlib.Data.Nat.Notation
import Mathlib.Logic.Function.Iterate
import Mathlib.Tactic.IntervalCases

/-!
# The Gregorian calendar

A date carries the proof that its month and day exist, and each date has a next one. A
count of days since 1 January 1970 stands for the date that is reached by as many steps.
-/

namespace Osis.Posix

/-- Whether a year has a 29 February. -/
def isLeap (year : ℕ) : Bool := year % 4 = 0 && (year % 100 ≠ 0 || year % 400 = 0)

theorem isLeap_iff (year : ℕ) :
    isLeap year = true ↔ year % 4 = 0 ∧ (year % 100 ≠ 0 ∨ year % 400 = 0) := by
  simp [isLeap]

/-- The number of days of a month. -/
def daysIn (year month : ℕ) : ℕ :=
  if month = 2 then if isLeap year then 29 else 28
  else if month = 4 ∨ month = 6 ∨ month = 9 ∨ month = 11 then 30
  else 31

theorem january_le : 1 ≤ 12 := by
  decide

theorem daysIn_pos (year month : ℕ) : 1 ≤ daysIn year month := by
  unfold daysIn
  split
  · split <;> decide
  · split <;> decide

/-- A day of the calendar. -/
structure Date where
  year : ℕ
  month : ℕ
  day : ℕ
  month_pos : 1 ≤ month
  month_le : month ≤ 12
  day_pos : 1 ≤ day
  day_le : day ≤ daysIn year month

namespace Date

/-- The day after. -/
def next (date : Date) : Date :=
  if inside : date.day < daysIn date.year date.month then
    { date with day := date.day + 1, day_pos := Nat.le_add_left 1 _, day_le := inside }
  else if more : date.month < 12 then
    { year := date.year
      month := date.month + 1
      day := 1
      month_pos := Nat.le_add_left 1 _
      month_le := more
      day_pos := Nat.one_pos
      day_le := daysIn_pos _ _ }
  else
    { year := date.year + 1
      month := 1
      day := 1
      month_pos := Nat.one_pos
      month_le := january_le
      day_pos := Nat.one_pos
      day_le := daysIn_pos _ _ }

/-- 1 January 1970. -/
def epoch : Date where
  year := 1970
  month := 1
  day := 1
  month_pos := Nat.one_pos
  month_le := january_le
  day_pos := Nat.one_pos
  day_le := daysIn_pos 1970 1

/-- The date that many days after the epoch. -/
def ofDays (days : ℕ) : Date := next^[days] epoch

end Date

end Osis.Posix
