import Osis.Posix.Calendar

/-!
# The day number of `gen` (`current_mjd` of lab 6)

The time marks of `gen` run up to the modified Julian date of the day before. It takes the
day number from the year, month and day of `gmtime_r` by integer divisions, and so counts the
days of the calendar without a gap, over months, leap days and centuries.
-/

namespace Osis.Lab06

open Posix

/-- The fields of `struct tm` that the day number is made of. -/
structure Tm where
  tmYear : ℤ
  tmMon : ℤ
  tmMday : ℤ

/-- The fields for a date. -/
def tmOf (date : Date) : Tm := ⟨date.year - 1900, date.month - 1, date.day⟩

/-- `gmtime_r`, for a time that is not before the epoch. -/
def gmtime (now : ℕ) : Tm := tmOf (Date.ofDays (now / 86400))

/-- `JDN` of `current_mjd`; up to the year 5000000 every number in it is an `int`. -/
def julianDay (tm : Tm) : ℤ :=
  let Y := tm.tmYear + 1900
  let M := tm.tmMon + 1
  let D := tm.tmMday
  let A := (14 - M).tdiv 12
  let y := Y + 4800 - A
  let m := M + 12 * A - 3
  D + (153 * m + 2).tdiv 5 + 365 * y + y.tdiv 4 - y.tdiv 100 + y.tdiv 400 - 32045

/-- `JDN` when `current_mjd` is called at the given time. -/
def currentJdn (now : ℕ) : ℤ := julianDay (gmtime now)

/-- The days before a month in a year that begins in March. -/
def daysBefore (month : ℕ) : ℤ := (153 * (month + 12 * ((14 - month) / 12) - 3) + 2) / 5

/-- The days of the years before one that begins in March. -/
def daysOfYears (year : ℤ) : ℤ := 365 * year + year / 4 - year / 100 + year / 400

/-- No dividend is negative, so the quotients are rounded down. -/
theorem julianDay_eq (date : Date) :
    julianDay (tmOf date) = date.day + daysBefore date.month +
      daysOfYears (date.year + 4800 - (14 - date.month) / 12) - 32045 := by
  have month_pos := date.month_pos
  have month_le := date.month_le
  have quotient : ((14 : ℤ) - date.month).tdiv 12 = (14 - date.month) / 12 :=
    Int.tdiv_eq_ediv_of_nonneg (by omega)
  have year_nonneg : (0 : ℤ) ≤ date.year + 4800 - (14 - date.month) / 12 := by omega
  simp only [julianDay, tmOf, Int.sub_add_cancel, quotient, daysBefore, daysOfYears]
  rw [Int.tdiv_eq_ediv_of_nonneg (by omega), Int.tdiv_eq_ediv_of_nonneg year_nonneg,
    Int.tdiv_eq_ediv_of_nonneg year_nonneg, Int.tdiv_eq_ediv_of_nonneg year_nonneg]
  omega

/-- Every month but February has the days that its quotient counts. -/
theorem daysBefore_succ {month : ℕ} (month_pos : 1 ≤ month) (more : month < 12)
    (other : month ≠ 2) (year : ℕ) :
    daysBefore (month + 1) = daysBefore month + daysIn year month := by
  interval_cases month <;> first | rfl | exact absurd rfl other

/-- A year has 365 days and a leap day before its March. -/
theorem daysOfYears_march (year : ℕ) :
    daysOfYears (year + 4800) = daysOfYears (year + 4800 - 1) + 337 + daysIn year 2 := by
  have leap := isLeap_iff year
  have february : daysIn year 2 = if isLeap year then 29 else 28 := rfl
  rw [february]
  unfold daysOfYears
  split
  · next is_leap =>
      have divides := leap.mp is_leap
      push_cast
      omega
  · next common =>
      have divides := mt leap.mpr common
      push_cast
      omega

/-- January and February count to the year before. -/
theorem marchYear_eq {month : ℕ} (month_pos : 1 ≤ month) (month_le : month ≤ 12) :
    ((14 : ℤ) - month) / 12 = if month ≤ 2 then 1 else 0 := by
  split <;> omega

/-- The day number counts the days of the calendar. -/
theorem julianDay_next (date : Date) :
    julianDay (tmOf date.next) = julianDay (tmOf date) + 1 := by
  rw [julianDay_eq, julianDay_eq, marchYear_eq date.month_pos date.month_le,
    marchYear_eq date.next.month_pos date.next.month_le]
  rcases date with ⟨year, month, day, month_pos, month_le, day_pos, day_le⟩
  unfold Date.next
  split
  · push_cast
    omega
  · next last =>
      have length : day = daysIn year month := Nat.le_antisymm day_le (Nat.le_of_not_lt last)
      split
      · next more =>
          by_cases february : month = 2
          · subst february
            have march := daysOfYears_march year
            have before : daysBefore (2 + 1) = 0 ∧ daysBefore 2 = 337 := ⟨rfl, rfl⟩
            have years : (if 2 + 1 ≤ 2 then (1 : ℤ) else 0) = 0 ∧
                (if 2 ≤ 2 then (1 : ℤ) else 0) = 1 := ⟨rfl, rfl⟩
            simp only [before, length, years, Int.sub_zero]
            push_cast
            omega
          · have sameYear :
                (if month + 1 ≤ 2 then (1 : ℤ) else 0) = if month ≤ 2 then 1 else 0 := by
              split <;> split <;> omega
            simp only [daysBefore_succ month_pos more february year, sameYear, length]
            push_cast
            omega
      · next whole =>
          have december : month = 12 := Nat.le_antisymm month_le (Nat.le_of_not_lt whole)
          subst december
          have days : daysIn year 12 = 31 := rfl
          have before : daysBefore 1 = 306 ∧ daysBefore 12 = 275 := ⟨rfl, rfl⟩
          have years : (year : ℤ) + 1 + 4800 - 1 = year + 4800 := by omega
          simp [before, length, days, years]
          omega

/-- After any number of days the day number has grown by it. -/
theorem julianDay_iterate (date : Date) (days : ℕ) :
    julianDay (tmOf (Date.next^[days] date)) = julianDay (tmOf date) + days := by
  induction days with
  | zero => simp
  | succ days ih =>
      rw [Function.iterate_succ_apply', julianDay_next, ih]
      push_cast
      omega

/-- Whenever `gen` runs, the day number is that of 1 January 1970 and the days since. -/
theorem currentJdn_eq (now : ℕ) : currentJdn now = 2440588 + now / 86400 := by
  have epoch : julianDay (tmOf Date.epoch) = 2440588 := by
    simp [julianDay, tmOf, Date.epoch]
  have counted := julianDay_iterate Date.epoch (now / 86400)
  rw [epoch] at counted
  exact counted

end Osis.Lab06
