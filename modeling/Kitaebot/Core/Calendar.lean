import Mathlib.Data.Nat.Notation
import Mathlib.Logic.Function.Iterate
import Mathlib.Order.Basic
import Mathlib.Tactic.Cases

/-!
# The proleptic Gregorian calendar

Dates with their bounds, the day after a date, and the readings of a clock that
shows the date and the time of day, second after second.
-/

namespace Kitaebot.Calendar

/-! ### Dates -/

def Leap (year : ℕ) : Prop := year % 4 = 0 ∧ (year % 100 ≠ 0 ∨ year % 400 = 0)

instance (year : ℕ) : Decidable (Leap year) :=
  inferInstanceAs (Decidable (_ ∧ _))

def monthDays (year month : ℕ) : ℕ :=
  if month = 2 then if Leap year then 29 else 28
  else if month = 4 ∨ month = 6 ∨ month = 9 ∨ month = 11 then 30
  else 31

theorem monthDays_bounds (year month : ℕ) :
    28 ≤ monthDays year month ∧ monthDays year month ≤ 31 := by
  rw [monthDays]
  split_ifs <;> omega

/-- A day of the calendar. -/
@[ext]
structure Day where
  year : ℕ
  month : ℕ
  day : ℕ
  month_pos : 0 < month
  month_le : month ≤ 12
  day_pos : 0 < day
  day_le : day ≤ monthDays year month
  deriving DecidableEq

namespace Day

/-- The first day of the next month. -/
def nextMonth (date : Day) : Day :=
  if hmonth : date.month < 12 then
    { year := date.year, month := date.month + 1, day := 1
      month_pos := Nat.succ_pos _, month_le := hmonth, day_pos := Nat.one_pos
      day_le := Nat.le_trans (by decide) (monthDays_bounds _ _).1 }
  else
    { year := date.year + 1, month := 1, day := 1
      month_pos := Nat.one_pos, month_le := by decide, day_pos := Nat.one_pos
      day_le := Nat.le_trans (by decide) (monthDays_bounds _ _).1 }

/-- The day after. -/
def next (date : Day) : Day :=
  if hday : date.day < monthDays date.year date.month then
    { date with day := date.day + 1, day_pos := Nat.succ_pos _, day_le := hday }
  else date.nextMonth

end Day

/-! ### Readings of a clock -/

/-- A date and a time of day. -/
@[ext]
structure Reading where
  date : Day
  hour : ℕ
  minute : ℕ
  second : ℕ
  hour_lt : hour < 24
  minute_lt : minute < 60
  second_lt : second < 60
  deriving DecidableEq

namespace Reading

/-- Midnight. -/
def midnight (date : Day) : Reading where
  date := date
  hour := 0
  minute := 0
  second := 0
  hour_lt := by decide
  minute_lt := by decide
  second_lt := by decide

/-- One second later. -/
def tick (reading : Reading) : Reading :=
  if hsecond : reading.second + 1 < 60 then
    { reading with second := reading.second + 1, second_lt := hsecond }
  else if hminute : reading.minute + 1 < 60 then
    { reading with minute := reading.minute + 1, minute_lt := hminute, second := 0
                   second_lt := by decide }
  else if hhour : reading.hour + 1 < 24 then
    { reading with hour := reading.hour + 1, hour_lt := hhour, minute := 0
                   minute_lt := by decide, second := 0, second_lt := by decide }
  else midnight reading.date.next

end Reading

/-- 1 January 1970. -/
def epochDay : Day where
  year := 1970
  month := 1
  day := 1
  month_pos := by decide
  month_le := by decide
  day_pos := by decide
  day_le := by decide

/-- What the clock reads so many seconds after the start of 1970. -/
def readingAt (seconds : ℕ) : Reading :=
  Reading.tick^[seconds] (.midnight epochDay)

/-- What the calendar shows so many days after 1 January 1970. -/
def dayAt (days : ℕ) : Day := Day.next^[days] epochDay

theorem dayAt_zero : dayAt 0 = epochDay := rfl

theorem dayAt_succ (days : ℕ) : dayAt (days + 1) = (dayAt days).next :=
  Function.iterate_succ_apply' ..

theorem readingAt_zero : readingAt 0 = .midnight epochDay := rfl

theorem readingAt_succ (seconds : ℕ) :
    readingAt (seconds + 1) = (readingAt seconds).tick :=
  Function.iterate_succ_apply' ..

/-- The reading splits into the day and the second of the day. -/
theorem readingAt_fields (seconds : ℕ) :
    (readingAt seconds).date = dayAt (seconds / 86400) ∧
      (readingAt seconds).hour = seconds % 86400 / 3600 ∧
      (readingAt seconds).minute = seconds % 86400 % 3600 / 60 ∧
      (readingAt seconds).second = seconds % 86400 % 60 := by
  induction seconds with
  | zero => exact ⟨rfl, rfl, rfl, rfl⟩
  | succ seconds ih =>
      obtain ⟨hdate, hhour, hminute, hsecond⟩ := ih
      rw [readingAt_succ, Reading.tick]
      split_ifs with hsame hsameMinute hsameHour
      · have hdays : (seconds + 1) / 86400 = seconds / 86400 := by omega
        dsimp only
        rw [hdays]
        exact ⟨hdate, by omega, by omega, by omega⟩
      · have hdays : (seconds + 1) / 86400 = seconds / 86400 := by omega
        dsimp only
        rw [hdays]
        exact ⟨hdate, by omega, by omega, by omega⟩
      · have hdays : (seconds + 1) / 86400 = seconds / 86400 := by omega
        dsimp only
        rw [hdays]
        exact ⟨hdate, by omega, by omega, by omega⟩
      · have hdays : (seconds + 1) / 86400 = seconds / 86400 + 1 := by omega
        rw [hdays, dayAt_succ, ← hdate]
        dsimp only [Reading.midnight]
        exact ⟨rfl, by omega, by omega, by omega⟩

end Kitaebot.Calendar
