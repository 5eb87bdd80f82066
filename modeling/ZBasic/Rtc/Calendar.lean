import Mathlib.Data.Nat.Basic
import Mathlib.Tactic.Use

/-!
# Dates and times of day

The Gregorian calendar, and the clock of 24 hours.
-/

/-- A day of the calendar. -/
structure Date where
  year : ℕ
  month : ℕ
  day : ℕ
deriving DecidableEq, Repr

namespace Date

/-- Every fourth year is a leap year, except for those of the centuries that are not a fourth
one. -/
def isLeap (year : ℕ) : Bool := year % 4 == 0 && (year % 100 != 0 || year % 400 == 0)

/-- The length of a month. -/
def daysIn (leap : Bool) (month : ℕ) : ℕ :=
  match month with
  | 2 => if leap then 29 else 28
  | 4 | 6 | 9 | 11 => 30
  | _ => 31

/-- The date is a day of its month. -/
structure Valid (d : Date) : Prop where
  month_pos : 1 ≤ d.month
  month_le : d.month ≤ 12
  day_pos : 1 ≤ d.day
  day_le : d.day ≤ daysIn (isLeap d.year) d.month

/-- The next day. -/
def next (d : Date) : Date :=
  if d.day < daysIn (isLeap d.year) d.month then { d with day := d.day + 1 }
  else if d.month < 12 then ⟨d.year, d.month + 1, 1⟩
  else ⟨d.year + 1, 1, 1⟩

/-- One day comes before the other. -/
def Before (d e : Date) : Prop :=
  d.year < e.year ∨ d.year = e.year ∧ (d.month < e.month ∨ d.month = e.month ∧ d.day < e.day)

theorem daysIn_pos (leap : Bool) (month : ℕ) :
  1 ≤ daysIn leap month
  := by
  unfold daysIn
  split
  · cases leap <;> decide
  all_goals decide

end Date

/-- A time of day. -/
structure TimeOfDay where
  hour : ℕ
  minute : ℕ
  second : ℕ
deriving DecidableEq, Repr

namespace TimeOfDay

/-- The time is one of a day. -/
structure Valid (t : TimeOfDay) : Prop where
  hour : t.hour < 24
  minute : t.minute < 60
  second : t.second < 60

/-- One second later. -/
def next (t : TimeOfDay) : TimeOfDay :=
  if t.second < 59 then { t with second := t.second + 1 }
  else if t.minute < 59 then ⟨t.hour, t.minute + 1, 0⟩
  else if t.hour < 23 then ⟨t.hour + 1, 0, 0⟩
  else ⟨0, 0, 0⟩

/-- The last second of a day. -/
def last : TimeOfDay := ⟨23, 59, 59⟩

end TimeOfDay
