import Mathlib.Algebra.Ring.Nat
import Mathlib.Data.List.Basic
import ZBasic.Rtc.Calendar

/-!
# The time since 1970

The days of the calendar and the seconds of the day are counted from the beginning of 1970 on.
-/

namespace Date

/-- The length of a year. -/
def daysInYear (year : ℕ) : ℕ := if isLeap year then 366 else 365

/-- The days of the months before this one. -/
def daysBefore (leap : Bool) (month : ℕ) : ℕ :=
  ((List.range (month - 1)).map fun k => daysIn leap (k + 1)).sum

/-- The days of the years from `first` on, before this one. -/
def daysOfYears (first year : ℕ) : ℕ :=
  ((List.range (year - first)).map fun k => daysInYear (first + k)).sum

/-- The days since the first one of 1970. -/
def daysSinceEpoch (d : Date) : ℕ :=
  daysOfYears 1970 d.year + daysBefore (isLeap d.year) d.month + (d.day - 1)

/-- The months make up the year. -/
theorem daysBefore_december (leap : Bool) :
  daysBefore leap 12 + daysIn leap 12 = if leap then 366 else 365
  := by cases leap <;> rfl

theorem daysBefore_succ (leap : Bool) {month : ℕ} (h : 1 ≤ month) :
  daysBefore leap (month + 1) = daysBefore leap month + daysIn leap month
  := by
  obtain ⟨m, rfl⟩ := Nat.exists_eq_add_of_le' h
  rw [daysBefore, daysBefore, Nat.add_sub_cancel, Nat.add_sub_cancel, List.range_succ,
    List.map_append, List.sum_append]
  simp

theorem daysOfYears_succ {first year : ℕ} (h : first ≤ year) :
  daysOfYears first (year + 1) = daysOfYears first year + daysInYear year
  := by
  rw [daysOfYears, daysOfYears, Nat.succ_sub h, List.range_succ, List.map_append, List.sum_append]
  simp [Nat.add_sub_cancel' h]

theorem daysOfYears_pred {first year : ℕ} (h : first < year) :
  daysOfYears first year = daysInYear first + daysOfYears (first + 1) year
  := by
  have hlen : year - first = year - (first + 1) + 1 := by omega
  have hshift : (fun k => daysInYear (first + (k + 1))) = fun k => daysInYear (first + 1 + k) := by
    funext k
    congr 1
    omega
  rw [daysOfYears, daysOfYears, hlen, List.range_succ_eq_map, List.map_cons, List.sum_cons,
    List.map_map, Nat.add_zero, ← hshift]
  rfl

/-- Each day is one day later than the one before. -/
theorem daysSinceEpoch_next {d : Date} (h : d.Valid) (hyear : 1970 ≤ d.year) :
  d.next.daysSinceEpoch = d.daysSinceEpoch + 1
  := by
  have hday := h.day_pos
  have hday' := h.day_le
  rw [next]
  split_ifs with hin hmonth
  · simp only [daysSinceEpoch]
    omega
  · simp only [daysSinceEpoch]
    rw [daysBefore_succ _ h.month_pos]
    omega
  · have hlast : d.month = 12 := by
      have := h.month_le
      omega
    have hsum := daysBefore_december (isLeap d.year)
    simp only [daysSinceEpoch]
    rw [hlast] at hin hday' ⊢
    rw [daysOfYears_succ hyear, daysInYear, ← hsum, show daysBefore (isLeap (d.year + 1)) 1 = 0 from rfl]
    omega

/-- The seconds since the beginning of 1970, each day having 86400. -/
def posixTime (d : Date) (t : TimeOfDay) : ℕ :=
  d.daysSinceEpoch * 86400 + (t.hour * 60 + t.minute) * 60 + t.second

/-- One second later. -/
def nextSecond (d : Date) (t : TimeOfDay) : Date × TimeOfDay :=
  (if t = TimeOfDay.last then d.next else d, t.next)

/-- The time increases by one at each second, across the ends of all minutes, days, months and
years. -/
theorem posixTime_next {d : Date} {t : TimeOfDay} (h : d.Valid) (hyear : 1970 ≤ d.year)
    (ht : t.Valid) :
  posixTime (nextSecond d t).1 (nextSecond d t).2 = posixTime d t + 1
  := by
  obtain ⟨hour, minute, second⟩ := t
  have hhour : hour < 24 := ht.hour
  have hminute : minute < 60 := ht.minute
  have hsecond : second < 60 := ht.second
  rw [nextSecond]
  by_cases hlast : (⟨hour, minute, second⟩ : TimeOfDay) = TimeOfDay.last
  · rw [if_pos hlast]
    have hnext := daysSinceEpoch_next h hyear
    rw [hlast]
    simp [posixTime, hnext, TimeOfDay.last, TimeOfDay.next]
    omega
  · rw [if_neg hlast, posixTime, posixTime, TimeOfDay.next]
    simp only [TimeOfDay.last, TimeOfDay.mk.injEq, not_and] at hlast
    split_ifs with hs hm hh <;> dsimp only at *
    · omega
    · omega
    · omega
    · have h₁ : hour = 23 := by omega
      have h₂ : minute = 59 := by omega
      have h₃ : second = 59 := by omega
      cases hlast h₁ h₂ h₃

end Date
