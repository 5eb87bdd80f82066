import Mathlib.Tactic.IntervalCases
import ZBasic.Rtc.Bcd
import ZBasic.Rtc.Epoch

/-!
# The time of day

`_gettimeofday_r` makes the number of seconds since 1970 out of the registers of the clock and of
the calendar. It counts the day that has begun as a whole one, and leaves out the seconds.
-/

namespace ZBasic

namespace Gettimeofday

/-- `struct timeval` -/
structure Timeval where
  tvSec : ℕ
  tvUsec : ℕ

/-- Two digits of a register, from bit `k` on. -/
def twoDigits (x : BitVec 32) (k : ℕ) : ℕ :=
  (x >>> k &&& 0x0f).toNat + (x >>> (k + 4) &&& 0x0f).toNat * 10

/-- `ly` -/
def ly (y : ℕ) : Bool :=
  if y &&& 3 = 0 then
    if y ≠ 0 then true
    else if y &&& 3 = 0 then true
    else false
  else false

/-- The days that are added for the months before `m`. -/
def monthDays (m : ℕ) (ly : Bool) : ℕ :=
  if m > 1 then 31 + (
    if m > 2 then 28 + (if ly then 1 else 0) + (
      if m > 3 then 31 + (
      if m > 4 then 30 + (
      if m > 5 then 31 + (
      if m > 6 then 30 + (
      if m > 7 then 31 + (
      if m > 8 then 31 + (
      if m > 9 then 30 + (
      if m > 10 then 31 + (
      if m > 11 then 30 else 0)
      else 0) else 0) else 0) else 0) else 0) else 0) else 0) else 0)
    else 0)
  else 0

/-- The loop over the years from `yy` to `stop`. -/
def addYears (stop yy daysSinceEpoch : ℕ) : ℕ :=
  if yy < stop then
    addYears stop (yy + 1) (daysSinceEpoch + if yy &&& 3 = 0 then 366 else 365)
  else daysSinceEpoch
termination_by stop - yy

/-- What `_gettimeofday_r` stores, from the registers `r_clock` and `*_rtcdate`. -/
def stored (now date : BitVec 32) : Timeval :=
  let d := twoDigits date 0
  let m := twoDigits date 8
  let y := twoDigits date 16
  let c := twoDigits date 24
  let daysSinceEpoch := addYears (c * 100 + y) 1970 (d + monthDays m (ly y))
  -- The seconds are read, but not used.
  let m := twoDigits now 8
  let h := twoDigits now 16
  let tod := (h * 60 + m) * 60
  { tvSec := daysSinceEpoch * 86400 + tod, tvUsec := 0 }

/-- `_gettimeofday_r`: the result, and what is stored at `ptimeval` unless this is null. -/
def gettimeofday (ptimeval : Option Timeval) (now date : BitVec 32) : ℤ × Option Timeval :=
  (0, ptimeval.map fun _ => stored now date)

/-! ### The registers -/

/-- The date in the register of the calendar. -/
def dateOf (x : BitVec 32) : Date :=
  ⟨Bcd.value 4 (x.toNat / 2 ^ 16), Bcd.value 2 (x.toNat / 2 ^ 8), Bcd.value 2 x.toNat⟩

/-- The time of day in the register of the clock. -/
def timeOf (x : BitVec 32) : TimeOfDay :=
  ⟨Bcd.value 2 (x.toNat / 2 ^ 16), Bcd.value 2 (x.toNat / 2 ^ 8), Bcd.value 2 x.toNat⟩

/-- The registers hold a date between 1970 and 2099 and a time of day, all in decimal digits. -/
structure Valid (now date : BitVec 32) : Prop where
  dateDigits : Bcd.Decimal 8 date.toNat
  isDate : (dateOf date).Valid
  first : 1970 ≤ (dateOf date).year
  last : (dateOf date).year ≤ 2099
  timeDigits : Bcd.Decimal 6 now.toNat
  isTime : (timeOf now).Valid

theorem twoDigits_eq (x : BitVec 32) (k : ℕ) :
  twoDigits x k = Bcd.value 2 (x.toNat / 2 ^ k)
  := by
  have hdigit : ∀ j, (x >>> j &&& 0x0f).toNat = x.toNat / 2 ^ j % 16 := by
    intro j
    rw [BitVec.toNat_and, BitVec.toNat_ushiftRight, Nat.shiftRight_eq_div_pow]
    apply Nat.and_two_pow_sub_one_eq_mod _ 4
  rw [twoDigits, hdigit, hdigit, Nat.pow_add, ← Nat.div_div_eq_div_mul]
  simp only [Bcd.value]
  omega

theorem year_eq (x : BitVec 32) :
  twoDigits x 24 * 100 + twoDigits x 16 = (dateOf x).year
  := by
  rw [twoDigits_eq, twoDigits_eq, dateOf, show 2 ^ 24 = 2 ^ 16 * 2 ^ 8 from rfl,
    ← Nat.div_div_eq_div_mul]
  simp only [Bcd.value]
  omega

theorem and_three (y : ℕ) :
  y &&& 3 = y % 4
  := Nat.and_two_pow_sub_one_eq_mod y 2

/-- Up to 2099 every fourth year is a leap year. -/
theorem isLeap_of_le {year : ℕ} (hfirst : 1970 ≤ year) (hlast : year ≤ 2099) :
  Date.isLeap year = decide (year % 4 = 0)
  := by
  rw [Date.isLeap]
  grind

theorem ly_eq {c y : ℕ} (hfirst : 1970 ≤ c * 100 + y) (hlast : c * 100 + y ≤ 2099) :
  ly y = Date.isLeap (c * 100 + y)
  := by
  rw [isLeap_of_le hfirst hlast, ly, and_three]
  have hmod : (c * 100 + y) % 4 = y % 4 := by omega
  rw [hmod]
  split_ifs with hfour <;> simp [hfour]

theorem monthDays_eq {m : ℕ} (hpos : 1 ≤ m) (hle : m ≤ 12) (leap : Bool) :
  monthDays m leap = Date.daysBefore leap m
  := by
  cases leap <;> interval_cases m <;> rfl

/-- The loop adds the lengths of the years. -/
theorem addYears_eq {stop yy days : ℕ} (hfirst : 1970 ≤ yy) (hlast : stop ≤ 2099) :
  addYears stop yy days = days + Date.daysOfYears yy stop
  := by
  induction yy, days using addYears.induct stop with
  | case1 yy days hlt ih =>
      have hlen : (if yy &&& 3 = 0 then 366 else 365) = Date.daysInYear yy := by
        rw [Date.daysInYear, isLeap_of_le hfirst (by omega), and_three]
        simp
      simp only [dite_eq_ite] at ih
      rw [addYears, if_pos hlt, ih (by omega), hlen, Date.daysOfYears_pred hlt, Nat.add_assoc]
  | case2 yy days hlt =>
      rw [addYears, if_neg hlt, Date.daysOfYears, Nat.sub_eq_zero_of_le (by omega)]
      rfl

/-- What is stored is a day late, and does not count the seconds. -/
theorem stored_eq {now date : BitVec 32} (h : Valid now date) :
  (stored now date).tvSec + (timeOf now).second
      = Date.posixTime (dateOf date) (timeOf now) + 86400
    ∧ (stored now date).tvUsec = 0
  := by
  refine ⟨?_, rfl⟩
  have hyear := year_eq date
  have hmonth : twoDigits date 8 = (dateOf date).month := twoDigits_eq date 8
  have hday : twoDigits date 0 = (dateOf date).day := by
    rw [twoDigits_eq, Nat.pow_zero, Nat.div_one, dateOf]
  have hminute : twoDigits now 8 = (timeOf now).minute := twoDigits_eq now 8
  have hhour : twoDigits now 16 = (timeOf now).hour := twoDigits_eq now 16
  have hfirst := h.first
  have hlast := h.last
  have hleap : ly (twoDigits date 16) = Date.isLeap (dateOf date).year := by
    rw [← hyear] at hfirst hlast ⊢
    apply ly_eq hfirst hlast
  have hpos := h.isDate.day_pos
  simp only [stored]
  rw [hyear, hmonth, hday, hminute, hhour, hleap, addYears_eq (Nat.le_refl _) hlast,
    monthDays_eq h.isDate.month_pos h.isDate.month_le, Date.posixTime, Date.daysSinceEpoch]
  omega

/-- The time of the POSIX standard is never stored. -/
theorem posixTime_never_stored (p : Timeval) {now date : BitVec 32} (h : Valid now date) :
  gettimeofday (some p) now date
      = (0, some ⟨Date.posixTime (dateOf date) (timeOf now) + 86400 - (timeOf now).second, 0⟩)
    ∧ gettimeofday (some p) now date
      ≠ (0, some ⟨Date.posixTime (dateOf date) (timeOf now), 0⟩)
  := by
  obtain ⟨hsec, husec⟩ := stored_eq h
  have hsecond := h.isTime.second
  have hstored : stored now date
      = ⟨Date.posixTime (dateOf date) (timeOf now) + 86400 - (timeOf now).second, 0⟩ := by
    rw [← hsec, Nat.add_sub_cancel, ← husec]
  constructor
  · rw [gettimeofday, Option.map_some, hstored]
  · intro heq
    rw [gettimeofday, Option.map_some, hstored] at heq
    simp only [Prod.mk.injEq, Option.some.injEq, Timeval.mk.injEq] at heq
    omega

/-- The first second of 1970. -/
theorem posixTime_never_stored_epoch :
  gettimeofday (some ⟨0, 0⟩) 0 0x19700101
      = (0, some ⟨Date.posixTime (dateOf 0x19700101) (timeOf 0) + 86400 - (timeOf 0).second, 0⟩)
    ∧ gettimeofday (some ⟨0, 0⟩) 0 0x19700101
      ≠ (0, some ⟨Date.posixTime (dateOf 0x19700101) (timeOf 0), 0⟩)
  := by
  apply posixTime_never_stored
  constructor
  case isDate => constructor <;> decide
  case isTime => constructor <;> decide
  all_goals decide

/-- At the beginning of 1970 a whole day is stored instead of nothing. -/
theorem epoch_stored_late :
  ¬ ∀ now date : BitVec 32, Valid now date →
    gettimeofday (some ⟨0, 0⟩) now date
      = (0, some ⟨Date.posixTime (dateOf date) (timeOf now), 0⟩)
  := by
  intro hall
  have hvalid : Valid 0 0x19700101 := by
    constructor
    case isDate => constructor <;> decide
    case isTime => constructor <;> decide
    all_goals decide
  have hstored := hall 0 0x19700101 hvalid
  obtain ⟨hsec, -⟩ := stored_eq hvalid
  simp only [gettimeofday, Option.map_some, Prod.mk.injEq, Option.some.injEq] at hstored
  rw [hstored.2] at hsec
  have hzero : (timeOf 0).second = 0 := rfl
  rw [hzero] at hsec
  cases Nat.left_eq_add.mp hsec

end Gettimeofday

end ZBasic
