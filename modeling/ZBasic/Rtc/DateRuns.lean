import ZBasic.Rtc.Rtcdate

/-!
# The date register follows the calendar

A write starts ten clocks in which the digits of the year, then the day and at last the month
are made valid. From then on the date stays valid, and what the next date is has settled
whenever a day ends, so that the date moves on to the next day.
-/

namespace ZBasic

open Clocked

namespace Rtcdate

/-- The year is a leap year. -/
def leapOf (y : BitVec 14) : Bool := leap (divByFour y) (century y) (fourCentury y)

/-- The length of the month that the registers hold. -/
def lenOf (s : Rtcdate) : BitVec 6 := monthLength s.rMon (leapOf s.rYear)

theorem lenOf_mem (s : Rtcdate) :
  s.lenOf ∈ lengths
  := by apply monthLength_mem

/-- The registers hold the last day of a month. -/
def lastOf (s : Rtcdate) : Bool := s.lenOf ≤ s.rDay

/-- The registers hold the last day of a year. -/
def lastOfYear (s : Rtcdate) : Bool := s.lastOf && s.rMon = 0x12

/-- The carries out of the lowest three digits of the year. -/
def carry₀ (y : BitVec 14) : Bool := 9 ≤ ones y

def carry₁ (y : BitVec 14) : Bool := carries (tens y) (carry₀ y)

def carry₂ (y : BitVec 14) : Bool := carries (hundreds y) (carry₁ y)

/-- The registers that follow the year, `k` clocks after it has changed. -/
structure YearSettled (k : ℕ) (s : Rtcdate) : Prop where
  yearDivisibleByFour : 1 ≤ k → s.yearDivisibleByFour = divByFour s.rYear
  centuryYear : 1 ≤ k → s.centuryYear = century s.rYear
  fourCenturyYear : 1 ≤ k → s.fourCenturyYear = fourCentury s.rYear
  isLeapYear : 2 ≤ k → s.isLeapYear = leapOf s.rYear
  nextYearC0 : 1 ≤ k → s.nextYearC0 = carry₀ s.rYear
  nextYearC1 : 2 ≤ k → s.nextYearC1 = carry₁ s.rYear
  nextYearC2 : 3 ≤ k → s.nextYearC2 = carry₂ s.rYear
  nextYear : 4 ≤ k →
    s.nextYear = yearAfter (carry₀ s.rYear) (carry₁ s.rYear) (carry₂ s.rYear) s.rYear

/-- The registers that follow the day and the length of the month, `k` clocks after one of
them has changed. -/
structure DaySettled (k : ℕ) (s : Rtcdate) : Prop where
  fixdDay : 1 ≤ k → s.fixdDay = dayFixed s.rDay s.lenOf
  lastDayOfMonth : 1 ≤ k → s.lastDayOfMonth = s.lastOf
  nextDay : 2 ≤ k → s.nextDay = dayAfter s.lastOf s.rDay
  lastDayOfYear : 2 ≤ k → s.lastDayOfYear = s.lastOfYear
  nextMon : 3 ≤ k → s.nextMon = monAfter s.lastOf s.lastOfYear s.rMon

theorem yearSettled_zero (s : Rtcdate) :
  YearSettled 0 s
  := by constructor <;> intro h <;> omega

theorem daySettled_zero (s : Rtcdate) :
  DaySettled 0 s
  := by constructor <;> intro h <;> omega

theorem YearSettled.mono {j k : ℕ} {s : Rtcdate} (h : YearSettled k s) (hj : j ≤ k) :
  YearSettled j s
  := by
  constructor <;> intro hk
  · apply h.yearDivisibleByFour (by omega)
  · apply h.centuryYear (by omega)
  · apply h.fourCenturyYear (by omega)
  · apply h.isLeapYear (by omega)
  · apply h.nextYearC0 (by omega)
  · apply h.nextYearC1 (by omega)
  · apply h.nextYearC2 (by omega)
  · apply h.nextYear (by omega)

theorem DaySettled.mono {j k : ℕ} {s : Rtcdate} (h : DaySettled k s) (hj : j ≤ k) :
  DaySettled j s
  := by
  constructor <;> intro hk
  · apply h.fixdDay (by omega)
  · apply h.lastDayOfMonth (by omega)
  · apply h.nextDay (by omega)
  · apply h.lastDayOfYear (by omega)
  · apply h.nextMon (by omega)

section Step

variable {s : Rtcdate} {i : Input} {k : ℕ}

/-- While the year stays as it is the registers settle. -/
theorem YearSettled.step (h : YearSettled k s) (hwrite : i.write = false)
    (hyear : (s.step i).rYear = s.rYear) :
  YearSettled (k + 1) (s.step i)
  := by
  have hwriteYear : i.writeYear = false := by simp [Input.writeYear, hwrite]
  constructor <;> intro hk <;> rw [hyear]
  · rfl
  · rfl
  · rfl
  · rw [leapOf, ← h.yearDivisibleByFour (by omega), ← h.centuryYear (by omega),
      ← h.fourCenturyYear (by omega)]
    rfl
  · simp [Rtcdate.step, hwriteYear, carry₀]
  · simp [Rtcdate.step, hwriteYear, carry₁, h.nextYearC0 (by omega)]
  · simp [Rtcdate.step, hwriteYear, carry₂, h.nextYearC1 (by omega)]
  · rw [← h.nextYearC0 (by omega), ← h.nextYearC1 (by omega), ← h.nextYearC2 (by omega)]
    rfl

/-- The length of the month is known once the year has settled. -/
theorem YearSettled.daysPerMonth_step (h : YearSettled k s) (hk : 2 ≤ k)
    (hlen : (s.step i).lenOf = s.lenOf) :
  (s.step i).daysPerMonth = (s.step i).lenOf
  := by
  rw [hlen, lenOf, ← h.isLeapYear hk]
  rfl

/-- While the day stays as it is, and the length of the month is known, the registers
settle. The month may change, if that makes no difference to its length and to the end of the
year. -/
theorem DaySettled.step (h : DaySettled k s) (hdays : s.daysPerMonth = s.lenOf)
    (hday : (s.step i).rDay = s.rDay) (hlen : (s.step i).lenOf = s.lenOf)
    (hlastYear : (s.step i).lastOfYear = s.lastOfYear)
    (hmon : 2 ≤ k → (s.step i).rMon = s.rMon) :
  DaySettled (k + 1) (s.step i)
  := by
  have hlast : (s.step i).lastOf = s.lastOf := by rw [lastOf, lastOf, hlen, hday]
  constructor <;> intro hk
  · rw [hlen, hday, ← hdays]
    rfl
  · rw [hlast, lastOf, ← hdays]
    rfl
  · rw [hlast, hday, ← h.lastDayOfMonth (by omega)]
    rfl
  · rw [hlastYear, lastOfYear, ← h.lastDayOfMonth (by omega)]
    rfl
  · rw [hlastYear, hlast, hmon (by omega), ← h.lastDayOfMonth (by omega),
      ← h.lastDayOfYear (by omega)]
    rfl

end Step

/-! ### The clocks after a write -/

/-- The registers `k` clocks after a write. -/
structure Fixing (k : ℕ) (s : Rtcdate) : Prop where
  rBlockUpdates : s.rBlockUpdates = BitVec.allOnes 10 <<< k
  decimal : 1 ≤ k → Bcd.Decimal 4 s.rYear.toNat
  year : YearSettled (k - 1) s
  fixdMon : 1 ≤ k → s.fixdMon = monFixed s.rMon
  daysPerMonth : 4 ≤ k → s.daysPerMonth = s.lenOf
  settled : DaySettled (if k ≤ 5 then k - 4 else min (k - 6) 2) s
  day : 6 ≤ k → Day s.lenOf s.rDay
  month : 9 ≤ k → Month s.rMon

/-- The registers hold a date, which has not changed for `k` clocks. -/
structure Running (k : ℕ) (s : Rtcdate) : Prop where
  rBlockUpdates : s.rBlockUpdates = 0
  decimal : Bcd.Decimal 4 s.rYear.toNat
  month : Month s.rMon
  day : Day s.lenOf s.rDay
  year : YearSettled k s
  daysPerMonth : 3 ≤ k → s.daysPerMonth = s.lenOf
  settled : DaySettled (k - 3) s

section Step

variable {s : Rtcdate} {i : Input} {k : ℕ}

theorem fixing_write (hwrite : i.write = true) :
  Fixing 0 (s.step i)
  := by
  constructor
  · simp [Rtcdate.step, hwrite]
  · intro h
    omega
  · apply yearSettled_zero
  · intro h
    omega
  · intro h
    omega
  · apply daySettled_zero
  · intro h
    omega
  · intro h
    omega

/-- The clocks of a write at which the day and the month are made valid. -/
theorem block_fields :
  ∀ k ≤ 9, ((BitVec.allOnes 10 <<< k).extractLsb' 4 2 = 2#2 ↔ k = 5)
    ∧ ((BitVec.allOnes 10 <<< k).extractLsb' 7 2 = 2#2 ↔ k = 8)
    ∧ (BitVec.allOnes 10 <<< k).getLsbD 9 = true
    ∧ (BitVec.allOnes 10 <<< k).extractLsb' 0 9 ++ 0#1 = BitVec.allOnes 10 <<< (k + 1)
  := by decide

/-- One clock of making the date valid. -/
theorem Fixing.step_fields (h : Fixing k s) (hk : k ≤ 9) (hwrite : i.write = false) :
  (s.step i).rBlockUpdates = BitVec.allOnes 10 <<< (k + 1)
    ∧ (s.step i).rYear = yearFixed s.rYear
    ∧ (s.step i).rMon = (if k = 8 then s.fixdMon else s.rMon)
    ∧ (s.step i).rDay = (if k = 5 then s.fixdDay else s.rDay)
  := by
  obtain ⟨hday, hmon, hblock, hshift⟩ := block_fields k hk
  rw [← h.rBlockUpdates] at hday hmon hblock hshift
  have hupdate : s.update i = false := by rw [update, hblock, Bool.not_true, Bool.and_false]
  have hwrites : i.writeDay = false ∧ i.writeMon = false ∧ i.writeYear = false := by
    simp [Input.writeDay, Input.writeMon, Input.writeYear, hwrite]
  obtain ⟨hwriteDay, hwriteMon, hwriteYear⟩ := hwrites
  refine ⟨?_, ?_, ?_, ?_⟩
  · rw [← hshift]
    simp [Rtcdate.step, hwrite]
  · simp [Rtcdate.step, hwriteYear, hupdate]
  · simp [Rtcdate.step, hwriteMon, hupdate, hmon]
  · simp [Rtcdate.step, hwriteDay, hupdate, hday]

/-- From the first clock after a write on the year stays as it is, and so does the length of
the month, and whether the year ends. -/
theorem Fixing.lenOf_step (h : Fixing k s) (hk : k ≤ 9) (hpos : 1 ≤ k) (hwrite : i.write = false) :
  (s.step i).rYear = s.rYear ∧ (s.step i).lenOf = s.lenOf
    ∧ (k ≠ 5 → (s.step i).lastOfYear = s.lastOfYear)
  := by
  obtain ⟨-, hyear, hmon, hday⟩ := h.step_fields hk hwrite
  rw [yearFixed_of_decimal (h.decimal hpos)] at hyear
  have hlen : (s.step i).lenOf = s.lenOf := by
    rw [lenOf, lenOf, hyear, hmon]
    split_ifs
    · rw [h.fixdMon hpos, monthLength_fixed]
    · rfl
  refine ⟨hyear, hlen, ?_⟩
  intro hne
  rw [if_neg hne] at hday
  rw [lastOfYear, lastOfYear, lastOf, lastOf, hlen, hday, hmon]
  split_ifs
  · rw [h.fixdMon hpos]
    congr 1
    rw [decide_eq_decide]
    apply monFixed_eq_december
  · rfl

theorem Fixing.year_step (h : Fixing k s) (hk : k ≤ 9) (hwrite : i.write = false) :
  Bcd.Decimal 4 (s.step i).rYear.toNat ∧ YearSettled k (s.step i)
  := by
  obtain ⟨-, hyear, -, -⟩ := h.step_fields hk hwrite
  use by rw [hyear]; apply decimal_yearFixed
  rcases Nat.eq_zero_or_pos k with rfl | hpos
  · apply yearSettled_zero
  · have := h.year.step hwrite (h.lenOf_step hk hpos hwrite).1
    rwa [Nat.sub_add_cancel hpos] at this

theorem Fixing.daysPerMonth_step (h : Fixing k s) (hk : k ≤ 9) (hpos : 3 ≤ k)
    (hwrite : i.write = false) :
  (s.step i).daysPerMonth = (s.step i).lenOf
  := by
  apply h.year.daysPerMonth_step (by omega)
  apply (h.lenOf_step hk (by omega) hwrite).2.1

theorem Fixing.day_step (h : Fixing k s) (hk : k ≤ 9) (hpos : 5 ≤ k) (hwrite : i.write = false) :
  Day (s.step i).lenOf (s.step i).rDay
  := by
  rw [(h.lenOf_step hk (by omega) hwrite).2.1, (h.step_fields hk hwrite).2.2.2]
  split_ifs with hfive
  · have hsettled := h.settled
    rw [if_pos (by omega)] at hsettled
    rw [hsettled.fixdDay (by omega)]
    apply day_fixed _ s.lenOf_mem
  · apply h.day (by omega)

theorem Fixing.month_step (h : Fixing k s) (hk : k ≤ 9) (hpos : 8 ≤ k)
    (hwrite : i.write = false) :
  Month (s.step i).rMon
  := by
  rw [(h.step_fields hk hwrite).2.2.1]
  split_ifs with height
  · rw [h.fixdMon (by omega)]
    apply month_fixed
  · apply h.month (by omega)

theorem Fixing.settled_step (h : Fixing k s) (hk : k ≤ 9) (hfour : 4 ≤ k) (hne : k ≠ 5)
    (hwrite : i.write = false) {d : ℕ} (hd : d ≤ if k ≤ 5 then k - 4 else min (k - 6) 2)
    (hmon : k = 8 → d ≤ 1) :
  DaySettled (d + 1) (s.step i)
  := by
  obtain ⟨-, -, hmon', hday⟩ := h.step_fields hk hwrite
  obtain ⟨-, hlen, hlastYear⟩ := h.lenOf_step hk (by omega) hwrite
  rw [if_neg hne] at hday
  apply (h.settled.mono hd).step (h.daysPerMonth hfour) hday hlen (hlastYear hne)
  intro hd'
  rw [hmon', if_neg]
  intro height
  have := hmon height
  omega

/-- One of the clocks after a write. -/
theorem Fixing.step (h : Fixing k s) (hk : k ≤ 8) (hwrite : i.write = false) :
  Fixing (k + 1) (s.step i)
  := by
  obtain ⟨hblock, -, hmon, -⟩ := h.step_fields (by omega) hwrite
  obtain ⟨hdecimal, hyear⟩ := h.year_step (by omega) hwrite
  constructor
  · apply hblock
  · intro _
    apply hdecimal
  · apply hyear
  · intro _
    rw [hmon]
    split_ifs with height
    · rw [h.fixdMon (by omega), monFixed_of_month _ (month_fixed _)]
      rfl
    · rfl
  · intro hk'
    apply h.daysPerMonth_step (by omega) (by omega) hwrite
  · by_cases hstays : k ≤ 3 ∨ k = 5
    · have hzero : (if k + 1 ≤ 5 then k + 1 - 4 else min (k + 1 - 6) 2) = 0 := by
        split_ifs <;> omega
      rw [hzero]
      apply daySettled_zero
    · rw [not_or] at hstays
      have hlevel : (if k + 1 ≤ 5 then k + 1 - 4 else min (k + 1 - 6) 2)
          = (if k + 1 ≤ 5 then k - 4 else min (k - 6) 1) + 1 := by
        split_ifs <;> omega
      rw [hlevel]
      apply h.settled_step (by omega) (by omega) hstays.2 hwrite
      · split_ifs <;> omega
      · rintro rfl
        decide
  · intro hk'
    apply h.day_step (by omega) (by omega) hwrite
  · intro hk'
    apply h.month_step (by omega) (by omega) hwrite

/-- The last of the clocks after a write. -/
theorem Fixing.step_last (h : Fixing 9 s) (hwrite : i.write = false) :
  Running 6 (s.step i)
  := by
  obtain ⟨hblock, -⟩ := h.step_fields (by omega) hwrite
  obtain ⟨hdecimal, hyear⟩ := h.year_step (by omega) hwrite
  constructor
  · rw [hblock]
    rfl
  · apply hdecimal
  · apply h.month_step (by omega) (by omega) hwrite
  · apply h.day_step (by omega) (by omega) hwrite
  · apply hyear.mono (by decide)
  · intro _
    apply h.daysPerMonth_step (by omega) (by omega) hwrite
  · apply h.settled_step (by omega) (by omega) (by decide) hwrite (by decide)
    intro hnine
    cases hnine

end Step

/-! ### The date -/

/-- The date that the registers hold. -/
def date (s : Rtcdate) : Date := ⟨yearOf s.rYear, monOf s.rMon, dayOf s.rDay⟩

/-- The registers hold a day of the calendar, in decimal. -/
structure Valid (s : Rtcdate) : Prop where
  year : Bcd.Decimal 4 s.rYear.toNat
  mon : Bcd.Decimal 2 s.rMon.toNat
  day : Bcd.Decimal 2 s.rDay.toNat
  date : s.date.Valid

section Step

variable {s : Rtcdate} {i : Input} {k : ℕ}

/-- The length of the month is the one of the calendar. -/
theorem dayOf_lenOf (hdecimal : Bcd.Decimal 4 s.rYear.toNat) (hmonth : Month s.rMon) :
  dayOf s.lenOf = Date.daysIn (Date.isLeap s.date.year) s.date.month
  := by
  rw [lenOf, dayOf_monthLength _ hmonth, leapOf, leap_eq hdecimal]
  rfl

theorem valid_of_day (hdecimal : Bcd.Decimal 4 s.rYear.toNat) (hmonth : Month s.rMon)
    (hday : Day s.lenOf s.rDay) :
  s.Valid
  := by
  have hle := hday.le
  rw [dayOf_lenOf hdecimal hmonth] at hle
  exact ⟨hdecimal, hmonth.decimal, hday.decimal, hmonth.pos, hmonth.le, hday.pos, hle⟩

/-- A clock at which no day ends. -/
theorem Running.step (h : Running k s) (hwrite : i.write = false) (hppd : i.iPpd = false) :
  Running (k + 1) (s.step i)
  := by
  have hupdate : s.update i = false := by rw [update, hppd, Bool.false_and]
  have hwrites : i.writeDay = false ∧ i.writeMon = false ∧ i.writeYear = false := by
    simp [Input.writeDay, Input.writeMon, Input.writeYear, hwrite]
  obtain ⟨hwriteDay, hwriteMon, hwriteYear⟩ := hwrites
  have hyear : (s.step i).rYear = s.rYear := by
    simp [Rtcdate.step, hwriteYear, hupdate, yearFixed_of_decimal h.decimal]
  have hmon : (s.step i).rMon = s.rMon := by
    simp [Rtcdate.step, hwriteMon, hupdate, h.rBlockUpdates]
  have hday : (s.step i).rDay = s.rDay := by
    simp [Rtcdate.step, hwriteDay, hupdate, h.rBlockUpdates]
  have hlen : (s.step i).lenOf = s.lenOf := by rw [lenOf, lenOf, hyear, hmon]
  constructor
  · simp [Rtcdate.step, hwrite, h.rBlockUpdates]
  · rw [hyear]
    apply h.decimal
  · rw [hmon]
    apply h.month
  · rw [hlen, hday]
    apply h.day
  · apply h.year.step hwrite hyear
  · intro hk
    apply h.year.daysPerMonth_step (by omega) hlen
  · rcases Nat.lt_or_ge k 3 with hk | hk
    · rw [Nat.sub_eq_zero_of_le hk]
      apply daySettled_zero
    · rw [Nat.sub_add_comm hk]
      apply h.settled.step (h.daysPerMonth hk) hday hlen _ (fun _ => hmon)
      rw [lastOfYear, lastOfYear, lastOf, lastOf, hlen, hday, hmon]

/-- What the registers are at the end of a day. -/
theorem Running.step_fields (h : Running k s) (hk : 6 ≤ k) (hwrite : i.write = false)
    (hppd : i.iPpd = true) :
  (s.step i).rBlockUpdates = 0
    ∧ (s.step i).rYear = (if s.lastOfYear then yearAfter (carry₀ s.rYear) (carry₁ s.rYear)
        (carry₂ s.rYear) s.rYear else s.rYear)
    ∧ (s.step i).rMon = monAfter s.lastOf s.lastOfYear s.rMon
    ∧ (s.step i).rDay = dayAfter s.lastOf s.rDay
  := by
  have hupdate : s.update i = true := by
    rw [update, hppd, h.rBlockUpdates]
    rfl
  have hwrites : i.writeDay = false ∧ i.writeMon = false ∧ i.writeYear = false := by
    simp [Input.writeDay, Input.writeMon, Input.writeYear, hwrite]
  obtain ⟨hwriteDay, hwriteMon, hwriteYear⟩ := hwrites
  refine ⟨?_, ?_, ?_, ?_⟩
  · simp [Rtcdate.step, hwrite, h.rBlockUpdates]
  · simp [Rtcdate.step, hwriteYear, hupdate, yearFixed_of_decimal h.decimal,
      h.settled.lastDayOfYear (by omega), h.year.nextYear (by omega)]
  · simp [Rtcdate.step, hwriteMon, hupdate, h.settled.nextMon (by omega)]
  · simp [Rtcdate.step, hwriteDay, hupdate, h.settled.nextDay (by omega)]

theorem lastOf_eq (hday : Day s.lenOf s.rDay) :
  s.lastOf = !decide (dayOf s.rDay < dayOf s.lenOf)
  := by
  have := last_iff s.lenOf s.lenOf_mem s.rDay hday
  rw [lastOf, ← decide_not, decide_eq_decide, this]

/-- The date in the registers at the end of a day. -/
theorem Running.date_step (h : Running k s) (hk : 6 ≤ k) (hwrite : i.write = false)
    (hppd : i.iPpd = true) (hbefore : s.date.Before ⟨3999, 12, 31⟩) :
  (s.step i).date = s.date.next
  := by
  obtain ⟨-, hyear, hmon, hday⟩ := h.step_fields hk hwrite hppd
  obtain ⟨-, hday'⟩ := dayAfter_eq s.lenOf s.lenOf_mem s.rDay h.day
  obtain ⟨-, hmon'⟩ := monAfter_eq s.rMon h.month s.lastOf
  have hlast := lastOf_eq h.day
  have hlen := dayOf_lenOf h.decimal h.month
  change (s.step i).rDay = dayAfter (decide (s.lenOf ≤ s.rDay)) s.rDay at hday
  change (s.step i).rMon = monAfter s.lastOf (s.lastOf && decide (s.rMon = 0x12)) s.rMon at hmon
  rw [← hday, hlen] at hday'
  rw [← hmon] at hmon'
  rw [hlen] at hlast
  rw [lastOfYear] at hyear
  rw [Date.next]
  split_ifs with hlt hmonth
  · change dayOf s.rDay < _ at hlt
    rw [hlast, decide_eq_true hlt, Bool.not_true] at hyear hmon'
    rw [if_pos hlt] at hday'
    rw [date, hyear, hmon', hday']
    rfl
  · change ¬ dayOf s.rDay < _ at hlt
    change monOf s.rMon < 12 at hmonth
    have hdec : ¬ s.rMon = 0x12 := by
      rw [december_iff _ h.month, not_not]
      apply hmonth
    rw [hlast, decide_eq_false hlt, Bool.not_false] at hyear hmon'
    rw [decide_eq_false hdec, Bool.and_false, if_neg (by decide)] at hyear
    rw [if_pos rfl, if_pos hmonth] at hmon'
    rw [if_neg hlt] at hday'
    rw [date, hyear, hmon', hday']
    rfl
  · change ¬ dayOf s.rDay < _ at hlt
    change ¬ monOf s.rMon < 12 at hmonth
    have hdec : s.rMon = 0x12 := (december_iff _ h.month).mpr hmonth
    have hyear' : yearOf s.rYear < 3999 := by
      have htwelve : monOf s.rMon = 12 := Nat.le_antisymm h.month.le (by omega)
      have hlen' : Date.daysIn (Date.isLeap s.date.year) s.date.month = 31 := by
        change Date.daysIn _ (monOf s.rMon) = 31
        rw [htwelve]
        rfl
      rw [hlen'] at hlt
      rcases hbefore with hlt' | ⟨-, hlt' | ⟨-, hlt'⟩⟩
      · apply hlt'
      · change monOf s.rMon < 12 at hlt'
        omega
      · change dayOf s.rDay < 31 at hlt'
        omega
    rw [hlast, decide_eq_false hlt, Bool.not_false] at hyear hmon'
    rw [decide_eq_true hdec, Bool.and_true, if_pos rfl] at hyear
    rw [if_pos rfl, if_neg hmonth] at hmon'
    rw [if_neg hlt] at hday'
    have hnext : yearOf (yearAfter (carry₀ s.rYear) (carry₁ s.rYear) (carry₂ s.rYear) s.rYear)
        = yearOf s.rYear + 1 := (yearAfter_eq h.decimal rfl rfl rfl).2 hyear'
    rw [date, hyear, hmon', hday', hnext]
    rfl

/-- The end of a day, at which the date stays valid and changes. -/
theorem Running.step_ppd (h : Running k s) (hk : 6 ≤ k) (hwrite : i.write = false)
    (hppd : i.iPpd = true) :
  Running 0 (s.step i)
  := by
  obtain ⟨hblock, hyear, hmon, hday⟩ := h.step_fields hk hwrite hppd
  obtain ⟨hdecimal, hday'⟩ := dayAfter_eq s.lenOf s.lenOf_mem s.rDay h.day
  obtain ⟨hmonth, -⟩ := monAfter_eq s.rMon h.month s.lastOf
  change Month (monAfter s.lastOf s.lastOfYear s.rMon) at hmonth
  change dayOf (dayAfter s.lastOf s.rDay) = _ at hday'
  rw [← hmon] at hmonth
  have hyear' : Bcd.Decimal 4 (s.step i).rYear.toNat := by
    rw [hyear]
    split_ifs
    · apply (yearAfter_eq h.decimal rfl rfl rfl).1
    · apply h.decimal
  have hlen := dayOf_lenOf hyear' hmonth
  have hpos := Date.daysIn_pos (Date.isLeap (s.step i).date.year) (s.step i).date.month
  have hlast := lastOf_eq h.day
  constructor
  · apply hblock
  · apply hyear'
  · apply hmonth
  · rw [← hlen] at hpos
    rw [hday]
    constructor
    · apply hdecimal
    · rw [hday']
      split_ifs
      · omega
      · apply Nat.le_refl
    · rw [hday']
      split_ifs with hlt
      · have hnot : s.lastOf = false := by rw [hlast, decide_eq_true hlt, Bool.not_true]
        have hlen' : (s.step i).lenOf = s.lenOf := by
          rw [lenOf, lenOf, hyear, hmon, lastOfYear, hnot]
          rfl
        rw [hlen']
        apply hlt
      · apply hpos
  · apply yearSettled_zero
  · intro hk'
    cases hk'
  · apply daySettled_zero

end Step

/-! ### Runs -/

/-- Day pulses are at least ten clocks apart, and come more than ten clocks after a write, and
after the first ten clocks. -/
structure Spaced (inp : ℕ → Input) : Prop where
  ppd : ∀ m n, m < n → (inp m).iPpd = true → (inp n).iPpd = true → m + 10 ≤ n
  write : ∀ m n, m < n → (inp m).write = true → (inp n).iPpd = true → m + 10 < n
  powerUp : ∀ n, (inp n).iPpd = true → 10 ≤ n

section Runs

variable {initialDate : BitVec 30} {s₀ : Rtcdate} {inp : ℕ → Input}

/-- The date is being made valid after a write, or after power up. -/
def Mending (s₀ : Rtcdate) (inp : ℕ → Input) (n : ℕ) : Prop :=
  ∃ k ≤ 9, Fixing k (run step s₀ inp n)
    ∧ (n = k ∨ ∃ m, (inp m).write = true ∧ n = m + 1 + k)

/-- The date is valid, and has settled if its last change was not the end of a day. -/
def Kept (s₀ : Rtcdate) (inp : ℕ → Input) (n : ℕ) : Prop :=
  ∃ k, Running k (run step s₀ inp n)
    ∧ (6 ≤ k ∨ ∃ m, (inp m).iPpd = true ∧ n = m + 1 + k)

theorem fixing_initial (hs₀ : s₀.Initial initialDate) :
  Fixing 0 s₀
  := by
  constructor
  · rw [hs₀.rBlockUpdates]
    rfl
  · intro h
    omega
  · apply yearSettled_zero
  · intro h
    omega
  · intro h
    omega
  · apply daySettled_zero
  · intro h
    omega
  · intro h
    omega

theorem mending_or_kept (hs₀ : s₀.Initial initialDate) (hspaced : Spaced inp) (n : ℕ) :
  Mending s₀ inp n ∨ Kept s₀ inp n
  := by
  induction n with
  | zero =>
      left
      use 0, Nat.zero_le 9, fixing_initial hs₀
      left
      rfl
  | succ n ih =>
      cases hwrite : (inp n).write with
      | true =>
          left
          use 0, Nat.zero_le 9, fixing_write hwrite
          right
          use n, hwrite
      | false =>
          rcases ih with ⟨k, hk, hfixing, hsince⟩ | ⟨k, hrunning, hsince⟩
          · rcases Nat.lt_or_ge k 9 with hlt | hge
            · left
              use k + 1, hlt, hfixing.step (by omega) hwrite
              rcases hsince with rfl | ⟨m, hm, rfl⟩
              · left
                rfl
              · right
                use m, hm
                omega
            · right
              obtain rfl : k = 9 := Nat.le_antisymm hk hge
              use 6, hfixing.step_last hwrite
              left
              apply Nat.le_refl
          · right
            cases hppd : (inp n).iPpd with
            | true =>
                have hsix : 6 ≤ k := by
                  rcases hsince with hsix | ⟨m, hm, hn⟩
                  · apply hsix
                  · have := hspaced.ppd m n (by omega) hm hppd
                    omega
                use 0, hrunning.step_ppd hsix hwrite hppd
                right
                use n, hppd
            | false =>
                use k + 1, hrunning.step hwrite hppd
                rcases hsince with hsix | ⟨m, hm, hn⟩
                · left
                  omega
                · right
                  use m, hm
                  omega

/-- Ten clocks after the last write the registers hold a date of the calendar, and so they do
after the first ten clocks. A day pulse makes it the next date. -/
theorem date_kept (hs₀ : s₀.Initial initialDate) (hspaced : Spaced inp) (n : ℕ) :
  (10 ≤ n → (∀ m < n, (inp m).write = true → m + 10 ≤ n) → (run step s₀ inp n).Valid)
    ∧ ((inp n).iPpd = true → (run step s₀ inp n).Valid
      ∧ ((inp n).write = false → (run step s₀ inp (n + 1)).Valid
        ∧ ((run step s₀ inp n).date.Before ⟨3999, 12, 31⟩ →
          (run step s₀ inp (n + 1)).date = (run step s₀ inp n).date.next)))
  := by
  rcases mending_or_kept hs₀ hspaced n with ⟨k, hk, hfixing, hsince⟩ | ⟨k, hrunning, hsince⟩
  · constructor
    · intro hn hquiet
      have hnine : k = 9 := by
        rcases hsince with rfl | ⟨m, hm, rfl⟩
        · omega
        · have := hquiet m (by omega) hm
          omega
      apply valid_of_day (hfixing.decimal (by omega)) (hfixing.month (by omega))
        (hfixing.day (by omega))
    · intro hppd
      rcases hsince with rfl | ⟨m, hm, rfl⟩
      · have := hspaced.powerUp n hppd
        omega
      · have := hspaced.write m _ (by omega) hm hppd
        omega
  · have hvalid := valid_of_day hrunning.decimal hrunning.month hrunning.day
    use fun _ _ => hvalid
    intro hppd
    have hsix : 6 ≤ k := by
      rcases hsince with hsix | ⟨m, hm, rfl⟩
      · apply hsix
      · have := hspaced.ppd m _ (by omega) hm hppd
        omega
    use hvalid
    intro hwrite
    have hnext := hrunning.step_ppd hsix hwrite hppd
    use valid_of_day hnext.decimal hnext.month hnext.day
    apply hrunning.date_step hsix hwrite hppd

end Runs

/-- The registers at power up, on the first of January 2000. -/
def powerUp : Rtcdate where
  rBlockUpdates := 0x3ff
  rDay := 0x01
  rMon := 0x01
  rYear := 0x2000
  lastDayOfMonth := false
  lastDayOfYear := false
  isLeapYear := false
  daysPerMonth := 0x31
  yearDivisibleByFour := false
  centuryYear := false
  fourCenturyYear := false
  nextDay := 0x01
  fixdDay := 0x01
  nextMon := 0x01
  fixdMon := 0x01
  nextYear := 0x2000
  nextYearC0 := false
  nextYearC1 := false
  nextYearC2 := false
  oWbAck := false

theorem powerUp_initial :
  powerUp.Initial 0x20000101
  := by constructor <;> decide

/-- Day 45 of February 2000 is written at clock 20, and the 28th at clock 40. A day ends at clock
60, and another one at clock 80. -/
def leapDay (n : ℕ) : Input where
  iPpd := n == 60 || n == 80
  iWbStb := n == 20 || n == 40
  iWbWe := true
  iWbData := if n = 20 then 0x20000245 else 0x20000228
  iWbSel := 0xf

theorem date_kept_leapDay :
  (run step powerUp leapDay 30).Valid ∧ (run step powerUp leapDay 61).date = ⟨2000, 2, 29⟩
    ∧ (run step powerUp leapDay 81).date = ⟨2000, 3, 1⟩
  := by
  have hppd : ∀ n, (leapDay n).iPpd = true → n = 60 ∨ n = 80 := by
    intro n hn
    simpa [leapDay] using hn
  have hwrite : ∀ n, (leapDay n).write = true → n = 20 ∨ n = 40 := by
    intro n hn
    simpa [leapDay, Input.write] using hn
  have hspaced : Spaced leapDay := by
    constructor
    · intro m n hlt hm hn
      have hfirst := hppd m hm
      have hsecond := hppd n hn
      omega
    · intro m n hlt hm hn
      have hfirst := hwrite m hm
      have hsecond := hppd n hn
      omega
    · intro n hn
      have hpulse := hppd n hn
      omega
  have hdate : (run step powerUp leapDay 60).date = ⟨2000, 2, 28⟩ := by decide +kernel
  have hdate' : (run step powerUp leapDay 80).date = ⟨2000, 2, 29⟩ := by decide +kernel
  constructor
  · apply (date_kept powerUp_initial hspaced 30).1 (by decide)
    intro m hm hn
    have hfirst := hwrite m hn
    omega
  · constructor
    · rw [(((date_kept powerUp_initial hspaced 60).2 rfl).2 rfl).2
        (by rw [hdate]; left; decide), hdate]
      rfl
    · rw [(((date_kept powerUp_initial hspaced 80).2 rfl).2 rfl).2
        (by rw [hdate']; left; decide), hdate']
      rfl

/-- The first of March 2001 is written at clock 0, and day 63 at clock 9. -/
def twoWrites : ℕ → Input
  | 0 => ⟨false, true, true, 0x20010301, 0xf⟩
  | 9 => ⟨false, true, true, 0x0000803f, 0x1⟩
  | _ => ⟨false, false, false, 0, 0⟩

/-- Ten clocks after a write the date may be invalid again, for a write that came later. -/
theorem date_not_valid :
  Spaced twoWrites ∧ (twoWrites 0).write = true ∧ ¬ (run step powerUp twoWrites 10).Valid
  := by
  refine ⟨?_, rfl, ?_⟩
  · have hquiet : ∀ n, (twoWrites n).iPpd = false := by
      intro n
      unfold twoWrites
      split <;> rfl
    constructor
    · intro m n _ hm _
      rw [hquiet] at hm
      cases hm
    · intro m n _ _ hn
      rw [hquiet] at hn
      cases hn
    · intro n hn
      rw [hquiet] at hn
      cases hn
  · intro hvalid
    have hday : ¬ Bcd.Decimal 2 (run step powerUp twoWrites 10).rDay.toNat := by decide +kernel
    apply hday hvalid.day

end Rtcdate

end ZBasic
