import ZBasic.Clocked.Bits
import ZBasic.Clocked.Run
import ZBasic.Rtc.Bcd
import ZBasic.Rtc.Calendar

/-!
# The date register

`rtcdate` keeps a date in binary coded decimals. What the next date is, and what an invalid
date is replaced by, is computed in registers that lag behind the date by a few clocks.
-/

namespace ZBasic

open Clocked

/-- The registers of `rtcdate`. -/
structure Rtcdate where
  rBlockUpdates : BitVec 10
  rDay : BitVec 6
  rMon : BitVec 5
  rYear : BitVec 14
  lastDayOfMonth : Bool
  lastDayOfYear : Bool
  isLeapYear : Bool
  daysPerMonth : BitVec 6
  yearDivisibleByFour : Bool
  centuryYear : Bool
  fourCenturyYear : Bool
  nextDay : BitVec 6
  fixdDay : BitVec 6
  nextMon : BitVec 5
  fixdMon : BitVec 5
  nextYear : BitVec 14
  /-- The three bits of `next_year_c`. -/
  nextYearC0 : Bool
  nextYearC1 : Bool
  nextYearC2 : Bool
  oWbAck : Bool

namespace Rtcdate

/-- The inputs of `rtcdate` at a clock. -/
structure Input where
  iPpd : Bool
  iWbStb : Bool
  iWbWe : Bool
  iWbData : BitVec 32
  iWbSel : BitVec 4

namespace Input

variable (i : Input)

/-- A write. -/
def write : Bool := i.iWbStb && i.iWbWe

/-- A write of the day. -/
def writeDay : Bool := i.write && !i.iWbData.getLsbD 7 && i.iWbSel.getLsbD 0

/-- A write of the month. -/
def writeMon : Bool := i.write && !i.iWbData.getLsbD 15 && i.iWbSel.getLsbD 1

/-- A write of the year. -/
def writeYear : Bool := i.write && !i.iWbData.getLsbD 31 && i.iWbSel.extractLsb' 2 2 == 3

end Input

/-! ### The digits of the year -/

/-- `r_year[3:0]` -/
def ones (y : BitVec 14) : BitVec 4 := y.extractLsb' 0 4

/-- `r_year[7:4]` -/
def tens (y : BitVec 14) : BitVec 4 := y.extractLsb' 4 4

/-- `r_year[11:8]` -/
def hundreds (y : BitVec 14) : BitVec 4 := y.extractLsb' 8 4

/-- `r_year[13:12]` -/
def thousands (y : BitVec 14) : BitVec 2 := y.extractLsb' 12 2

/-- A year of the given digits. -/
def digits (d₃ : BitVec 2) (d₂ d₁ d₀ : BitVec 4) : BitVec 14 := d₃ ++ d₂ ++ d₁ ++ d₀

/-! ### What the registers follow -/

/-- A two digit number that a multiple of four ends in, by the low bits of its digits. -/
def divisibleByFour {w : ℕ} (hi : BitVec w) (lo : BitVec 4) : Bool :=
  !lo.getLsbD 0 && hi.getLsbD 0 == lo.getLsbD 1

/-- `year_divisible_by_four` -/
def divByFour (y : BitVec 14) : Bool := divisibleByFour (tens y) (ones y)

/-- `century_year` -/
def century (y : BitVec 14) : Bool := y.extractLsb' 0 8 == 0

/-- `four_century_year` -/
def fourCentury (y : BitVec 14) : Bool := divisibleByFour (thousands y) (hundreds y)

/-- `is_leap_year` -/
def leap (byFour byHundred byFourHundred : Bool) : Bool :=
  byFour && (!byHundred || byHundred && byFourHundred)

/-- `days_per_month` -/
def monthLength (mon : BitVec 5) (leap : Bool) : BitVec 6 :=
  match mon with
  | 0x01 => 0x31
  | 0x02 => if leap then 0x29 else 0x28
  | 0x03 => 0x31
  | 0x04 => 0x30
  | 0x05 => 0x31
  | 0x06 => 0x30
  | 0x07 => 0x31
  | 0x08 => 0x31
  | 0x09 => 0x30
  | 0x10 => 0x31
  | 0x11 => 0x30
  | 0x12 => 0x31
  | _ => 0x31

/-- `next_day` -/
def dayAfter (lastDayOfMonth : Bool) (day : BitVec 6) : BitVec 6 :=
  if lastDayOfMonth then 0x01
  else if day.extractLsb' 0 4 ≠ 9 then day.extractLsb' 4 2 ++ (day.extractLsb' 0 4 + 1)
  else (day.extractLsb' 4 2 + 1) ++ 0#4

/-- `fixd_day` -/
def dayFixed (day daysPerMonth : BitVec 6) : BitVec 6 :=
  if day = 0 || daysPerMonth < day then 0x01
  else if 9 < day.extractLsb' 0 4 then (day.extractLsb' 4 2 + 1) ++ 0#4
  else day

/-- `next_mon` -/
def monAfter (lastDayOfMonth lastDayOfYear : Bool) (mon : BitVec 5) : BitVec 5 :=
  if lastDayOfYear then 0x01
  else if lastDayOfMonth && mon.extractLsb' 0 4 ≠ 9 then
    mon.extractLsb' 4 1 ++ (mon.extractLsb' 0 4 + 1)
  else if lastDayOfMonth then 1#1 ++ 0#4
  else mon

/-- `fixd_mon` -/
def monFixed (mon : BitVec 5) : BitVec 5 :=
  if mon = 0 || 0x12 < mon || 9 < mon.extractLsb' 0 4 then 0x01 else mon

/-- A bit of `next_year_c`: a digit carries. -/
def carries (d : BitVec 4) (c : Bool) : Bool := 9 < d || d = 9 && c

/-- `next_year` -/
def yearAfter (c₀ c₁ c₂ : Bool) (y : BitVec 14) : BitVec 14 :=
  digits (if c₂ then thousands y + 1 else thousands y)
    (if c₂ then 0 else if c₁ then hundreds y + 1 else hundreds y)
    (if c₁ then 0 else if c₀ then tens y + 1 else tens y)
    (if c₀ then 0 else ones y + 1)

/-- The year with its digits that are out of bounds cleared. -/
def yearFixed (y : BitVec 14) : BitVec 14 :=
  digits (thousands y) (if 9 < hundreds y then 0 else hundreds y)
    (if 9 < tens y then 0 else tens y) (if 9 < ones y then 0 else ones y)

/-! ### The machine -/

variable (s : Rtcdate) (i : Input)

/-- `o_wb_data` -/
def oWbData : BitVec 32 := 0#2 ++ s.rYear ++ 0#3 ++ s.rMon ++ 0#2 ++ s.rDay

/-- `update` -/
def update : Bool := i.iPpd && !s.rBlockUpdates.getLsbD 9

/-- One clock of `rtcdate`. -/
def step : Rtcdate where
  rBlockUpdates := if i.write then 0x3ff else s.rBlockUpdates.extractLsb' 0 9 ++ 0#1
  rDay :=
    if i.writeDay then i.iWbData.extractLsb' 0 6
    else if s.update i then s.nextDay
    else if s.rBlockUpdates.extractLsb' 4 2 = 2 then s.fixdDay
    else s.rDay
  rMon :=
    if i.writeMon then i.iWbData.extractLsb' 8 5
    else if s.update i then s.nextMon
    else if s.rBlockUpdates.extractLsb' 7 2 = 2 then s.fixdMon
    else s.rMon
  rYear :=
    if i.writeYear then i.iWbData.extractLsb' 16 14
    else if s.update i && s.lastDayOfYear then s.nextYear
    else yearFixed s.rYear
  lastDayOfMonth := s.daysPerMonth ≤ s.rDay
  lastDayOfYear := s.lastDayOfMonth && s.rMon = 0x12
  isLeapYear := leap s.yearDivisibleByFour s.centuryYear s.fourCenturyYear
  daysPerMonth := monthLength s.rMon s.isLeapYear
  yearDivisibleByFour := divByFour s.rYear
  centuryYear := century s.rYear
  fourCenturyYear := fourCentury s.rYear
  nextDay := dayAfter s.lastDayOfMonth s.rDay
  fixdDay := dayFixed s.rDay s.daysPerMonth
  nextMon := monAfter s.lastDayOfMonth s.lastDayOfYear s.rMon
  fixdMon := monFixed s.rMon
  nextYear := yearAfter s.nextYearC0 s.nextYearC1 s.nextYearC2 s.rYear
  nextYearC0 := if i.writeYear then false else 9 ≤ ones s.rYear
  nextYearC1 := if i.writeYear then false else carries (tens s.rYear) s.nextYearC0
  nextYearC2 := if i.writeYear then false else carries (hundreds s.rYear) s.nextYearC1
  oWbAck := i.iWbStb

/-- The registers at power up, with the parameter `INITIAL_DATE`; the others are
arbitrary. -/
structure Initial (initialDate : BitVec 30) : Prop where
  rBlockUpdates : s.rBlockUpdates = 0x3ff
  rDay : s.rDay = initialDate.extractLsb' 0 6
  rMon : s.rMon = initialDate.extractLsb' 8 5
  rYear : s.rYear = initialDate.extractLsb' 16 14
  daysPerMonth : s.daysPerMonth = 0x31
  lastDayOfMonth : s.lastDayOfMonth = false
  lastDayOfYear : s.lastDayOfYear = false
  yearDivisibleByFour : s.yearDivisibleByFour = false
  centuryYear : s.centuryYear = false
  fourCenturyYear : s.fourCenturyYear = false
  isLeapYear : s.isLeapYear = false
  nextDay : s.nextDay = initialDate.extractLsb' 0 6
  fixdDay : s.fixdDay = initialDate.extractLsb' 0 6
  fixdMon : s.fixdMon = initialDate.extractLsb' 8 5
  nextYear : s.nextYear = initialDate.extractLsb' 16 14
  nextYearC : s.nextYearC0 = false ∧ s.nextYearC1 = false ∧ s.nextYearC2 = false
  oWbAck : s.oWbAck = false

/-! ### What the digits stand for -/

section Digits

variable (y : BitVec 14)

theorem digits_eq :
  digits (thousands y) (hundreds y) (tens y) (ones y) = y
  := by
  have htop : thousands y ++ hundreds y = y.extractLsb' 8 6 := by
    have := extract_append_extract (m := 2) (n := 4) (y.extractLsb' 8 6)
    rwa [extract_extract y (by decide), extract_extract y (by decide)] at this
  have hmid : y.extractLsb' 8 6 ++ tens y = y.extractLsb' 4 10 := by
    have := extract_append_extract (m := 6) (n := 4) (y.extractLsb' 4 10)
    rwa [extract_extract y (by decide), extract_extract y (by decide)] at this
  have hlow : y.extractLsb' 4 10 ++ ones y = y := extract_append_extract (m := 10) (n := 4) y
  rw [digits, htop, hmid, hlow]

variable (d₃ : BitVec 2) (d₂ d₁ d₀ : BitVec 4)

theorem value_digits :
  Bcd.value 4 (digits d₃ d₂ d₁ d₀).toNat
    = 1000 * d₃.toNat + 100 * d₂.toNat + 10 * d₁.toNat + d₀.toNat
  := by
  rw [digits, Bcd.value_append, Bcd.value_append, Bcd.value_append,
    Bcd.value_one (by decide)]
  omega

theorem decimal_digits :
  Bcd.Decimal 4 (digits d₃ d₂ d₁ d₀).toNat ↔ d₀.toNat ≤ 9 ∧ d₁.toNat ≤ 9 ∧ d₂.toNat ≤ 9
  := by
  rw [digits, Bcd.decimal_append, Bcd.decimal_append, Bcd.decimal_append]
  have := Bcd.decimal_one (x := d₃) (by decide)
  tauto

end Digits

/-- The year that the digits stand for. -/
def yearOf (y : BitVec 14) : ℕ := Bcd.value 4 y.toNat

theorem yearOf_eq (y : BitVec 14) :
  yearOf y = 1000 * (thousands y).toNat + 100 * (hundreds y).toNat + 10 * (tens y).toNat
    + (ones y).toNat
  := by
  rw [← value_digits, digits_eq]
  rfl

theorem decimal_iff (y : BitVec 14) :
  Bcd.Decimal 4 y.toNat
    ↔ (ones y).toNat ≤ 9 ∧ (tens y).toNat ≤ 9 ∧ (hundreds y).toNat ≤ 9
  := by rw [← decimal_digits (thousands y), digits_eq]

theorem divisibleByFour_eq {w : ℕ} (hi : BitVec w) (lo : BitVec 4) :
  divisibleByFour hi lo = decide ((10 * hi.toNat + lo.toNat) % 4 = 0)
  := by
  have hhi : hi.getLsbD 0 = decide (hi.toNat % 2 = 1) := by
    rw [BitVec.getLsbD, Nat.testBit_eq_decide_div_mod_eq, Nat.pow_zero, Nat.div_one]
  have hlo : lo.getLsbD 0 = decide (lo.toNat % 2 = 1) := by
    rw [BitVec.getLsbD, Nat.testBit_eq_decide_div_mod_eq, Nat.pow_zero, Nat.div_one]
  have hlo' : lo.getLsbD 1 = decide (lo.toNat / 2 % 2 = 1) := by
    rw [BitVec.getLsbD, Nat.testBit_eq_decide_div_mod_eq, Nat.pow_one]
  rw [divisibleByFour, hhi, hlo, hlo', Bool.eq_iff_iff]
  simp only [Bool.and_eq_true, Bool.not_eq_true', decide_eq_false_iff_not, beq_iff_eq,
    decide_eq_decide, decide_eq_true_eq]
  omega

/-- A leap year is found. -/
theorem leap_eq {y : BitVec 14} (h : Bcd.Decimal 4 y.toNat) :
  leap (divByFour y) (century y) (fourCentury y) = Date.isLeap (yearOf y)
  := by
  have hcentury : century y = decide ((tens y).toNat = 0 ∧ (ones y).toNat = 0) := by
    have hlow : y.extractLsb' 0 8 = tens y ++ ones y := by
      have := extract_append_extract (m := 4) (n := 4) (y.extractLsb' 0 8)
      rw [extract_extract y (by decide), extract_extract y (by decide)] at this
      apply this.symm
    rw [century, hlow, Bool.eq_iff_iff, beq_iff_eq, decide_eq_true_iff, ← BitVec.toNat_inj,
      Bcd.toNat_append]
    change _ = 0 ↔ _
    omega
  obtain ⟨h₀, h₁, h₂⟩ := (decimal_iff y).mp h
  rw [divByFour, fourCentury, divisibleByFour_eq, divisibleByFour_eq, hcentury, Date.isLeap,
    yearOf_eq, Bool.eq_iff_iff]
  simp only [leap, Bool.and_eq_true, Bool.or_eq_true, decide_eq_true_eq, beq_iff_eq,
    Bool.not_eq_true', decide_eq_false_iff_not, bne_iff_ne]
  omega

theorem decimal_yearFixed (y : BitVec 14) :
  Bcd.Decimal 4 (yearFixed y).toNat
  := by
  rw [yearFixed, decimal_digits]
  refine ⟨?_, ?_, ?_⟩ <;> split_ifs with h <;> simp_all [BitVec.lt_def]

/-- The digits of a year that are in bounds stay. -/
theorem yearFixed_of_decimal {y : BitVec 14} (h : Bcd.Decimal 4 y.toNat) :
  yearFixed y = y
  := by
  obtain ⟨h₀, h₁, h₂⟩ := (decimal_iff y).mp h
  rw [yearFixed, if_neg, if_neg, if_neg, digits_eq]
  all_goals
    simp only [BitVec.lt_def, BitVec.ofNat_eq_ofNat, BitVec.toNat_ofNat]
    omega

theorem carries_iff {d : BitVec 4} (h : d.toNat ≤ 9) {c : Bool} :
  carries d c = true ↔ d.toNat = 9 ∧ c = true
  := by
  rw [carries, Bool.or_eq_true, Bool.and_eq_true, decide_eq_true_iff, decide_eq_true_iff,
    BitVec.lt_def, ← BitVec.toNat_inj]
  have hle : ¬ 9 < d.toNat := Nat.not_lt.mpr h
  simp [hle]

/-- The next year, where the digits of the year are in bounds. -/
theorem yearAfter_eq {y : BitVec 14} (h : Bcd.Decimal 4 y.toNat) {c₀ c₁ c₂ : Bool}
    (h₀ : c₀ = decide (9 ≤ ones y)) (h₁ : c₁ = carries (tens y) c₀)
    (h₂ : c₂ = carries (hundreds y) c₁) :
  Bcd.Decimal 4 (yearAfter c₀ c₁ c₂ y).toNat
    ∧ (yearOf y < 3999 → yearOf (yearAfter c₀ c₁ c₂ y) = yearOf y + 1)
  := by
  obtain ⟨hones, htens, hhundreds⟩ := (decimal_iff y).mp h
  have hc₀ : c₀ = true ↔ (ones y).toNat = 9 := by
    rw [h₀, decide_eq_true_iff, BitVec.le_def]
    change 9 ≤ _ ↔ _
    omega
  have hc₁ : c₁ = true ↔ (tens y).toNat = 9 ∧ c₀ = true := by
    rw [h₁, carries_iff htens]
  have hc₂ : c₂ = true ↔ (hundreds y).toNat = 9 ∧ c₁ = true := by
    rw [h₂, carries_iff hhundreds]
  have hsucc : ∀ d : BitVec 4, d.toNat < 9 → (d + 1).toNat = d.toNat + 1 := by
    intro d hd
    apply BitVec.toNat_add_of_lt
    change d.toNat + 1 < 16
    omega
  have hsucc' : (thousands y).toNat < 3 → (thousands y + 1).toNat = (thousands y).toNat + 1 := by
    intro hd
    apply BitVec.toNat_add_of_lt
    change (thousands y).toNat + 1 < 4
    omega
  rw [yearAfter, decimal_digits, yearOf_eq y, yearOf, value_digits]
  have hsucc₀ := hsucc (ones y)
  have hsucc₁ := hsucc (tens y)
  have hsucc₂ := hsucc (hundreds y)
  have hzero : (0 : BitVec 4).toNat = 0 := rfl
  have hthousands := (thousands y).isLt
  cases c₀ <;> cases c₁ <;> cases c₂ <;>
    simp only [Bool.false_eq_true, if_true, if_false, false_iff, true_iff, and_true, and_false,
      hzero] at hc₀ hc₁ hc₂ ⊢ <;>
    omega

/-! ### Months and days -/

/-- The month that the digits stand for. -/
def monOf (mon : BitVec 5) : ℕ := Bcd.value 2 mon.toNat

/-- The day that the digits stand for. -/
def dayOf (day : BitVec 6) : ℕ := Bcd.value 2 day.toNat

/-- A month of the year, in decimal. -/
structure Month (mon : BitVec 5) : Prop where
  decimal : Bcd.Decimal 2 mon.toNat
  pos : 1 ≤ monOf mon
  le : monOf mon ≤ 12

instance (mon : BitVec 5) : Decidable (Month mon) :=
  decidable_of_iff (Bcd.Decimal 2 mon.toNat ∧ 1 ≤ monOf mon ∧ monOf mon ≤ 12)
    ⟨fun h => ⟨h.1, h.2.1, h.2.2⟩, fun h => ⟨h.decimal, h.pos, h.le⟩⟩

/-- A day of a month of the given length, in decimal. -/
structure Day (len day : BitVec 6) : Prop where
  decimal : Bcd.Decimal 2 day.toNat
  pos : 1 ≤ dayOf day
  le : dayOf day ≤ dayOf len

instance (len day : BitVec 6) : Decidable (Day len day) :=
  decidable_of_iff (Bcd.Decimal 2 day.toNat ∧ 1 ≤ dayOf day ∧ dayOf day ≤ dayOf len)
    ⟨fun h => ⟨h.1, h.2.1, h.2.2⟩, fun h => ⟨h.decimal, h.pos, h.le⟩⟩

/-- The lengths of months. -/
def lengths : List (BitVec 6) := [0x28, 0x29, 0x30, 0x31]

theorem monthLength_mem :
  ∀ mon l, monthLength mon l ∈ lengths
  := by decide

theorem month_fixed :
  ∀ mon, Month (monFixed mon)
  := by decide

theorem monFixed_of_month :
  ∀ mon, Month mon → monFixed mon = mon
  := by decide

/-- An invalid month is as long as the one it is replaced by. -/
theorem monthLength_fixed :
  ∀ mon l, monthLength (monFixed mon) l = monthLength mon l
  := by decide

theorem monFixed_eq_december :
  ∀ mon, monFixed mon = 0x12 ↔ mon = 0x12
  := by decide

theorem dayOf_monthLength :
  ∀ mon, Month mon → ∀ l, dayOf (monthLength mon l) = Date.daysIn l (monOf mon)
  := by decide

theorem day_fixed :
  ∀ len ∈ lengths, ∀ day, Day len (dayFixed day len)
  := by decide

theorem last_iff :
  ∀ len ∈ lengths, ∀ day, Day len day → (len ≤ day ↔ ¬ dayOf day < dayOf len)
  := by decide

/-- The first day of the next month, or the next day. -/
theorem dayAfter_eq :
  ∀ len ∈ lengths, ∀ day, Day len day → Bcd.Decimal 2 (dayAfter (len ≤ day) day).toNat
    ∧ dayOf (dayAfter (len ≤ day) day)
      = if dayOf day < dayOf len then dayOf day + 1 else 1
  := by decide

/-- The next month after the last day of a month. -/
theorem monAfter_eq :
  ∀ mon, Month mon → ∀ last, Month (monAfter last (last && mon = 0x12) mon)
    ∧ monOf (monAfter last (last && mon = 0x12) mon)
      = if last then (if monOf mon < 12 then monOf mon + 1 else 1) else monOf mon
  := by decide

theorem december_iff :
  ∀ mon, Month mon → (mon = 0x12 ↔ ¬ monOf mon < 12)
  := by decide

end Rtcdate

end ZBasic
