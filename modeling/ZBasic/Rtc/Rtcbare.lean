import ZBasic.Clocked.Run
import ZBasic.Rtc.Bcd
import ZBasic.Rtc.Calendar

/-!
# The time of day

`rtcbare` keeps the time of day in binary coded decimals, with `OPT_PREVALIDATED_INPUT` zero.
The next second is computed in registers that lag behind the time by a few clocks, and after
a write the fields that it may still be wrong for are suppressed.
-/

namespace ZBasic

open Clocked

/-- Hours, minutes and seconds, as `{ hh, mm, ss }` of 22 bits. -/
structure Hms where
  hh : BitVec 6
  mm : BitVec 8
  ss : BitVec 8
deriving DecidableEq

namespace Hms

/-- The fields of 22 bits. -/
def ofBits (x : BitVec 22) : Hms where
  hh := x.extractLsb' 16 6
  mm := x.extractLsb' 8 8
  ss := x.extractLsb' 0 8

/-- The 22 bits of the fields. -/
def bits (t : Hms) : BitVec 22 := t.hh ++ t.mm ++ t.ss

end Hms

/-- One bit for each of the fields. -/
structure Fields where
  ss : Bool
  mm : Bool
  hh : Bool
deriving DecidableEq

namespace Fields

/-- No field. -/
def none : Fields := ⟨false, false, false⟩

/-- `|x` -/
def any (x : Fields) : Bool := x.ss || x.mm || x.hh

end Fields

/-- The registers of `rtcbare`. -/
structure Rtcbare where
  bcdClock : Hms
  nextClock : Hms
  /-- The six bits of `carry`. -/
  carry₀ : Bool
  carry₁ : Bool
  carry₂ : Bool
  carry₃ : Bool
  carry₄ : Bool
  carry₅ : Bool
  prePpd : Bool
  preValid : Fields
  preBcdClock : Hms
  suppressed : Fields
  suppressCount : BitVec 3

namespace Rtcbare

/-- The inputs of `rtcbare` at a clock. -/
structure Input where
  iReset : Bool
  iPps : Bool
  iWr : Bool
  iData : BitVec 22
  iValid : BitVec 3

/-- The last second of a day, `22'h23_59_59`. -/
def lastSecond : Hms := ⟨0x23, 0x59, 0x59⟩

/-- The lower digit of a field. -/
def low {w : ℕ} (x : BitVec w) : BitVec 4 := x.extractLsb' 0 4

/-- The upper digit of a field of seconds or minutes. -/
def high (x : BitVec 8) : BitVec 4 := x.extractLsb' 4 4

/-- The upper digit of the hours. -/
def highHour (x : BitVec 6) : BitVec 2 := x.extractLsb' 4 2

/-- The next seconds or minutes, given the carries into the field, out of its lower digit and
out of the field. -/
def sixtyAfter (c cLow cHigh : Bool) (x : BitVec 8) : BitVec 8 :=
  (if cHigh then 0#4 else if cLow then high x + 1 else high x)
    ++ (if cLow then 0#4 else if c then low x + 1 else low x)

/-- The next hours, given the carries into the field and out of its lower digit, and whether
the day ends. -/
def hourAfter (c cLow cDay : Bool) (x : BitVec 6) : BitVec 6 :=
  (if cDay then 0#2 else if cLow then highHour x + 1 else highHour x)
    ++ (if cLow || cDay then 0#4 else if c then low x + 1 else low x)

/-- The check of the seconds and of the minutes that are written. -/
def checkSixty (x : BitVec 8) : Bool := x ≤ 0x59 && low x ≤ 9

/-- The check of the hours that are written. -/
def checkHour (x : BitVec 6) : Bool := x ≤ 0x23 && low x ≤ 9

/-- What `pre_valid` is for a write. -/
def check (i : Input) : Fields where
  ss := i.iValid.getLsbD 0 && checkSixty (Hms.ofBits i.iData).ss
  mm := i.iValid.getLsbD 1 && checkSixty (Hms.ofBits i.iData).mm
  hh := i.iValid.getLsbD 2 && checkHour (Hms.ofBits i.iData).hh

variable (s : Rtcbare) (i : Input)

/-- `o_data` -/
def oData : BitVec 22 := s.bcdClock.bits

/-- `o_ppd` -/
def oPpd : Bool := s.prePpd && i.iPps

/-- One clock of `rtcbare`. -/
def step : Rtcbare where
  prePpd := if i.iReset then false else s.bcdClock = lastSecond
  carry₀ := if i.iReset then false else 9 ≤ low s.bcdClock.ss
  carry₁ := if i.iReset then false else 5 ≤ high s.bcdClock.ss && s.carry₀
  carry₂ := if i.iReset then false else 9 ≤ low s.bcdClock.mm && (s.carry₁ && s.carry₀)
  carry₃ :=
    if i.iReset then false
    else 5 ≤ high s.bcdClock.mm && (s.carry₂ && s.carry₁ && s.carry₀)
  carry₄ :=
    if i.iReset then false
    else 9 ≤ low s.bcdClock.hh && (s.carry₃ && s.carry₂ && s.carry₁ && s.carry₀)
  carry₅ :=
    if i.iReset then false
    else 0x23 ≤ s.bcdClock.hh && (s.carry₃ && s.carry₂ && s.carry₁ && s.carry₀)
  nextClock :=
    if i.iReset then ⟨0, 0, 1⟩
    else
      { ss := sixtyAfter true s.carry₀ s.carry₁ s.bcdClock.ss
        mm := sixtyAfter s.carry₁ s.carry₂ s.carry₃ s.bcdClock.mm
        hh := hourAfter s.carry₃ s.carry₄ s.carry₅ s.bcdClock.hh }
  preValid := if i.iReset || !i.iWr then .none else check i
  preBcdClock := .ofBits i.iData
  suppressed :=
    if i.iReset then ⟨true, true, true⟩
    else if s.preValid.any then
      { ss := s.suppressed.ss || s.preValid.ss
        mm := s.suppressed.mm || (s.preValid.ss || s.preValid.mm)
        hh := s.suppressed.hh || (s.preValid.ss || s.preValid.mm || s.preValid.hh) }
    else if 0 < s.suppressCount then s.suppressed
    else .none
  suppressCount :=
    if i.iReset || s.preValid.any then 5
    else if 0 < s.suppressCount then s.suppressCount - 1
    else s.suppressCount
  bcdClock :=
    if i.iReset then ⟨0, 0, 0⟩
    else
      { ss :=
          if s.preValid.ss then s.preBcdClock.ss
          else if i.iPps && !s.suppressed.ss then s.nextClock.ss
          else s.bcdClock.ss
        mm :=
          if s.preValid.mm then s.preBcdClock.mm
          else if i.iPps && !s.suppressed.mm then s.nextClock.mm
          else s.bcdClock.mm
        hh :=
          if s.preValid.hh then s.preBcdClock.hh
          else if i.iPps && !s.suppressed.hh then s.nextClock.hh
          else s.bcdClock.hh }

/-- The registers at power up; the time written is arbitrary. -/
structure Initial : Prop where
  prePpd : s.prePpd = false
  carry : s.carry₀ = false ∧ s.carry₁ = false ∧ s.carry₂ = false ∧ s.carry₃ = false
    ∧ s.carry₄ = false ∧ s.carry₅ = false
  nextClock : s.nextClock = ⟨0, 0, 1⟩
  preValid : s.preValid = .none
  suppressed : s.suppressed = ⟨true, true, true⟩
  suppressCount : s.suppressCount = 5
  bcdClock : s.bcdClock = ⟨0, 0, 0⟩

/-! ### What the fields stand for -/

/-- A field stands for a number below `bound`. -/
def Below {w : ℕ} (bound : ℕ) (x : BitVec w) : Prop :=
  Bcd.Decimal 2 x.toNat ∧ Bcd.value 2 x.toNat < bound

instance {w : ℕ} (bound : ℕ) (x : BitVec w) : Decidable (Below bound x) :=
  inferInstanceAs (Decidable (_ ∧ _))

theorem checkSixty_iff :
  ∀ x, checkSixty x = true ↔ Below 60 x
  := by decide

theorem checkHour_iff :
  ∀ x, checkHour x = true ↔ Below 24 x
  := by decide

/-- The field carries, if there is a carry into it. -/
theorem carry_sixty :
  ∀ x : BitVec 8, Below 60 x →
    (decide (5 ≤ high x) && decide (9 ≤ low x)) = decide (Bcd.value 2 x.toNat = 59)
  := by decide

theorem sixtyAfter_eq :
  ∀ x : BitVec 8, Below 60 x → ∀ c,
    Below 60 (sixtyAfter c (9 ≤ low x && c) (5 ≤ high x && (9 ≤ low x && c)) x)
    ∧ Bcd.value 2 (sixtyAfter c (9 ≤ low x && c) (5 ≤ high x && (9 ≤ low x && c)) x).toNat
      = if c then (if Bcd.value 2 x.toNat < 59 then Bcd.value 2 x.toNat + 1 else 0)
        else Bcd.value 2 x.toNat
  := by decide

/-- Without a carry the fields stay as they are. -/
theorem sixtyAfter_false :
  ∀ x : BitVec 8, sixtyAfter false (9 ≤ low x && false) (5 ≤ high x && (9 ≤ low x && false)) x = x
  := by decide

theorem hourAfter_false :
  ∀ x : BitVec 6, hourAfter false (9 ≤ low x && false) (0x23 ≤ x && false) x = x
  := by decide

theorem hourAfter_eq :
  ∀ x : BitVec 6, Below 24 x → ∀ c,
    Below 24 (hourAfter c (9 ≤ low x && c) (0x23 ≤ x && c) x)
    ∧ Bcd.value 2 (hourAfter c (9 ≤ low x && c) (0x23 ≤ x && c) x).toNat
      = if c then (if Bcd.value 2 x.toNat < 23 then Bcd.value 2 x.toNat + 1 else 0)
        else Bcd.value 2 x.toNat
  := by decide

end Rtcbare

end ZBasic
