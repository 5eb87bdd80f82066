import ZBasic.Clocked.Run
import Mathlib.Data.BitVec

/-!
# The countdown timer

`rtctimer` counts a duration down to zero, in binary coded decimals. A second is `2^LGSUBCK` pulses
of the sub-second clock; the flag for the last of them is set one pulse ahead. The next value is
computed in registers that lag behind the timer by a few clocks.
-/

namespace ZBasic

open Clocked

namespace Rtctimer

/-- The digits of `bcd_timer` and `next_timer`, and the two bits between them. -/
@[ext]
structure Digits where
  second : BitVec 4
  tenSecond : BitVec 3
  /-- Bit 7. -/
  afterSecond : Bool
  minute : BitVec 4
  tenMinute : BitVec 3
  /-- Bit 15. -/
  afterMinute : Bool
  hour : BitVec 4
  tenHour : BitVec 4
deriving DecidableEq

namespace Digits

/-- The digits as they are in the register. -/
def bits (d : Digits) : BitVec 24 :=
  d.tenHour ++ d.hour ++ BitVec.ofBool d.afterMinute ++ d.tenMinute ++ d.minute
    ++ BitVec.ofBool d.afterSecond ++ d.tenSecond ++ d.second

/-- The digits of 24 bits. -/
def ofBits (x : BitVec 24) : Digits where
  second := x.extractLsb' 0 4
  tenSecond := x.extractLsb' 4 3
  afterSecond := x.getLsbD 7
  minute := x.extractLsb' 8 4
  tenMinute := x.extractLsb' 12 3
  afterMinute := x.getLsbD 15
  hour := x.extractLsb' 16 4
  tenHour := x.extractLsb' 20 4

end Digits

/-- The bits of `pre_tmr_carry` and of `tmr_carry`. -/
structure Carry where
  second : Bool
  tenSecond : Bool
  minute : Bool
  tenMinute : Bool
  hour : Bool

end Rtctimer

open Rtctimer

/-- The registers of `rtctimer`, where `LGSUBCK` is `w`. -/
structure Rtctimer (w : ℕ) where
  bcdTimer : Digits
  nextTimer : Digits
  preTmrCarry : Carry
  tmrCarry : Carry
  lastTick : Bool
  tmSub : BitVec w
  tmPrePps : Bool
  tmInt : Bool
  tmRunning : Bool
  tmAlarm : Bool

namespace Rtctimer

/-- The inputs of `rtctimer` at a clock. -/
structure Input where
  iReset : Bool
  iSubCk : Bool
  iWr : Bool
  iData : BitVec 25
  iValid : BitVec 3
  iZero : Bool

/-- A digit of `next_timer`, given the borrows from it and from the digit above. -/
def digitBefore {v : ℕ} (top : BitVec v) (cIn cOut : Bool) (x : BitVec v) : BitVec v :=
  if cOut then top else if cIn then x - 1 else x

variable {w : ℕ} (s : Rtctimer w) (i : Input)

/-- `tm_pps` -/
def tmPps : Bool := s.tmPrePps && i.iSubCk

/-- A duration is written to the timer, which is stopped. -/
def loads : Bool := i.iWr && !s.tmRunning && i.iValid = BitVec.allOnes 3 && !i.iZero

/-- One clock of `rtctimer`. -/
def step : Rtctimer w where
  preTmrCarry :=
    { second := s.bcdTimer.second = 0
      tenSecond := s.bcdTimer.tenSecond = 0
      minute := s.bcdTimer.minute = 0
      tenMinute := s.bcdTimer.tenMinute = 0
      hour := s.bcdTimer.hour = 0 }
  tmrCarry :=
    { second := s.preTmrCarry.second
      tenSecond := s.preTmrCarry.tenSecond && s.preTmrCarry.second
      minute := s.preTmrCarry.minute && (s.preTmrCarry.tenSecond && s.preTmrCarry.second)
      tenMinute :=
        s.preTmrCarry.tenMinute && (s.preTmrCarry.minute && (s.preTmrCarry.tenSecond
          && s.preTmrCarry.second))
      hour :=
        s.preTmrCarry.hour && (s.preTmrCarry.tenMinute && (s.preTmrCarry.minute
          && (s.preTmrCarry.tenSecond && s.preTmrCarry.second))) }
  lastTick := s.bcdTimer.bits.extractLsb' 1 23 = 0
  nextTimer :=
    { second := if s.tmrCarry.second then 9 else s.bcdTimer.second - 1
      tenSecond := digitBefore 5 s.tmrCarry.second s.tmrCarry.tenSecond s.bcdTimer.tenSecond
      afterSecond := false
      minute := digitBefore 9 s.tmrCarry.tenSecond s.tmrCarry.minute s.bcdTimer.minute
      tenMinute := digitBefore 5 s.tmrCarry.minute s.tmrCarry.tenMinute s.bcdTimer.tenMinute
      afterMinute := false
      hour := digitBefore 9 s.tmrCarry.tenMinute s.tmrCarry.hour s.bcdTimer.hour
      tenHour := if s.tmrCarry.hour then s.bcdTimer.tenHour - 1 else s.bcdTimer.tenHour }
  tmSub :=
    if i.iReset || loads s i then 0
    else if i.iSubCk && s.tmRunning then s.tmSub + 1
    else s.tmSub
  tmPrePps :=
    if i.iReset || i.iWr && !s.tmRunning then false
    else if i.iSubCk && s.tmRunning then
      s.tmSub.extractLsb' 1 (w - 1) = BitVec.allOnes (w - 1) && !s.tmSub.getLsbD 0
    else s.tmSub = BitVec.allOnes w
  bcdTimer :=
    if i.iReset then .ofBits 0
    else if loads s i then .ofBits (i.iData.extractLsb' 0 24)
    else if s.tmRunning && tmPps s i then
      { s.nextTimer with afterSecond := false, afterMinute := false }
    else { s.bcdTimer with afterSecond := false, afterMinute := false }
  tmAlarm :=
    if i.iReset then false
    else if i.iWr && !s.tmRunning then false
    else if s.tmRunning && tmPps s i && s.lastTick then true
    else s.tmAlarm
  tmInt := if i.iReset then false else s.tmRunning && tmPps s i && !s.tmAlarm && s.lastTick
  tmRunning :=
    if i.iReset then false
    else if tmPps s i && s.lastTick then false
    else if i.iWr then
      if s.tmRunning then i.iData.getLsbD 24
      else if i.iZero && s.bcdTimer.bits ≠ 0 then i.iData.getLsbD 24
      else !i.iZero && i.iValid = BitVec.allOnes 3
    else s.tmRunning

/-- `o_interrupt` -/
def oInterrupt : Bool := s.tmInt

/-- `o_data` -/
def oData : BitVec 32 :=
  0#6 ++ BitVec.ofBool s.tmAlarm ++ BitVec.ofBool s.tmRunning ++ s.bcdTimer.bits

end Rtctimer

end ZBasic
