import ZBasic.Clocked.Run
import Mathlib.Data.BitVec

/-!
# The stopwatch

`rtcstopwatch` counts hundredths of a second in binary coded decimals. The next value is computed in
registers that lag behind the counter by a few clocks, a digit at a time.
-/

namespace ZBasic

open Clocked

namespace Rtcstopwatch

/-- The digits of `counter` and `next_sw`. Bits 15 and 23, which are always zero, belong to none. -/
structure Digits where
  hundredth : BitVec 4
  tenth : BitVec 4
  second : BitVec 4
  tenSecond : BitVec 3
  minute : BitVec 4
  tenMinute : BitVec 3
  hour : BitVec 4
  tenHour : BitVec 3
deriving DecidableEq

namespace Digits

/-- The digits as they are in the register. -/
def bits (d : Digits) : BitVec 31 :=
  d.tenHour ++ d.hour ++ 0#1 ++ d.tenMinute ++ d.minute ++ 0#1 ++ d.tenSecond ++ d.second ++ d.tenth
    ++ d.hundredth

/-- All digits zero. -/
def zero : Digits := ⟨0, 0, 0, 0, 0, 0, 0, 0⟩

end Digits

/-- The bits of `sw_carry`. -/
structure Carry where
  hundredth : Bool
  tenth : Bool
  second : Bool
  tenSecond : Bool
  minute : Bool
  tenMinute : Bool
  hour : Bool
deriving DecidableEq

/-- No carry. -/
def Carry.zero : Carry := ⟨false, false, false, false, false, false, false⟩

end Rtcstopwatch

open Rtcstopwatch

/-- The registers of `rtcstopwatch`. -/
structure Rtcstopwatch where
  counter : Digits
  nextSw : Digits
  swCarry : Carry
  swRunning : Bool
  swPpms : Bool
  carry : Bool
  /-- `sw_subticks[45:23]` -/
  subticksHigh : BitVec 23
  /-- `sw_subticks[22:0]` -/
  subticksLow : BitVec 23
  swStep : BitVec 37
  lastStep : BitVec 14

namespace Rtcstopwatch

/-- The inputs of `rtcstopwatch` at a clock. -/
structure Input where
  iReset : Bool
  iCkstep : BitVec 32
  iClear : Bool
  iStart : Bool
  iStop : Bool

/-- A digit of `next_sw`, given the carries into it and out of it. -/
def digitAfter {w : ℕ} (cIn cOut : Bool) (x : BitVec w) : BitVec w :=
  if cOut then 0 else if cIn then x + 1 else x

variable (s : Rtcstopwatch) (i : Input)

/-- The lower part of the subticks with the step added. -/
def lowSum : BitVec 24 :=
  s.subticksLow.setWidth 24 + (s.swStep.extractLsb' 0 23).setWidth 24

/-- The upper part of the subticks with the step and the carry added. -/
def highSum : BitVec 24 :=
  s.subticksHigh.setWidth 24 + s.lastStep.setWidth 24 + (BitVec.ofBool s.carry).setWidth 24

/-- The subticks are counted. -/
def enabled : Bool := i.iStart || s.swRunning && !i.iStop

/-- One clock of `rtcstopwatch`. -/
def step : Rtcstopwatch where
  swStep :=
    (0#1 ++ i.iCkstep ++ 0#4 : BitVec 37) + (0#2 ++ i.iCkstep ++ 0#3 : BitVec 37)
      + (0#5 ++ i.iCkstep : BitVec 37)
  lastStep := s.swStep.extractLsb' 23 14
  carry := if i.iReset then false else if enabled s i then s.lowSum.msb else s.carry
  subticksLow :=
    if i.iReset then 0
    else if enabled s i then s.lowSum.setWidth 23
    else s.subticksLow
  swPpms := if i.iReset then false else if enabled s i then s.highSum.msb else false
  subticksHigh :=
    if i.iReset then 0
    else if enabled s i then s.highSum.setWidth 23
    else s.subticksHigh
  swCarry :=
    if i.iReset || i.iClear then .zero
    else
      { hundredth := 9 ≤ s.counter.hundredth
        tenth := 9 ≤ s.counter.tenth && s.swCarry.hundredth
        second := 9 ≤ s.counter.second && s.swCarry.tenth
        tenSecond := 5 ≤ s.counter.tenSecond && s.swCarry.second
        minute := 9 ≤ s.counter.minute && s.swCarry.tenSecond
        tenMinute := 5 ≤ s.counter.tenMinute && s.swCarry.minute
        hour := 9 ≤ s.counter.hour && s.swCarry.tenMinute }
  nextSw :=
    if i.iReset || i.iClear then .zero
    else
      { hundredth := digitAfter true s.swCarry.hundredth s.counter.hundredth
        tenth := digitAfter s.swCarry.hundredth s.swCarry.tenth s.counter.tenth
        second := digitAfter s.swCarry.tenth s.swCarry.second s.counter.second
        tenSecond := digitAfter s.swCarry.second s.swCarry.tenSecond s.counter.tenSecond
        minute := digitAfter s.swCarry.tenSecond s.swCarry.minute s.counter.minute
        tenMinute := digitAfter s.swCarry.minute s.swCarry.tenMinute s.counter.tenMinute
        hour := digitAfter s.swCarry.tenMinute s.swCarry.hour s.counter.hour
        tenHour := if s.swCarry.hour then s.counter.tenHour + 1 else s.nextSw.tenHour }
  counter :=
    if i.iReset || i.iClear then .zero
    else if s.swPpms && s.swRunning then s.nextSw
    else s.counter
  swRunning := if i.iReset || i.iStop then false else if i.iStart then true else s.swRunning

/-- `o_value` -/
def oValue : BitVec 31 := s.counter.bits

/-- `o_running` -/
def oRunning : Bool := s.swRunning

/-- The registers after a reset, and at power up, where `sw_carry`, which has no initial value, is
zero. The steps are arbitrary. -/
structure Initial : Prop where
  counter : s.counter = .zero
  nextSw : s.nextSw = .zero
  swCarry : s.swCarry = .zero
  swRunning : s.swRunning = false
  swPpms : s.swPpms = false
  carry : s.carry = false
  subticksHigh : s.subticksHigh = 0
  subticksLow : s.subticksLow = 0

end Rtcstopwatch

end ZBasic
