import ZBasic.Rtc.Rtcbare

/-!
# The alarm

`rtcalarm` trips when the clock comes to the alarm time. A write sets those fields of the alarm time
that are marked as valid. Either they are checked, which takes a clock, or they are taken as valid.
-/

namespace ZBasic

open Clocked

namespace Rtcalarm

/-- The parameters of `rtcalarm`. -/
structure Config where
  optPrevalidatedInput : Bool
  optInitialAlarmTime : BitVec 22
  optStartEnabled : Bool
  optFixedAlarmTime : Bool

/-- The inputs of `rtcalarm` at a clock. -/
structure Input where
  iReset : Bool
  iNow : BitVec 22
  iWr : Bool
  iClear : Bool
  iEnable : Bool
  iAlarmTime : BitVec 22
  iValid : BitVec 3

end Rtcalarm

open Rtcalarm

/-- The registers of `rtcalarm`. With `OPT_PREVALIDATED_INPUT`, `pre_valid` and
`validated_alarm_time` are wires, and the registers here are not used. -/
structure Rtcalarm where
  enabled : Bool
  tripped : Bool
  pastTime : BitVec 22
  preValid : Fields
  validatedAlarmTime : Hms
  alarmTime : Hms

namespace Rtcalarm

/-- The three bits of `i_valid`. -/
def validFields (x : BitVec 3) : Fields := ⟨x.getLsbD 0, x.getLsbD 1, x.getLsbD 2⟩

/-- What `pre_valid` is for a write, where the input is checked. -/
def check (i : Input) : Fields where
  ss := i.iValid.getLsbD 0 && Rtcbare.checkSixty (Hms.ofBits i.iAlarmTime).ss
  mm := i.iValid.getLsbD 1 && Rtcbare.checkSixty (Hms.ofBits i.iAlarmTime).mm
  hh := i.iValid.getLsbD 2 && Rtcbare.checkHour (Hms.ofBits i.iAlarmTime).hh

variable (c : Config) (s : Rtcalarm) (i : Input)

/-- `pre_valid` -/
def preValidWire : Fields :=
  if c.optPrevalidatedInput then
    if !c.optFixedAlarmTime && i.iWr then validFields i.iValid else .none
  else s.preValid

/-- `validated_alarm_time` -/
def validatedWire : Hms :=
  if c.optPrevalidatedInput then .ofBits (i.iValid.setWidth 22) else s.validatedAlarmTime

/-- One clock of `rtcalarm`. -/
def step : Rtcalarm where
  enabled := if i.iReset then c.optStartEnabled else if i.iWr then i.iEnable else s.enabled
  pastTime := i.iNow
  tripped :=
    if i.iReset then false
    else if s.enabled && (i.iNow = s.alarmTime.bits && i.iNow ≠ s.pastTime) then true
    else if i.iWr && i.iClear then false
    else s.tripped
  preValid := if i.iReset || !i.iWr || c.optFixedAlarmTime then .none else check i
  validatedAlarmTime := .ofBits i.iAlarmTime
  alarmTime :=
    if i.iReset then .ofBits c.optInitialAlarmTime
    else if !c.optFixedAlarmTime then
      { ss := if (preValidWire c s i).ss then (validatedWire c s i).ss else s.alarmTime.ss
        mm := if (preValidWire c s i).mm then (validatedWire c s i).mm else s.alarmTime.mm
        hh := if (preValidWire c s i).hh then (validatedWire c s i).hh else s.alarmTime.hh }
    else s.alarmTime

/-- `o_data` -/
def oData : BitVec 32 :=
  0#6 ++ BitVec.ofBool s.tripped ++ BitVec.ofBool s.enabled ++ 0#2 ++ s.alarmTime.bits

/-- `o_alarm` -/
def oAlarm : Bool := s.tripped

/-- The registers at power up; the times that were seen and written before are arbitrary. -/
structure Initial : Prop where
  enabled : s.enabled = c.optStartEnabled
  tripped : s.tripped = false
  preValid : s.preValid = .none
  alarmTime : s.alarmTime = .ofBits c.optInitialAlarmTime

end Rtcalarm

end ZBasic
