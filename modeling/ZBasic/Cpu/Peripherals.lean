import ZBasic.Cpu.Wbdmac

/-!
# The peripherals of the ZipSystem

The timers, the jiffies counter, the accounting counters, the interrupt controllers, the bus
watchdog and the slave port of the DMA controller. Each of them shows what a read of it
returns on `o_wb_data`.
-/

namespace ZBasic

/-- The inputs that the peripherals have in common, with `bw` bits of data. -/
structure PeripheralInput (bw : ℕ) where
  iReset : Bool
  iCe : Bool
  iWbStb : Bool
  iWbWe : Bool
  iWbData : BitVec bw

/-- A write to the peripheral. -/
def PeripheralInput.wbWrite {bw : ℕ} (i : PeripheralInput bw) : Bool := i.iWbStb && i.iWbWe

/-! ### Timers -/

/-- The registers of `ziptimer`, of 32 bits; without `RELOADABLE` the last two are not
there. -/
structure Ziptimer (reloadable : Bool) where
  rRunning : Bool
  rZero : Bool
  rValue : BitVec 31
  oInt : Bool
  rAutoReload : Bool
  rIntervalCount : BitVec 31

namespace Ziptimer

variable {reloadable : Bool} (s : Ziptimer reloadable) (i : PeripheralInput 32)

/-- `auto_reload` -/
def autoReload : Bool := reloadable && s.rAutoReload

/-- `interval_count` -/
def intervalCount : BitVec 31 := if reloadable then s.rIntervalCount else 0

/-- `o_wb_data` -/
def oWbData : BitVec 32 := BitVec.ofBool s.autoReload ++ s.rValue

/-- One clock of `ziptimer`. -/
def step : Ziptimer reloadable where
  rRunning :=
    if i.iReset then false
    else if i.wbWrite then i.iWbData.setWidth 31 ≠ 0
    else if s.rZero && !s.autoReload then false
    else s.rRunning
  rZero :=
    if i.iReset then true
    else if i.wbWrite then i.iWbData.setWidth 31 = 0
    else if s.rRunning && i.iCe then
      (if s.rValue = 1 then true else if s.rZero && s.autoReload then false else s.rZero)
    else s.rZero
  rValue :=
    if i.iReset then 0
    else if i.wbWrite then i.iWbData.setWidth 31
    else if i.iCe && s.rRunning then
      (if !s.rZero then s.rValue - 1 else if s.autoReload then s.intervalCount else s.rValue)
    else s.rValue
  oInt := if i.iReset || i.wbWrite || !i.iCe then false else s.rValue = 1
  rAutoReload :=
    if i.iReset then false
    else if i.wbWrite then i.iWbData.getLsbD 31 && i.iWbData.setWidth 31 ≠ 0
    else s.rAutoReload
  rIntervalCount := if i.wbWrite then i.iWbData.setWidth 31 else s.rIntervalCount

end Ziptimer

/-! ### Jiffies -/

/-- The registers of `zipjiffies`, of `bw` bits. -/
structure Zipjiffies (bw : ℕ) where
  rCounter : BitVec bw
  intSet : Bool
  newSet : Bool
  intWhen : BitVec bw
  newWhen : BitVec bw
  tillWb : BitVec bw
  oInt : Bool

namespace Zipjiffies

variable {bw : ℕ} (s : Zipjiffies bw) (i : PeripheralInput bw)

/-- `till_when` -/
def tillWhen : BitVec bw := s.intWhen - s.rCounter

/-- `o_wb_data` -/
def oWbData : BitVec bw := s.rCounter

/-- One clock of `zipjiffies`; the times to go are signed. -/
def step : Zipjiffies bw where
  rCounter := if i.iReset then 0 else if i.iCe then s.rCounter + 1 else s.rCounter
  newSet := if i.iReset then false else i.wbWrite
  newWhen := i.iWbData
  tillWb := i.iWbData - s.rCounter - (BitVec.ofBool i.iCe).setWidth bw
  oInt :=
    if i.iReset then false
    else i.iCe && s.intSet && s.rCounter = s.intWhen || s.newSet && s.tillWb.sle 0
  intSet :=
    if i.iReset then false
    else if s.newSet && (BitVec.ofNat bw 0).slt s.tillWb then true
    else if i.iCe && s.rCounter = s.intWhen then false
    else s.intSet
  intWhen :=
    if s.newSet && (BitVec.ofNat bw 0).slt s.tillWb && (s.tillWb.slt s.tillWhen || !s.intSet) then s.newWhen
    else s.intWhen

end Zipjiffies

/-! ### Accounting counters -/

/-- The registers of `zipcounter`. -/
structure Zipcounter where
  oInt : Bool
  oWbData : BitVec 32

/-- One clock of `zipcounter`, `i_ce` being its `i_event`; the carry is the interrupt. -/
def Zipcounter.step (s : Zipcounter) (i : PeripheralInput 32) : Zipcounter where
  oInt :=
    if i.iReset || i.wbWrite then false
    else i.iCe && s.oWbData = BitVec.allOnes 32
  oWbData :=
    if i.iReset then 0
    else if i.wbWrite then i.iWbData
    else if i.iCe then s.oWbData + 1
    else s.oWbData

/-! ### Interrupt controllers -/

/-- The registers of `icontrol`, for 15 interrupts. -/
structure Icontrol where
  rIntState : BitVec 15
  rIntEnable : BitVec 15
  rMie : Bool
  oInterrupt : Bool
  oWbData : BitVec 32

namespace Icontrol

variable (s : Icontrol) (i : PeripheralInput 32) (iBrdInts : BitVec 15)

/-- `w_any` -/
def wAny : Bool := s.rIntState &&& s.rIntEnable ≠ 0

/-- What the controller holds, as it is read. -/
def status : BitVec 32 :=
  BitVec.ofBool s.rMie ++ s.rIntEnable ++ BitVec.ofBool s.wAny ++ s.rIntState

/-- `enable_ints` -/
def enableInts : Bool := i.wbWrite && i.iWbData.getLsbD 15

/-- `disable_ints` -/
def disableInts : Bool := i.wbWrite && !i.iWbData.getLsbD 15

/-- One clock of `icontrol`. -/
def step : Icontrol where
  rIntState :=
    if i.iReset then 0
    else if i.wbWrite then iBrdInts ||| s.rIntState &&& ~~~i.iWbData.setWidth 15
    else s.rIntState ||| iBrdInts
  rIntEnable :=
    if i.iReset then 0
    else if enableInts i then s.rIntEnable ||| i.iWbData.extractLsb' 16 15
    else if disableInts i then s.rIntEnable &&& ~~~i.iWbData.extractLsb' 16 15
    else s.rIntEnable
  rMie :=
    if i.iReset then false
    else if enableInts i && i.iWbData.getLsbD 31 then true
    else if disableInts i && i.iWbData.getLsbD 31 then false
    else s.rMie
  oInterrupt := if i.iReset then false else s.rMie && s.wAny
  oWbData := s.status

end Icontrol

/-! ### The bus watchdog -/

/-- The registers of `wbwatchdog`, of 14 bits. -/
structure Wbwatchdog where
  rValue : BitVec 14
  oInt : Bool

/-- One clock of `wbwatchdog`. -/
def Wbwatchdog.step (s : Wbwatchdog) (iReset : Bool) (iTimeout : BitVec 14) : Wbwatchdog where
  rValue := if iReset then iTimeout else if !s.oInt then s.rValue - 1 else s.rValue
  oInt := if iReset then false else if !s.oInt then s.rValue = 1 else s.oInt

/-! ### The DMA controller as a slave -/

/-- `wbdmac` with what its slave port returns. -/
structure WbdmacPort (aw : ℕ) where
  core : Wbdmac aw
  cfgErr : Bool
  oSwbAck : Bool
  oSwbData : BitVec 32

namespace WbdmacPort

variable {aw : ℕ} (s : WbdmacPort aw)

/-- The four registers as they are read. -/
def register (a : BitVec 2) : BitVec 32 :=
  match a with
  | 0 =>
      BitVec.ofBool (s.core.dmaState ≠ .idle) ++ BitVec.ofBool s.cfgErr
        ++ BitVec.ofBool (!s.core.cfgIncs) ++ BitVec.ofBool (!s.core.cfgIncd) ++ 0#1
        ++ s.core.nread ++ BitVec.ofBool s.core.cfgOnDevTrigger ++ s.core.cfgDevTrigger
        ++ s.core.cfgBlocklenSubOne
  | 1 => s.core.cfgLen.setWidth 32
  | 2 => (s.core.cfgRaddr ++ 0#2).setWidth 32
  | 3 => (s.core.cfgWaddr ++ 0#2).setWidth 32

/-- One clock of `wbdmac`. -/
def step (iSwbCyc : Bool) (i : Wbdmac.Input) : WbdmacPort aw where
  core := s.core.step i
  cfgErr :=
    if i.iReset then false
    else if s.core.dmaState = .idle then (if s.core.command 0 then false else s.cfgErr)
    else if i.iMwbErr && s.core.oMwbCyc || s.core.abort then true
    else s.cfgErr
  oSwbAck := if i.iReset || !iSwbCyc then false else s.core.rSStb
  oSwbData := if i.iReset then 0 else s.register s.core.rSAddr

end WbdmacPort

end ZBasic
