import ZBasic.Cpu.Busdelay
import ZBasic.Cpu.Peripherals

/-!
# The ZipSystem

The CPU's peripherals hang on an internal bus, which the CPU uses as its local bus, and the
debugger through its data register when bit 5 of `cmd_addr` is set. The debug port reaches
the ZipSystem through a bus delay. Whatever the CPU does is an input here; so are its
registers, of which the debugger reads the one selected by the lower bits of `cmd_addr`.
-/

namespace ZBasic

/-- The wires that come out of the CPU, and the registers that the debugger can read, for
addresses of `aw` bits. -/
structure CpuWires (aw : ℕ) where
  cpuLclCyc : Bool
  cpuLclStb : Bool
  cpuGblCyc : Bool
  cpuGblStb : Bool
  cpuWe : Bool
  cpuAddr : BitVec aw
  cpuData : BitVec 32
  /-- `o_dbg_stall` of the CPU, that is `!r_halted`. -/
  cpuDbgStall : Bool
  cpuDbgCc : BitVec 4
  cpuBreak : Bool
  cpuOpStall : Bool
  cpuPfStall : Bool
  cpuICount : Bool
  regset : BitVec 5 → BitVec 32
  /-- `upc[AW+1:2]` and `ipc[AW+1:2]` -/
  upc : BitVec aw
  ipc : BitVec aw
  uhaltPhase : Bool
  ihaltPhase : Bool
  wUflags : BitVec 16
  wIflags : BitVec 16
  wCpuInfo : BitVec 9
  gie : Bool

namespace CpuWires

variable {aw : ℕ} (c : CpuWires aw) (iDbgReg : BitVec 5)

/-- `debug_pc` -/
def debugPc : BitVec 32 :=
  if iDbgReg.getLsbD 4 then (c.upc ++ BitVec.ofBool c.uhaltPhase ++ 0#1).setWidth 32
  else (c.ipc ++ BitVec.ofBool c.ihaltPhase ++ 0#1).setWidth 32

/-- The condition code register of the CPU as the debugger reads it: flags, what the CPU is
built with, and the mode. -/
def debugCc : BitVec 32 :=
  let held := c.regset iDbgReg
  c.wCpuInfo ++ held.extractLsb' 16 7
    ++ (if iDbgReg.getLsbD 4 then c.wUflags else c.wIflags).extractLsb' 6 10
    ++ BitVec.ofBool c.gie
    ++ (if iDbgReg.getLsbD 4 then c.wUflags else c.wIflags).extractLsb' 0 5

/-- The CPU register selected by `i_dbg_reg`. -/
def debugReg : BitVec 32 :=
  if iDbgReg.setWidth 4 = 15#4 then c.debugPc iDbgReg
  else if iDbgReg.setWidth 4 = 14#4 then c.debugCc iDbgReg
  else c.regset iDbgReg

end CpuWires

/-- The registers of `zipsystem` and of what it is made of, the CPU apart. -/
structure Zipsystem (aw : ℕ) where
  wbdelay : Busdelay 1 32
  dbgAck : Bool
  resetCounter : BitVec 5
  resetHold : Bool
  cmdReset : Bool
  cmdHalt : Bool
  cpuHalt : Bool
  cmdStep : Bool
  cmdAddr : BitVec 6
  watchdog : Ziptimer false
  watchbus : Wbwatchdog
  rWdbusData : BitVec aw
  /-- The accounting counters, in the order of their addresses. -/
  counters : BitVec 3 → Zipcounter
  dmaController : WbdmacPort aw
  ctri : Icontrol
  timerA : Ziptimer true
  timerB : Ziptimer true
  timerC : Ziptimer true
  jiffies : Zipjiffies 32
  pic : Icontrol
  rMmusAck : Bool
  /-- `r_a_owner` of the arbiter between the CPU and the DMA controller. -/
  rAOwner : Bool
  ackIdx : BitVec 3
  lastSysStb : Bool
  sysAck : Bool
  sysIdata : BitVec 32
  /-- `o_dbg_reg` of the CPU. -/
  cpuDbgData : BitVec 32

namespace Zipsystem

variable {aw : ℕ}

/-- The inputs of `zipsystem` at a clock. -/
structure Input (aw : ℕ) where
  iReset : Bool
  iWbStall : Bool
  iWbAck : Bool
  iWbData : BitVec 32
  iWbErr : Bool
  iExtInt : BitVec 16
  iDbgCyc : Bool
  iDbgStb : Bool
  iDbgWe : Bool
  iDbgAddr : BitVec 1
  iDbgData : BitVec 32
  cpu : CpuWires aw

section Wires

variable (s : Zipsystem aw) (i : Input aw)

/-! ### The debug port -/

/-- `dbg_cyc` -/
def dbgCyc : Bool := s.wbdelay.oDlyCyc

/-- `dbg_stb` -/
def dbgStb : Bool := s.wbdelay.oDlyStb

/-- `dbg_we` -/
def dbgWe : Bool := s.wbdelay.oDly.we

/-- `dbg_addr` -/
def dbgAddr : Bool := s.wbdelay.oDly.addr.getLsbD 0

/-- `dbg_idata` -/
def dbgIdata : BitVec 32 := s.wbdelay.oDly.data

/-- `dbg_cmd_write` -/
def dbgCmdWrite : Bool := s.dbgStb && s.dbgWe && !s.dbgAddr

/-- `sys_dbg_cyc` -/
def sysDbgCyc : Bool := s.dbgCyc && !i.cpu.cpuLclCyc && s.dbgAddr && s.cmdAddr.getLsbD 5

/-- `dbg_stall`; the internal bus never stalls. -/
def dbgStall : Bool := s.dbgCyc && (!s.sysDbgCyc i && i.cpu.cpuDbgStall) && s.dbgAddr

/-- `cmd_data` -/
def cmdData : BitVec 32 :=
  i.iExtInt ++ i.cpu.cpuDbgCc ++ 0#1 ++ BitVec.ofBool s.cmdHalt
    ++ BitVec.ofBool (!i.cpu.cpuDbgStall) ++ 0#1 ++ s.pic.oWbData.extractLsb' 15 1
    ++ BitVec.ofBool s.cmdReset ++ s.cmdAddr

/-- `dbg_odata` -/
def dbgOdata : BitVec 32 :=
  if !s.dbgAddr then s.cmdData i
  else if !s.cmdAddr.getLsbD 5 then s.cpuDbgData
  else s.sysIdata

/-! ### The internal bus -/

/-- `sys_cyc` -/
def sysCyc : Bool := i.cpu.cpuLclCyc || s.sysDbgCyc i

/-- `sys_stb` -/
def sysStb : Bool :=
  if i.cpu.cpuLclCyc then i.cpu.cpuLclStb
  else s.dbgStb && s.dbgAddr && s.cmdAddr.getLsbD 5

/-- `sys_we` -/
def sysWe : Bool := if i.cpu.cpuLclCyc then i.cpu.cpuWe else s.dbgWe

/-- `sys_addr` -/
def sysAddr : BitVec 8 :=
  if i.cpu.cpuLclCyc then i.cpu.cpuAddr.setWidth 8 else 0#3 ++ s.cmdAddr.setWidth 5

/-- `sys_data` -/
def sysData : BitVec 32 := if i.cpu.cpuLclCyc then i.cpu.cpuData else s.dbgIdata

/-- `sel_pic` -/
def selPic : Bool := s.sysStb i && s.sysAddr i = 0x00#8

/-- `sel_watchdog` -/
def selWatchdog : Bool := s.sysStb i && s.sysAddr i = 0x01#8

/-- `sel_bus_watchdog` -/
def selBusWatchdog : Bool := s.sysStb i && s.sysAddr i = 0x02#8

/-- `sel_apic` -/
def selApic : Bool := s.sysStb i && s.sysAddr i = 0x03#8

/-- `sel_timer` -/
def selTimer : Bool := s.sysStb i && (s.sysAddr i).extractLsb' 2 6 = 1#6

/-- `sel_counter` -/
def selCounter : Bool := s.sysStb i && (s.sysAddr i).extractLsb' 3 5 = 1#5

/-- `sel_dmac` -/
def selDmac : Bool := s.sysStb i && (s.sysAddr i).extractLsb' 4 4 = 1#4

/-- `sel_mmus` -/
def selMmus : Bool := s.sysStb i && (s.sysAddr i).getLsbD 7

/-- `tmr_data` -/
def tmrData : BitVec 32 :=
  match (s.sysAddr i).setWidth 2 with
  | 0 => s.timerA.oWbData
  | 1 => s.timerB.oWbData
  | 2 => s.timerC.oWbData
  | 3 => s.jiffies.oWbData

/-- `actr_data` -/
def actrData : BitVec 32 := (s.counters ((s.sysAddr i).setWidth 3)).oWbData

/-- `wdbus_data` -/
def wdbusData : BitVec 32 := s.rWdbusData.setWidth 32

/-- `w_ack_idx` -/
def wAckIdx : BitVec 3 :=
  (if s.selMmus i then 0 else 0)
    ||| (if s.selWatchdog i then 1 else 0)
    ||| (if s.selBusWatchdog i then 2 else 0)
    ||| (if s.selApic i then 3 else 0)
    ||| (if s.selTimer i then 4 else 0)
    ||| (if s.selCounter i then 5 else 0)
    ||| (if s.selDmac i then 6 else 0)
    ||| (if s.selPic i then 7 else 0)

/-- The next `sys_ack` and `sys_idata`. -/
def nextSys : Bool × BitVec 32 :=
  match s.ackIdx with
  | 0 => (s.rMmusAck, 0)
  | 1 => (s.lastSysStb, s.watchdog.oWbData)
  | 2 => (s.lastSysStb, s.wdbusData)
  | 3 => (s.lastSysStb, s.ctri.oWbData)
  | 4 => (s.lastSysStb, s.tmrData i)
  | 5 => (s.lastSysStb, s.actrData i)
  | 6 => (s.dmaController.oSwbAck, s.dmaController.oSwbData)
  | 7 => (s.lastSysStb, s.pic.oWbData)

/-! ### Interrupts -/

/-- `main_int_vector` -/
def mainIntVector : BitVec 15 :=
  i.iExtInt.setWidth 9 ++ BitVec.ofBool s.ctri.oInterrupt ++ BitVec.ofBool s.timerA.oInt
    ++ BitVec.ofBool s.timerB.oInt ++ BitVec.ofBool s.timerC.oInt
    ++ BitVec.ofBool s.jiffies.oInt ++ BitVec.ofBool s.dmaController.core.oInterrupt

/-- `alt_int_vector` -/
def altIntVector : BitVec 15 :=
  i.iExtInt.extractLsb' 8 7 ++ BitVec.ofBool (s.counters 0).oInt
    ++ BitVec.ofBool (s.counters 1).oInt ++ BitVec.ofBool (s.counters 2).oInt
    ++ BitVec.ofBool (s.counters 3).oInt ++ BitVec.ofBool (s.counters 4).oInt
    ++ BitVec.ofBool (s.counters 5).oInt ++ BitVec.ofBool (s.counters 6).oInt
    ++ BitVec.ofBool (s.counters 7).oInt

/-- `dmac_int_vec` -/
def dmacIntVec : BitVec 32 :=
  0#1 ++ s.altIntVector i ++ 0#1 ++ (s.mainIntVector i).extractLsb' 1 14 ++ 0#1

/-! ### The external bus -/

/-- `ext_err` -/
def extErr : Bool := i.iWbErr || s.watchbus.oInt

/-- `cpu_err` -/
def cpuErr : Bool := s.rAOwner && s.extErr i && i.cpu.cpuGblCyc

/-- `o_wb_cyc` -/
def oWbCyc : Bool := if s.rAOwner then i.cpu.cpuGblCyc else s.dmaController.core.oMwbCyc

/-- `o_wb_stb` -/
def oWbStb : Bool := if s.rAOwner then i.cpu.cpuGblStb else s.dmaController.core.oMwbStb

/-- `o_wb_addr` -/
def oWbAddr : BitVec aw := if s.rAOwner then i.cpu.cpuAddr else s.dmaController.core.oMwbAddr

/-! ### A clock -/

/-- The inputs of the bus delay. -/
def delayInput : Busdelay.Input 1 32 where
  iReset := i.iReset
  iWbCyc := i.iDbgCyc
  iWbStb := i.iDbgStb
  iWb := { we := i.iDbgWe, addr := i.iDbgAddr, data := i.iDbgData, sel := 0xf }
  iDlyStall := s.dbgStall i
  iDlyAck := s.dbgAck
  iDlyData := s.dbgOdata i
  iDlyErr := false

/-- The inputs of a peripheral, which is strobed by `sel` and counts with `ce`. -/
def peripheralInput (iReset ce sel : Bool) : PeripheralInput 32 where
  iReset := iReset
  iCe := ce
  iWbStb := s.sysStb i && sel
  iWbWe := s.sysWe i
  iWbData := s.sysData i

/-- The inputs of timer `a`. -/
def timerInput (a : BitVec 2) : PeripheralInput 32 :=
  s.peripheralInput i s.cmdReset (!s.cmdHalt)
    (s.selTimer i && decide ((s.sysAddr i).setWidth 2 = a))

/-- What counter `a` counts. -/
def countEvent (a : BitVec 3) : Bool :=
  match a with
  | 0 => !s.cpuHalt
  | 1 => i.cpu.cpuOpStall
  | 2 => i.cpu.cpuPfStall
  | 3 => i.cpu.cpuICount
  | 4 => !s.cpuHalt && i.cpu.cpuDbgCc.getLsbD 1
  | 5 => i.cpu.cpuOpStall && i.cpu.cpuDbgCc.getLsbD 1
  | 6 => i.cpu.cpuPfStall && i.cpu.cpuDbgCc.getLsbD 1
  | 7 => i.cpu.cpuICount && i.cpu.cpuDbgCc.getLsbD 1

/-- The inputs of the DMA controller. -/
def dmacInput : Wbdmac.Input where
  iReset := s.cmdReset
  iSwbStb := s.sysStb i && s.selDmac i
  iSwbWe := s.sysWe i
  iSwbAddr := (s.sysAddr i).setWidth 2
  iSwbData := s.sysData i
  iMwbStall := if s.rAOwner then true else i.iWbStall
  iMwbAck := !s.rAOwner && i.iWbAck
  iMwbData := i.iWbData
  iMwbErr := !s.rAOwner && s.extErr i
  iDevInts := s.dmacIntVec i

/-- One clock of `zipsystem`. -/
def step : Zipsystem aw where
  wbdelay := s.wbdelay.step (s.delayInput i)
  dbgAck := s.dbgStb && !s.dbgStall i
  resetCounter :=
    if i.iReset then 20
    else if s.resetCounter > 0 then s.resetCounter - 1
    else s.resetCounter
  resetHold := if i.iReset then true else s.resetCounter ≠ 0
  cmdReset :=
    s.dbgCmdWrite && s.dbgIdata.getLsbD 6 || s.watchdog.oInt || s.resetHold
  cmdHalt :=
    if i.iReset then true
    else if s.dbgCmdWrite then s.dbgIdata.getLsbD 10 && !s.dbgIdata.getLsbD 8
    else s.cmdHalt
  cpuHalt :=
    if i.iReset then s.cmdHalt
    else if s.cmdReset then s.cmdHalt
    else if s.dbgCmdWrite then s.dbgIdata.getLsbD 10 && !s.dbgIdata.getLsbD 8
    else if s.cmdStep || i.cpu.cpuBreak then true
    else s.cpuHalt
  cmdStep := s.dbgCmdWrite && s.dbgIdata.getLsbD 8
  cmdAddr := if s.dbgCmdWrite then s.dbgIdata.setWidth 6 else s.cmdAddr
  watchdog := s.watchdog.step (s.peripheralInput i s.cmdReset (!s.cmdHalt) (s.selWatchdog i))
  watchbus :=
    s.watchbus.step (s.cmdReset || (!s.oWbCyc i || s.oWbStb i || i.iWbAck)) 0x2000
  rWdbusData := if s.watchbus.oInt || s.cpuErr i then s.oWbAddr i else s.rWdbusData
  counters := fun a =>
    (s.counters a).step (s.peripheralInput i false (s.countEvent i a)
      (s.selCounter i && decide ((s.sysAddr i).setWidth 3 = a)))
  dmaController := s.dmaController.step (s.sysCyc i) (s.dmacInput i)
  ctri := s.ctri.step (s.peripheralInput i s.cmdReset true (s.selApic i)) (s.altIntVector i)
  timerA := s.timerA.step (s.timerInput i 0)
  timerB := s.timerB.step (s.timerInput i 1)
  timerC := s.timerC.step (s.timerInput i 2)
  jiffies := s.jiffies.step (s.timerInput i 3)
  pic :=
    s.pic.step (s.peripheralInput i s.cmdReset true (s.sysCyc i && s.selPic i))
      (s.mainIntVector i)
  rMmusAck := s.sysStb i && (s.sysAddr i).getLsbD 7
  rAOwner :=
    if !s.dmaController.core.oMwbCyc then true
    else if s.dmaController.core.oMwbCyc && s.dmaController.core.oMwbStb && !i.cpu.cpuGblCyc then
      false
    else s.rAOwner
  ackIdx := if s.sysStb i then s.wAckIdx i else s.ackIdx
  lastSysStb := if i.iReset then false else s.sysStb i
  sysAck := if i.iReset || !s.sysCyc i then false else (s.nextSys i).1
  sysIdata := (s.nextSys i).2
  cpuDbgData := i.cpu.debugReg (s.cmdAddr.setWidth 5)

end Wires

end Zipsystem

end ZBasic
