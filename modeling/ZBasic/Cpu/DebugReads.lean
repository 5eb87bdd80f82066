import ZBasic.Clocked.Run
import ZBasic.Cpu.Zipsystem

/-!
# Reads of the debugger

The debugger writes the address of a register to the command register and reads the data
register. The access is acknowledged a clock after it is made, but a peripheral's value goes
through `ack_idx` and `sys_idata`, which takes a clock more. What is returned is what the
internal bus shows of the peripheral that was accessed before.
-/

namespace ZBasic

open Clocked

namespace Zipsystem

variable {aw : ℕ}

/-! ### The registers -/

/-- The peripheral register at address `a` of the internal bus. -/
def peripheral (s : Zipsystem aw) (a : BitVec 5) : BitVec 32 :=
  if a.getLsbD 4 then s.dmaController.register (a.setWidth 2)
  else if a.getLsbD 3 then (s.counters (a.setWidth 3)).oWbData
  else if a.getLsbD 2 then
    match a.setWidth 2 with
    | 0 => s.timerA.oWbData
    | 1 => s.timerB.oWbData
    | 2 => s.timerC.oWbData
    | 3 => s.jiffies.oWbData
  else
    match a.setWidth 2 with
    | 0 => s.pic.status
    | 1 => s.watchdog.oWbData
    | 2 => s.wdbusData
    | 3 => s.ctri.status

/-- The register that the debugger has selected by writing `a` to the command register. -/
def debugRegister (s : Zipsystem aw) (i : Input aw) (a : BitVec 6) : BitVec 32 :=
  if a.getLsbD 5 then s.peripheral (a.setWidth 5) else i.cpu.debugReg (a.setWidth 5)

/-- The `ack_idx` of an address of the internal bus. -/
def ackIdxOf (a : BitVec 5) : BitVec 3 :=
  if a.getLsbD 4 then 6
  else if a.getLsbD 3 then 5
  else if a.getLsbD 2 then 4
  else
    match a.setWidth 2 with
    | 0 => 7
    | 1 => 1
    | 2 => 2
    | 3 => 3

section Wires

variable (s : Zipsystem aw) (i : Input aw)

/-- An access of the debugger is made. -/
def dbgAccess : Bool := s.dbgStb && !s.dbgStall i

/-- The data register is read. -/
def dataRead : Bool := s.dbgAccess i && !s.dbgWe && s.dbgAddr

/-- `i_dbg_addr` of what the debugger has on the bus next. -/
def nextAddr : Bool :=
  if s.wbdelay.rStb then s.wbdelay.r.addr.getLsbD 0 else i.iDbgAddr.getLsbD 0

end Wires

/-! ### What a read returns -/

variable {s₀ : Zipsystem aw} {inp : ℕ → Input aw} {n : ℕ}

/-- If the data register is read at clock `n + 1`, and the read is acknowledged, which takes
two clocks, what is returned is what the selected register holds at some clock of the
access. -/
def Answered (s : ℕ → Zipsystem aw) (inp : ℕ → Input aw) (n : ℕ) : Prop :=
  (s (n + 1)).dataRead (inp (n + 1)) = true → (s (n + 3)).wbdelay.oWbAck = true →
    ∃ k, n ≤ k ∧ k ≤ n + 3
      ∧ (s (n + 3)).wbdelay.oWbData = (s k).debugRegister (inp k) (s (n + 1)).cmdAddr

/-- A read at the clock after the one before which the state is `s`, at `s'` with inputs
`i`, of a register that shows on `sys_idata` already. -/
structure Shown (s s' : Zipsystem aw) (i : Input aw) : Prop where
  /-- The debugger keeps the address of the data register on the bus. -/
  stays : s'.nextAddr i = true
  /-- The last access on the internal bus was to the same peripheral. -/
  same : s'.cmdAddr.getLsbD 5 = true → s'.ackIdx = ackIdxOf (s'.cmdAddr.setWidth 5)
  /-- One of the timers and counters is selected by the address on the bus. -/
  timer : s'.cmdAddr.getLsbD 5 = true → s'.ackIdx = 4 →
    (s'.sysAddr i).setWidth 2 = s'.cmdAddr.setWidth 2
  counter : s'.cmdAddr.getLsbD 5 = true → s'.ackIdx = 5 →
    (s'.sysAddr i).setWidth 3 = s'.cmdAddr.setWidth 3
  /-- The DMA controller takes its address a clock before. -/
  dmac : s'.cmdAddr.getLsbD 5 = true → s'.ackIdx = 6 →
    s.cmdReset = false ∧ s.dmaController.core.rSAddr = s'.cmdAddr.setWidth 2

/-! ### A clock -/

section Step

variable (s : Zipsystem aw) (i : Input aw)

variable {s i}

end Step

/-- What shows on `sys_idata` after a clock is what the peripheral holds, or held a clock
before. -/
theorem Shown.nextSys {s : Zipsystem aw} {i i' : Input aw} (h : Shown s (s.step i) i')
    (hsel : (s.step i).cmdAddr.getLsbD 5 = true) :
  ((s.step i).nextSys i').2 = (s.step i).peripheral ((s.step i).cmdAddr.setWidth 5)
    ∨ ((s.step i).nextSys i').2 = s.peripheral ((s.step i).cmdAddr.setWidth 5)
  := by
  have hsame := h.same hsel
  have htimer := h.timer hsel
  have hcounter := h.counter hsel
  have hdmac := h.dmac hsel
  generalize (s.step i).cmdAddr = a at hsame htimer hcounter hdmac ⊢
  have hlow : (a.setWidth 5).setWidth 2 = a.setWidth 2 := by simp
  have hlow' : (a.setWidth 5).setWidth 3 = a.setWidth 3 := by simp
  rw [peripheral, peripheral, Zipsystem.nextSys, hsame]
  rw [hsame] at htimer hcounter hdmac
  cases h4 : (a.setWidth 5).getLsbD 4 with
  | true =>
      simp only [ackIdxOf, h4, if_true] at hdmac ⊢
      right
      obtain ⟨hreset, haddr⟩ := hdmac trivial
      simp [step, WbdmacPort.step, dmacInput, hreset, haddr]
  | false =>
      cases h3 : (a.setWidth 5).getLsbD 3 with
      | true =>
          simp only [ackIdxOf, h4, h3, if_true, if_false, Bool.false_eq_true] at hcounter ⊢
          left
          rw [hlow', actrData, hcounter trivial]
          rfl
      | false =>
          cases h2 : (a.setWidth 5).getLsbD 2 with
          | true =>
              simp only [ackIdxOf, h4, h3, h2, if_true, if_false, Bool.false_eq_true] at htimer ⊢
              left
              rw [hlow, tmrData, htimer trivial]
              rfl
          | false =>
              simp only [ackIdxOf, h4, h3, h2, if_false, Bool.false_eq_true]
              generalize (a.setWidth 5).setWidth 2 = b
              obtain rfl | rfl | rfl | rfl : b = 0#2 ∨ b = 1#2 ∨ b = 2#2 ∨ b = 3#2 := by bv_omega
              · right
                rfl
              · left
                rfl
              · left
                rfl
              · right
                rfl

/-- A timer at power up. -/
def idleTimer (reloadable : Bool) : Ziptimer reloadable where
  rRunning := false
  rZero := true
  rValue := 0
  oInt := false
  rAutoReload := false
  rIntervalCount := 0

/-- An interrupt controller at power up. -/
def idleControl : Icontrol where
  rIntState := 0
  rIntEnable := 0
  rMie := false
  oInterrupt := false
  oWbData := 0

/-- The DMA controller at power up. -/
def idleDmac : WbdmacPort 23 where
  core :=
    { rSStb := false, rSWe := false, rSAddr := 0, rSData := 0, dmaState := .idle,
      cfgLenNonzero := false, cfgWaddr := 0, cfgRaddr := 0, cfgLen := 0,
      cfgBlocklenSubOne := 0x3ff, cfgIncs := false, cfgIncd := false, cfgDevTrigger := 0,
      cfgOnDevTrigger := false, dmaMem := fun _ => 0, nread := 0, nwritten := 0, nwacks := 0,
      nracks := 0, lastReadRequest := false, lastReadAck := false, lastWriteRequest := false,
      lastWriteAck := false, trigger := false, abort := false, userHalt := false,
      oMwbAddr := 0, oMwbData := 0, rdaddr := 0, oInterrupt := false }
  cfgErr := false
  oSwbAck := false
  oSwbData := 0

/-- The ZipSystem at power up. -/
def powerUp : Zipsystem 23 where
  wbdelay :=
    { oDlyCyc := false, oDlyStb := false, oDly := ⟨false, 0, 0, 0⟩, rStb := false,
      r := ⟨false, 0, 0, 0⟩, oWbAck := false, oWbData := 0, oWbErr := false }
  dbgAck := false
  resetCounter := 20
  resetHold := true
  cmdReset := true
  cmdHalt := true
  cpuHalt := true
  cmdStep := false
  cmdAddr := 0
  watchdog := idleTimer false
  watchbus := { rValue := BitVec.allOnes 14, oInt := false }
  rWdbusData := 0
  counters := fun _ => { oInt := false, oWbData := 0 }
  dmaController := idleDmac
  ctri := idleControl
  timerA := idleTimer true
  timerB := idleTimer true
  timerC := idleTimer true
  jiffies := ⟨0, false, false, 0, 0, 0, false⟩
  pic := idleControl
  rMmusAck := false
  rAOwner := true
  ackIdx := 0
  lastSysStb := false
  sysAck := false
  sysIdata := 0
  cpuDbgData := 0

end Zipsystem

end ZBasic
