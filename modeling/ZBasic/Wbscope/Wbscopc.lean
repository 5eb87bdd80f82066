import ZBasic.Clocked.Ring
import ZBasic.Clocked.Run

/-!
# The compressed scope

`wbscopc` records a sample at every `i_ce`, but for a sample that is the same as the one before it
only a count, which takes the place of a count before it. What is written goes through two
registers, so that a count that is followed by another one is left out. Here the samples, of `e`
bits, come with the clock of the bus; counts have `st` bits and are at most `maxStep`.
-/

namespace ZBasic

open Clocked

/-- The registers of `wbscopc`. -/
structure Wbscopc (lg e b st : ℕ) where
  brConfig : BitVec 3
  brHoldoff : BitVec b
  drTriggered : Bool
  drPrimed : Bool
  holdoffCounter : BitVec b
  drStopped : Bool
  drStopPipe : BitVec 5
  drForceWrite : Bool
  drForceInhibit : Bool
  ckAddr : BitVec st
  drRunTimeout : Bool
  newData : Bool
  qdData : BitVec e
  immAdr : Bool
  lstAdr : Bool
  lstVal : BitVec 31
  immVal : BitVec 31
  recordCe : Bool
  rData : BitVec 32
  waddr : BitVec lg
  mem : BitVec lg → BitVec 32
  raddr : BitVec lg
  brPreWbAck : Bool
  brWbAck : Bool
  thisAddr : BitVec lg
  nxtMem : BitVec 32
  oWbData : BitVec 32
  brLevelInterrupt : Bool

namespace Wbscopc

variable {lg e b st : ℕ}

/-- The inputs at a clock. -/
structure Input (e : ℕ) where
  iCe : Bool
  iTrigger : Bool
  iData : BitVec e
  iWbCyc : Bool
  iWbStb : Bool
  iWbWe : Bool
  iWbAddr : Bool
  iWbData : BitVec 32

/-- The data port is read. -/
def Input.readsData (i : Input e) : Bool := i.iWbStb && i.iWbAddr && !i.iWbWe

/-- The data port is written to. -/
def Input.writesData (i : Input e) : Bool := i.iWbStb && i.iWbAddr && i.iWbWe

section Wires

variable (p : Wbscopc lg e b st) (i : Input e)

/-- `dw_reset`, which is also `bw_reset_request` and `bw_reset_complete`. -/
def dwReset : Bool := !p.brConfig.getLsbD 2

/-- `dw_manual_trigger` -/
def dwManualTrigger : Bool := p.brConfig.getLsbD 1

/-- `dw_disable_trigger` -/
def dwDisableTrigger : Bool := p.brConfig.getLsbD 0

/-- `dw_trigger` -/
def dwTrigger : Bool :=
  p.drPrimed && (i.iTrigger && !p.dwDisableTrigger || p.dwManualTrigger)

/-- `dw_final_stop`, which is also `bw_stopped`. -/
def dwFinalStop : Bool := p.drStopPipe.getLsbD 4

/-- `w_data` -/
def wData : BitVec 31 := p.qdData.setWidth 31

/-- A data word is to be written, and not a count. -/
def writesValue : Bool := p.newData || p.drForceWrite || p.drStopped

/-- `o_wb_ack` -/
def oWbAck : Bool := i.iWbCyc && p.brWbAck

/-- `o_interrupt` -/
def oInterrupt : Bool := p.dwFinalStop && !p.dwDisableTrigger && !p.brLevelInterrupt

/-- The status word. -/
def status : BitVec 32 :=
  BitVec.ofBool p.dwReset ++ BitVec.ofBool p.dwFinalStop ++ BitVec.ofBool p.drTriggered
    ++ BitVec.ofBool p.drPrimed ++ BitVec.ofBool p.dwManualTrigger
    ++ BitVec.ofBool p.dwDisableTrigger ++ BitVec.ofBool (p.raddr == 0) ++ BitVec.ofNat 5 lg
    ++ p.brHoldoff.setWidth 20

/-- One clock of `wbscopc`. -/
def step (maxStep : BitVec st) : Wbscopc lg e b st where
  brConfig :=
    if i.iWbStb && !i.iWbAddr then
      if i.iWbWe then
        BitVec.ofBool (i.iWbData.getLsbD 31) ++ BitVec.ofBool (i.iWbData.getLsbD 27)
          ++ BitVec.ofBool (i.iWbData.getLsbD 26)
      else p.brConfig
    else if p.dwReset then 1#1 ++ p.brConfig.extractLsb' 0 2
    else p.brConfig
  brHoldoff :=
    if i.iWbStb && !i.iWbAddr && i.iWbWe then i.iWbData.extractLsb' 0 b else p.brHoldoff
  drTriggered :=
    if p.dwReset then false
    else if i.iCe && p.dwTrigger i then true
    else p.drTriggered
  holdoffCounter :=
    if p.dwReset then 0
    else if i.iCe && p.drTriggered && !p.drStopped then p.holdoffCounter + 1
    else p.holdoffCounter
  drStopped :=
    if !p.drTriggered || p.dwReset then false
    else if i.iCe && !p.drStopped then
      if 1 < b then p.holdoffCounter ≥ p.brHoldoff else i.iCe && p.dwTrigger i
    else p.drStopped
  drStopPipe :=
    if p.dwReset then 0
    else if i.iCe then p.drStopPipe.extractLsb' 0 4 ++ BitVec.ofBool p.drStopped
    else p.drStopPipe
  drForceWrite :=
    if p.dwReset then true
    else if i.iCe then
      if p.drRunTimeout && !p.drForceWrite && !p.drForceInhibit then true
      else p.dwTrigger i && !p.drTriggered || !p.drPrimed
    else p.drForceWrite
  drForceInhibit :=
    if p.dwReset then false
    else if i.iCe then p.drForceWrite
    else p.drForceInhibit
  ckAddr :=
    if p.dwReset then 0
    else if i.iCe then if p.writesValue then 0 else p.ckAddr + 1
    else p.ckAddr
  drRunTimeout :=
    if p.dwReset then true
    else if i.iCe then p.ckAddr ≥ maxStep - 1
    else p.drRunTimeout
  newData :=
    if p.dwReset then true
    else if i.iCe then i.iData != p.qdData
    else p.newData
  qdData := if i.iCe then i.iData else p.qdData
  immVal :=
    if p.dwReset then 0
    else if i.iCe then if p.writesValue then p.wData else p.ckAddr.setWidth 31
    else p.immVal
  immAdr :=
    if p.dwReset then true
    else if i.iCe then !p.writesValue
    else p.immAdr
  lstVal := if p.dwReset then 0 else if i.iCe then p.immVal else p.lstVal
  lstAdr := if p.dwReset then true else if i.iCe then p.immAdr else p.lstAdr
  recordCe := i.iCe && (!p.lstAdr || !p.immAdr) && !p.drStopPipe.getLsbD 2
  rData :=
    if !p.lstAdr || !p.immAdr then BitVec.ofBool p.lstAdr ++ p.lstVal
    else p.qdData.setWidth 32
  waddr :=
    if p.dwReset then 0
    else if p.recordCe then p.waddr + 1
    else p.waddr
  drPrimed :=
    if p.dwReset then false
    else if p.recordCe then p.drPrimed || p.waddr == BitVec.allOnes lg
    else p.drPrimed
  mem := if p.recordCe then Function.update p.mem p.waddr p.rData else p.mem
  raddr :=
    if p.dwReset || i.writesData then 0
    else if i.readsData && p.dwFinalStop then p.raddr + 1
    else p.raddr
  brPreWbAck := i.iWbStb
  brWbAck := p.brPreWbAck && i.iWbCyc
  thisAddr := if i.readsData then p.raddr + p.waddr + 1 else p.raddr + p.waddr
  nxtMem := p.mem p.thisAddr
  oWbData :=
    if !i.iWbAddr then p.status
    else if !p.dwFinalStop then 0#1 ++ p.wData
    else p.nxtMem
  brLevelInterrupt := !p.dwReset && p.dwFinalStop && !p.dwDisableTrigger

end Wires

end Wbscopc

end ZBasic
