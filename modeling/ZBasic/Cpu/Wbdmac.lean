import Mathlib.Data.BitVec
import Mathlib.Logic.Function.Basic

/-!
# The DMA controller

`wbdmac` copies words over the bus it is the master of. It reads a block of words into
its own memory and writes them out again, and repeats this until the configured number of
words has been copied. It is configured and started by writes to its four registers, which
reach it one clock late.
-/

namespace ZBasic

/-- `dma_state` -/
inductive DmaState where
  | idle
  | wait
  | readReq
  | readAck
  | preWrite
  | writeReq
  | writeAck
deriving DecidableEq, Repr

/-- The registers of `wbdmac`, for addresses of `aw` bits. -/
structure Wbdmac (aw : ℕ) where
  rSStb : Bool
  rSWe : Bool
  rSAddr : BitVec 2
  rSData : BitVec 32
  dmaState : DmaState
  cfgLenNonzero : Bool
  cfgWaddr : BitVec aw
  cfgRaddr : BitVec aw
  cfgLen : BitVec aw
  cfgBlocklenSubOne : BitVec 10
  cfgIncs : Bool
  cfgIncd : Bool
  cfgDevTrigger : BitVec 5
  cfgOnDevTrigger : Bool
  dmaMem : BitVec 10 → BitVec 32
  nread : BitVec 11
  nwritten : BitVec 11
  nwacks : BitVec 11
  nracks : BitVec 11
  lastReadRequest : Bool
  lastReadAck : Bool
  lastWriteRequest : Bool
  lastWriteAck : Bool
  trigger : Bool
  abort : Bool
  userHalt : Bool
  oMwbAddr : BitVec aw
  oMwbData : BitVec 32
  rdaddr : BitVec 10
  oInterrupt : Bool

namespace Wbdmac

variable {aw : ℕ}

/-- The inputs of `wbdmac` at a clock. -/
structure Input where
  iReset : Bool
  iSwbStb : Bool
  iSwbWe : Bool
  iSwbAddr : BitVec 2
  iSwbData : BitVec 32
  iMwbStall : Bool
  iMwbAck : Bool
  iMwbData : BitVec 32
  iMwbErr : Bool
  iDevInts : BitVec 32

section Wires

variable (s : Wbdmac aw)

/-- `o_mwb_cyc` -/
def oMwbCyc : Bool :=
  s.dmaState = .readReq || s.dmaState = .readAck || s.dmaState = .writeReq
    || s.dmaState = .writeAck

/-- `o_mwb_stb` -/
def oMwbStb : Bool := s.dmaState = .readReq || s.dmaState = .writeReq

/-- `o_mwb_we` -/
def oMwbWe : Bool :=
  s.dmaState = .preWrite || s.dmaState = .writeReq || s.dmaState = .writeAck

/-- A write to register `a`, `s_stb && s_we && s_addr == a`. -/
def command (a : BitVec 2) : Bool := s.rSStb && s.rSWe && s.rSAddr = a

/-- The key that starts a transfer. -/
def startKey : Bool :=
  s.rSData.extractLsb' 16 12 = 0xfed#12 && s.rSData.extractLsb' 30 2 = 0#2

/-- `{ 1'b0, cfg_blocklen_sub_one }` -/
def blocklenSubOne : BitVec 11 := s.cfgBlocklenSubOne.setWidth 11

/-- `nracks + c == { 1'b0, cfg_blocklen_sub_one }`; with a constant, arithmetic has at
least 32 bits. -/
def blockRequested (c : BitVec 32) : Bool :=
  s.nracks.setWidth 32 + c = s.blocklenSubOne.setWidth 32

/-- `bus_nracks == cfg_len - c` -/
def lenRequested (c : ℕ) : Bool :=
  (s.nracks.setWidth aw).setWidth (max aw 32)
    = s.cfgLen.setWidth (max aw 32) - BitVec.ofNat (max aw 32) c

/-- `next_nread` -/
def nextNread : BitVec 11 := s.nread + 1

variable (i : Input)

/-- An acknowledgement at a clock at which nothing is accepted. -/
def ackAlone : Bool := i.iMwbAck && (!s.oMwbStb || i.iMwbStall)

/-- The next `dma_state`. -/
def nextState : DmaState :=
  match s.dmaState with
  | .idle => if s.command 0 && s.startKey && s.cfgLenNonzero then .wait else .idle
  | .wait =>
      if s.abort then .idle
      else if s.userHalt then .idle
      else if s.trigger then .readReq
      else .wait
  | .readReq =>
      if i.iMwbErr || s.abort then .idle
      else if i.iMwbAck && s.lastReadAck then .preWrite
      else if !i.iMwbStall && (s.lastReadRequest || s.userHalt) then .readAck
      else .readReq
  | .readAck =>
      if i.iMwbErr || s.abort then .idle
      else if i.iMwbAck && s.userHalt then .idle
      else if i.iMwbAck && s.lastReadAck then .preWrite
      else .readAck
  | .preWrite => if s.abort then .idle else .writeReq
  | .writeReq =>
      if i.iMwbErr || s.abort then .idle
      else if i.iMwbAck && s.lastWriteAck then (if s.cfgLen ≤ 1 then .idle else .wait)
      else if !s.cfgLenNonzero then .idle
      else if !i.iMwbStall && s.lastWriteRequest then .writeAck
      else .writeReq
  | .writeAck =>
      if i.iMwbErr || s.abort then .idle
      else if i.iMwbAck && s.lastWriteAck then (if s.cfgLen ≤ 1 then .idle else .wait)
      else if !s.cfgLenNonzero then .idle
      else .writeAck

/-- The next `o_mwb_addr`. -/
def nextAddr : BitVec aw :=
  match s.dmaState with
  | .idle => s.cfgRaddr
  | .wait => s.cfgRaddr
  | .readReq => if !i.iMwbStall && s.cfgIncs then s.oMwbAddr + 1 else s.oMwbAddr
  | .preWrite => s.cfgWaddr
  | .writeReq => if !i.iMwbStall && s.cfgIncd then s.oMwbAddr + 1 else s.oMwbAddr
  | _ => s.oMwbAddr

/-- The next `cfg_raddr`. -/
def nextRaddr : BitVec aw :=
  match s.dmaState with
  | .idle => if s.command 2 then s.rSData.extractLsb' 2 aw else s.cfgRaddr
  | .readReq | .readAck =>
      if !(i.iMwbErr || s.abort) && i.iMwbAck && s.cfgIncs then s.cfgRaddr + 1 else s.cfgRaddr
  | _ => s.cfgRaddr

/-- The next `cfg_waddr`. -/
def nextWaddr : BitVec aw :=
  match s.dmaState with
  | .idle => if s.command 3 then s.rSData.extractLsb' 2 aw else s.cfgWaddr
  | .writeReq => if !i.iMwbStall && s.cfgIncd then s.cfgWaddr + 1 else s.cfgWaddr
  | _ => s.cfgWaddr

/-- The next `last_read_request`. -/
def nextLastReadRequest : Bool :=
  match s.dmaState with
  | .wait => s.blockRequested 0 || s.lenRequested 1
  | .readReq =>
      if !i.iMwbStall then s.blockRequested 1 || s.lenRequested 2
      else s.blockRequested 0 || s.lenRequested 1
  | _ => false

/-- The next `last_read_ack`. -/
def nextLastReadAck : Bool :=
  match s.dmaState with
  | .readReq =>
      if s.ackAlone i then s.nextNread = s.blocklenSubOne else s.nread = s.blocklenSubOne
  | .readAck =>
      if s.ackAlone i then s.nread.setWidth 32 + 2#32 = s.nracks.setWidth 32
      else s.nextNread = s.nracks
  | _ => false

/-- The next `last_write_request`. -/
def nextLastWriteRequest : Bool :=
  match s.dmaState with
  | .preWrite => s.nread ≤ 1
  | .writeReq =>
      if i.iMwbStall then s.nread.setWidth 32 - 1#32 ≤ s.nwritten.setWidth 32
      else s.nread.setWidth 32 - 2#32 ≤ s.nwritten.setWidth 32
  | _ => false

/-- The next `last_write_ack`. -/
def nextLastWriteAck : Bool :=
  match s.dmaState with
  | .writeReq | .writeAck =>
      if s.ackAlone i then s.nwacks.setWidth 32 + 2#32 = s.nwritten.setWidth 32
      else s.nwacks.setWidth 32 + 1#32 = s.nwritten.setWidth 32
  | _ => false

/-- A write to register `a` while the controller is idle. -/
def config (a : BitVec 2) : Bool := s.dmaState = .idle && s.command a

/-- The controller is between two blocks, or has nothing to do. -/
def between : Bool := s.dmaState = .idle || s.dmaState = .wait

/-- One clock of `wbdmac`. -/
def step : Wbdmac aw where
  rSStb := if i.iReset then false else i.iSwbStb
  rSWe := i.iSwbWe
  rSAddr := i.iSwbAddr
  rSData := i.iSwbData
  dmaState := if i.iReset then .idle else s.nextState i
  cfgLenNonzero :=
    if i.iReset then false
    else if s.config 1 then s.rSData.setWidth aw ≠ 0
    else if s.oMwbCyc && s.oMwbWe && i.iMwbAck then s.cfgLen > 1
    else s.cfgLenNonzero
  cfgWaddr := if i.iReset then s.cfgWaddr else s.nextWaddr i
  cfgRaddr := if i.iReset then s.cfgRaddr else s.nextRaddr i
  cfgLen :=
    if i.iReset then 0
    else if s.config 1 then s.rSData.setWidth aw
    else if s.oMwbCyc && s.oMwbWe && i.iMwbAck then s.cfgLen - 1
    else s.cfgLen
  cfgBlocklenSubOne :=
    if !i.iReset && s.config 0 then s.rSData.setWidth 10 + 0x3ff else s.cfgBlocklenSubOne
  cfgIncs :=
    if i.iReset then false else if s.config 0 then !s.rSData.getLsbD 29 else s.cfgIncs
  cfgIncd :=
    if i.iReset then false else if s.config 0 then !s.rSData.getLsbD 28 else s.cfgIncd
  cfgDevTrigger :=
    if !i.iReset && s.config 0 then s.rSData.extractLsb' 10 5 else s.cfgDevTrigger
  cfgOnDevTrigger :=
    if i.iReset then false else if s.config 0 then s.rSData.getLsbD 15 else s.cfgOnDevTrigger
  dmaMem :=
    if s.dmaState = .readReq || s.dmaState = .readAck then
      Function.update s.dmaMem (s.nread.setWidth 10) i.iMwbData
    else s.dmaMem
  nread :=
    if i.iReset then 0
    else if s.between then 0
    else if !s.oMwbWe && i.iMwbAck then s.nread + 1
    else s.nread
  nracks :=
    if i.iReset then 0
    else if s.between then 0
    else if s.oMwbStb && !s.oMwbWe && !i.iMwbStall then s.nracks + 1
    else s.nracks
  nwritten :=
    if i.iReset then 0
    else if !s.oMwbCyc || !s.oMwbWe then 0
    else if s.oMwbStb && !i.iMwbStall then s.nwritten + 1
    else s.nwritten
  nwacks :=
    if i.iReset then 0
    else if !s.oMwbCyc || !s.oMwbWe then 0
    else if i.iMwbAck then s.nwacks + 1
    else s.nwacks
  lastReadRequest := if i.iReset then false else s.nextLastReadRequest i
  lastReadAck := if i.iReset then false else s.nextLastReadAck i
  lastWriteRequest := if i.iReset then false else s.nextLastWriteRequest i
  lastWriteAck := if i.iReset then false else s.nextLastWriteAck i
  trigger :=
    if i.iReset then false
    else s.dmaState = .wait && (!s.cfgOnDevTrigger || i.iDevInts.getLsbD s.cfgDevTrigger.toNat)
  abort :=
    if i.iReset then false
    else if s.dmaState = .idle then false
    else s.command 0 && s.rSData = 0xffed0000#32
  userHalt :=
    s.userHalt && s.dmaState ≠ .idle
      || s.command 0 && s.dmaState ≠ .idle && s.rSData = 0xafed0000#32
  oMwbAddr := if i.iReset then s.oMwbAddr else s.nextAddr i
  oMwbData :=
    if i.iReset then 0
    else if s.dmaState ≠ .writeReq || !i.iMwbStall then s.dmaMem s.rdaddr
    else s.oMwbData
  rdaddr :=
    if i.iReset then 0
    else if s.between || s.dmaState = .writeAck then 0
    else if s.dmaState = .preWrite || s.dmaState = .writeReq && !i.iMwbStall then s.rdaddr + 1
    else s.rdaddr
  oInterrupt :=
    if i.iReset then false
    else
      s.dmaState = .writeAck && i.iMwbAck && s.lastWriteAck && s.cfgLen = 1
        || s.dmaState ≠ .idle && i.iMwbErr

end Wires

end Wbdmac

end ZBasic
