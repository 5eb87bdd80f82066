import ZBasic.Sdspi.Llsdspi
import ZBasic.Sdspi.Spicmd
import ZBasic.Sdspi.Spirxdata

/-!
# The SD card controller

`sdspi` starts commands that are written to its command register, and hands out the bytes
from the card to `spicmd`, while a command is answered, and then to `spirxdata`. The sender
of blocks, which a read does not start, is left open: its outputs are inputs here. So are
the detection of the card, and the memories that the blocks go to and come from.
-/

namespace ZBasic

/-- The registers of `sdspi`. -/
structure Sdspi where
  lowlevel : Llsdspi
  spicmdi : Spicmd
  spirxdatai : Spirxdata
  rCmdBusy : Bool
  rUseFifo : Bool
  txStart : Bool
  rxStart : Bool
  writeToCard : Bool
  rFifoId : Bool
  rCmdErr : Bool
  rDataReg : BitVec 32
  rLastROne : BitVec 8
  llCmdStb : Bool
  llCmdDat : BitVec 8
  rSdspiClk : BitVec 8
  rLgblklen : BitVec 4
  rWatchdog : BitVec 26
  rWatchdogErr : Bool

namespace Sdspi

/-- The parameters of `sdspi`; `LGFIFOLN` is seven. -/
structure Params where
  lowlevel : Llsdspi.Params
  initialClkdiv : BitVec 8

/-- The inputs of `sdspi` at a clock, among them the outputs of the sender of blocks. -/
structure Input where
  iSdReset : Bool
  iWbStb : Bool
  iWbWe : Bool
  iWbAddr : BitVec 2
  iWbData : BitVec 32
  iMiso : Bool
  cardPresent : Bool
  txBusy : Bool
  txStb : Bool
  txByte : BitVec 8
  txValid : Bool
  txResponse : BitVec 8

/-- `max_lgblklen` -/
def maxLgblklen : BitVec 4 := 9

section Wires

variable (s : Sdspi) (i : Input)

/-- `wb_cmd_stb` -/
def wbCmdStb : Bool := !s.rCmdBusy && i.iWbStb && i.iWbWe && i.iWbAddr = 0

/-- `new_data` -/
def newData : Bool := i.iWbStb && i.iWbWe && i.iWbAddr = 1

/-- The write starts a command. -/
def starts : Bool := s.wbCmdStb i && i.iWbData.extractLsb' 6 2 = 1#2

/-- The write sets the configuration. -/
def configures : Bool := s.wbCmdStb i && i.iWbData.extractLsb' 6 2 = 3#2

/-- `USE_FIFO_BIT` -/
def useFifoBit : Bool := i.iWbData.getLsbD 11

/-- `FIFO_WRITE_BIT` -/
def fifoWriteBit : Bool := i.iWbData.getLsbD 10

/-- `w_reset` -/
def wReset : Bool := i.iSdReset || s.rWatchdogErr

/-- `ll_advance` -/
def llAdvance : Bool := !s.llCmdStb || s.lowlevel.oIdle

/-- Nothing is going on any more. -/
def settled : Bool :=
  s.lowlevel.oIdle && !s.spicmdi.oBusy && !s.spirxdatai.oBusy && !i.txBusy

/-- What `llsdspi` sees. -/
def lowlevelInput : Llsdspi.Input where
  iReset := i.iSdReset
  iSpeed := s.rSdspiClk
  iCs := s.rCmdBusy
  iStb := s.llCmdStb
  iByte := s.llCmdDat
  iMiso := i.iMiso

/-- What `spicmd` sees. -/
def spicmdInput : Spicmd.Input where
  iReset := s.wReset i
  iCmdStb := s.starts i
  iCmdType := i.iWbData.extractLsb' 8 2
  iCmd := i.iWbData.extractLsb' 0 6
  iCmdData := s.rDataReg
  iLlBusy := !s.llAdvance
  iLlStb := s.lowlevel.oStb
  iLlByte := s.lowlevel.oByte

/-- What `spirxdata` sees. -/
def spirxdataInput : Spirxdata.Input where
  iReset := s.wReset i || s.rCmdErr
  iStart := s.rxStart
  iLgblksz := s.rLgblklen
  iFifo := s.rFifoId
  iLlStb := s.lowlevel.oStb && !s.spicmdi.oBusy
  iLlByte := s.lowlevel.oByte

/-- A block starts to be received (or, for `write`, sent) with a command. -/
def startsBlock (write : Bool) : Bool := s.starts i && useFifoBit i && fifoWriteBit i == write

end Wires

section Step

variable (P : Params) (s : Sdspi) (i : Input)

/-- One clock of `sdspi`. -/
def step : Sdspi where
  lowlevel := s.lowlevel.step P.lowlevel (s.lowlevelInput i)
  spicmdi := s.spicmdi.step (s.spicmdInput i)
  spirxdatai := s.spirxdatai.step (s.spirxdataInput i)
  rCmdBusy :=
    if i.iSdReset then false
    else if !s.rCmdBusy then s.starts i
    else !(s.settled i && !s.llCmdStb)
  rUseFifo :=
    if i.iSdReset || s.rWatchdogErr then false
    else if !s.rCmdBusy then (if s.starts i then useFifoBit i else s.rUseFifo)
    else s.rUseFifo && !(s.settled i && !s.llCmdStb)
  txStart :=
    if i.iSdReset || s.rWatchdogErr then false
    else if !s.rCmdBusy then s.startsBlock i true
    else s.txStart && !(s.rCmdErr || i.txBusy || s.spirxdatai.oBusy)
  rxStart :=
    if i.iSdReset || s.rWatchdogErr then false
    else if !s.rCmdBusy then s.startsBlock i false
    else s.rxStart && !(s.rCmdErr || i.txBusy || s.spirxdatai.oBusy)
  writeToCard :=
    if !i.iSdReset && s.starts i then fifoWriteBit i else s.writeToCard
  rFifoId := if s.wbCmdStb i then i.iWbData.getLsbD 12 else s.rFifoId
  rCmdErr :=
    if s.rWatchdogErr then true
    else if s.rCmdBusy then
      if s.spirxdatai.oRxvalid then s.rCmdErr || s.spirxdatai.oResponse.getLsbD 3
      else if s.spicmdi.oRxvalid then
        s.rCmdErr || s.spicmdi.oResponse.extractLsb' 33 6 ≠ 0
      else s.rCmdErr
    else if s.wbCmdStb i then s.rCmdErr && !i.iWbData.getLsbD 15
    else s.rCmdErr
  rDataReg :=
    if !s.rCmdBusy then
      if newData i then i.iWbData
      else if s.wbCmdStb i && i.iWbData.getLsbD 7 then
        0#4 ++ maxLgblklen ++ 0#4 ++ s.rLgblklen ++ 0#8 ++ s.rSdspiClk
      else s.rDataReg
    else if s.spicmdi.oRxvalid then s.spicmdi.oResponse.extractLsb' 0 32
    else if i.txValid then 0#24 ++ i.txResponse
    else if s.spirxdatai.oRxvalid then 0#24 ++ s.spirxdatai.oResponse
    else s.rDataReg
  rLastROne :=
    if s.rCmdBusy && s.spicmdi.oRxvalid then s.spicmdi.oResponse.extractLsb' 32 8
    else s.rLastROne
  llCmdStb :=
    if !s.rCmdBusy || i.iSdReset || s.settled i then false
    else if s.llAdvance then
      s.llCmdStb || (if s.spicmdi.oBusy then s.spicmdi.oLlStb else i.txStb)
    else s.llCmdStb
  llCmdDat :=
    if s.llAdvance then
      if s.spicmdi.oBusy then (if s.spicmdi.oLlStb then s.spicmdi.oLlByte else 0xff)
      else if i.txStb then i.txByte
      else 0xff
    else s.llCmdDat
  rSdspiClk :=
    if !i.cardPresent then P.initialClkdiv
    else if s.configures i && s.rDataReg.extractLsb' 0 8 ≠ 0 then s.rDataReg.extractLsb' 0 8
    else s.rSdspiClk
  rLgblklen :=
    if s.configures i && 3 ≤ s.rDataReg.extractLsb' 16 4
        && s.rDataReg.extractLsb' 16 4 ≤ maxLgblklen then
      s.rDataReg.extractLsb' 16 4
    else s.rLgblklen
  rWatchdog :=
    if !s.rCmdBusy then 0x3fffff
    else if s.rWatchdog ≠ 0 then s.rWatchdog - 1
    else s.rWatchdog
  rWatchdogErr := s.rCmdBusy && (s.rWatchdogErr || s.rWatchdog = 0)

end Step

end Sdspi

end ZBasic
