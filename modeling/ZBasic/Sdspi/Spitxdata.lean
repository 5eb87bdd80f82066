import ZBasic.Sdspi.SdBlock

/-!
# Sending a block to the card

`spitxdata` reads a block from memory, word by word, sends it behind a start token and before its
checksum, and waits for the response of the card and for the end of its busy time. Modelled is the
configuration in use, in which a word comes two clocks after its address.
-/

namespace ZBasic

open SdBlock

/-- The registers of `spitxdata`. -/
structure Spitxdata where
  oBusy : Bool
  oRxvalid : Bool
  receivedToken : Bool
  allIdle : Bool
  oResponse : BitVec 8
  rdvalid : BitVec 2
  oLlStb : Bool
  gearbox : BitVec 40
  fill : BitVec 5
  crcStb : Bool
  oRead : Bool
  oAddr : BitVec 8
  allMemRead : Bool
  crcFlag : Bool
  dataSent : Bool
  lastaddr : Bool
  rLgblkszM3 : BitVec 3
  crcFill : BitVec 5
  crcActive : Bool
  crcGearbox : BitVec 32
  crcData : BitVec 16

namespace Spitxdata

/-- The inputs of `spitxdata` at a clock. -/
structure Input where
  iReset : Bool
  iStart : Bool
  iLgblksz : BitVec 4
  iFifo : Bool
  iData : BitVec 32
  iLlBusy : Bool
  iLlStb : Bool
  iLlByte : BitVec 8

/-- `next_crc_data` -/
def nextCrcData (crc : BitVec 16) (hi lo : Bool) : BitVec 16 :=
  let first := if crc.getLsbD 15 ^^ hi then (crc <<< 1) ^^^ crcPolynomial else crc <<< 1
  if first.getLsbD 15 ^^ lo then (first <<< 1) ^^^ crcPolynomial else first <<< 1

/-- A byte that is taken for the response to a block. -/
def isResponse (b : BitVec 8) : Bool := b.getLsbD 0 && !b.getLsbD 4

section Step

variable (s : Spitxdata) (i : Input)

/-- `token` -/
def token : Bool := s.dataSent && i.iLlStb && isResponse i.iLlByte

/-- `o_ll_byte` -/
def oLlByte : BitVec 8 := s.gearbox.extractLsb' 32 8

/-- `data_read` -/
def dataRead : Bool := s.crcFlag

/-- A word comes in. -/
def loads : Bool := s.rdvalid.getLsbD 1

/-- A byte is handed over. -/
def hands : Bool := s.oLlStb && !i.iLlBusy

/-- There is room for the next word, or for the checksum, and none is on its way. -/
def wants : Bool :=
  (!s.fill.getLsbD 3 || (!s.fill.getLsbD 2 && (!s.oLlStb || !i.iLlBusy)))
    && !s.oRead && s.rdvalid = 0 && !s.dataRead

/-- The next `lastaddr` after the word at `o_addr` is read. -/
def nearlyLast : Bool :=
  let ones (n : ℕ) : Bool := s.oAddr.extractLsb' 1 n = BitVec.allOnes n
  match s.rLgblkszM3 with
  | 0 => s.lastaddr
  | 1 => ones 1
  | 2 => ones 2
  | 3 => ones 3
  | 4 => ones 4
  | 5 => ones 5
  | _ => ones 6

/-- The next `gearbox` while `o_busy`. -/
def nextGearbox : BitVec 40 :=
  if !s.oLlStb && s.loads then 0xfe#8 ++ i.iData
  else if s.loads then s.gearbox.extractLsb' 32 8 ++ i.iData
  else if s.crcStb then s.gearbox.extractLsb' 32 8 ++ s.crcData ++ 0x00ff#16
  else if s.hands i then s.gearbox.extractLsb' 0 32 ++ 0xff#8
  else s.gearbox

/-- The next `fill` while `o_busy`. -/
def nextFill : BitVec 5 :=
  if s.loads then 0x1f
  else if s.crcStb then s.fill.extractLsb' 4 1 ++ 0xc#4
  else if s.hands i then s.fill <<< 1
  else s.fill

/-- One clock of `spitxdata`. -/
def step : Spitxdata where
  oBusy :=
    if i.iReset then false
    else if !s.oBusy then i.iStart
    else if s.allIdle && i.iLlStb && i.iLlByte = 0xff#8 then false
    else s.oBusy
  oRxvalid :=
    if i.iReset || !s.oBusy then false
    else s.token i && !s.receivedToken
  receivedToken :=
    if i.iReset || !s.oBusy then false
    else if s.token i && !s.receivedToken then true
    else s.receivedToken
  allIdle :=
    if i.iReset || !s.oBusy then false
    else if s.receivedToken && i.iLlStb && i.iLlByte = 0xff#8 then true
    else s.allIdle
  oResponse := if s.token i then i.iLlByte else s.oResponse
  rdvalid :=
    if i.iReset || !s.oBusy then 0
    else s.rdvalid.extractLsb' 0 1 ++ BitVec.ofBool s.oRead
  oLlStb :=
    if i.iReset || !s.oBusy then false
    else if s.loads then true
    else if s.dataRead && !s.fill.getLsbD 4 then false
    else s.oLlStb
  gearbox :=
    if !s.oBusy then 0xfe#8 ++ (s.nextGearbox i).extractLsb' 0 32
    else s.nextGearbox i
  fill :=
    if i.iReset then 0
    else if !s.oBusy then (if i.iStart then 0x10 else 0)
    else s.nextFill i
  crcStb :=
    if i.iReset || !s.oBusy then false
    else s.wants i && s.allMemRead && !s.crcFlag && !s.crcStb
  oRead :=
    if i.iReset || !s.oBusy then false
    else s.wants i && !s.allMemRead
  oAddr :=
    if !s.oBusy then BitVec.ofBool i.iFifo ++ 0#7
    else if s.oRead && !s.lastaddr then
      s.oAddr.extractLsb' 7 1 ++ (s.oAddr.extractLsb' 0 7 + 1)
    else s.oAddr
  allMemRead :=
    if i.iReset || !s.oBusy then false
    else if s.oRead && s.lastaddr then true
    else s.allMemRead
  crcFlag :=
    if i.iReset || !s.oBusy then false
    else if s.crcStb then true
    else s.crcFlag
  dataSent :=
    if i.iReset || !s.oBusy then false
    else if s.dataRead && !s.fill.getLsbD 3 && s.hands i then true
    else s.dataSent
  lastaddr :=
    if !s.oBusy then i.iLgblksz < 4
    else if s.oRead && !s.lastaddr then s.nearlyLast
    else s.lastaddr
  rLgblkszM3 := if !s.oBusy then (i.iLgblksz - 3).setWidth 3 else s.rLgblkszM3
  crcFill :=
    if i.iReset || !s.oBusy then 0
    else if s.crcActive || s.loads then
      s.crcFill - (if s.crcActive then 1 else 0) + (if s.loads then 16 else 0)
    else s.crcFill
  crcActive :=
    if i.iReset || !s.oBusy then false
    else if s.crcActive || s.loads then s.loads || s.crcFill > 1
    else s.crcActive
  crcGearbox := if !s.crcActive then i.iData else s.crcGearbox.extractLsb' 0 30 ++ 0#2
  crcData :=
    if !s.oBusy then 0
    else if s.crcActive then
      nextCrcData s.crcData (s.crcGearbox.getLsbD 31) (s.crcGearbox.getLsbD 30)
    else s.crcData

end Step

end Spitxdata

end ZBasic
