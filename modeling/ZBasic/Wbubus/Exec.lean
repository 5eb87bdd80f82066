import ZBasic.Clocked.Bits

/-!
# The debug-bus executor

`wbuexec` turns codewords into Wishbone transactions and bus responses into codewords.
A codeword has 36 bits; its top bits tell a command's kind, bit 30 the address
increment, and bits 32, 31 and 29 down to 0 the data word.
-/

namespace ZBasic

open Clocked

/-- A codeword of the debug bus. -/
abbrev Codeword := BitVec 36

namespace Codeword

/-- `{ i_codword[32:31], i_codword[29:0] }`, the data word of a codeword. -/
def codData (w : Codeword) : BitVec 32 := w.extractLsb' 31 2 ++ w.extractLsb' 0 30

/-- `i_codword[35:32] == 4'h0`: set an absolute address. -/
def isAbsolute (w : Codeword) : Bool := w.extractLsb' 32 4 == 0#4

/-- `i_codword[35:33] == 3'h1`: set an address relative to the current one. -/
def isRelative (w : Codeword) : Bool := w.extractLsb' 33 3 == 1#3

/-- `i_codword[35:34] == WRITE_PREFIX` -/
def isWrite (w : Codeword) : Bool := w.extractLsb' 34 2 == 1#2

/-- `i_codword[35:34] == 2'b11` -/
def isRead (w : Codeword) : Bool := w.extractLsb' 34 2 == 3#2

/-- `i_codword[35:30] == END_OF_WRITE` -/
def isEndOfWrite (w : Codeword) : Bool := w.extractLsb' 30 6 == 0x2e#6

/-- `i_codword[30]`, the increment bit. -/
def inc (w : Codeword) : Bool := w.getLsbD 30

/-- `i_codword[9:0]`, the length of a vector read. -/
def readLen (w : Codeword) : BitVec 10 := w.extractLsb' 0 10

theorem isRead_of_isAbsolute {w : Codeword} (h : w.isAbsolute = true) :
  w.isRead = false
  := by
  simp only [isAbsolute, beq_iff_eq] at h
  have hfield := extract_extract w (a := 32) (b := 2) (m := 2) (n := 4) (by decide)
  simp [isRead, ← hfield, h]

theorem isRead_of_isRelative {w : Codeword} (h : w.isRelative = true) :
  w.isRead = false
  := by
  simp only [isRelative, beq_iff_eq] at h
  have hfield := extract_extract w (a := 33) (b := 1) (m := 2) (n := 3) (by decide)
  simp [isRead, ← hfield, h]

theorem isRead_of_isEndOfWrite {w : Codeword} (h : w.isEndOfWrite = true) :
  w.isRead = false
  := by
  simp only [isEndOfWrite, beq_iff_eq] at h
  have hfield := extract_extract w (a := 30) (b := 4) (m := 2) (n := 6) (by decide)
  simp [isRead, ← hfield, h]

theorem isRead_of_isWrite {w : Codeword} (h : w.isWrite = true) :
  w.isRead = false
  := by
  simp only [isWrite, beq_iff_eq] at h
  simp [isRead, h]

end Codeword

/-- The word of data spread over a codeword. -/
theorem codData_word (hi : BitVec 3) (b : BitVec 1) (v : BitVec 32) :
  Codeword.codData (hi ++ v.extractLsb' 30 2 ++ b ++ v.extractLsb' 0 30) = v
  := by
  have htop : (hi ++ v.extractLsb' 30 2 ++ b ++ v.extractLsb' 0 30).extractLsb' 31 2
      = v.extractLsb' 30 2 := by
    rw [extract_append_high _ _ (by decide), extract_append_high _ _ (by decide),
      extract_append_low _ _ (by decide), extract_all]
  have hlow : (hi ++ v.extractLsb' 30 2 ++ b ++ v.extractLsb' 0 30).extractLsb' 0 30
      = v.extractLsb' 0 30 := by
    rw [extract_append_low _ _ (by decide), extract_all]
  rw [Codeword.codData, htop, hlow]
  apply extract_append_extract

theorem extract_top_word (hi : BitVec 3) (x : BitVec 2) (b : BitVec 1) (y : BitVec 30) :
  (hi ++ x ++ b ++ y).extractLsb' 33 3 = hi
  := by
  rw [extract_append_high _ _ (by decide), extract_append_high _ _ (by decide),
    extract_append_high _ _ (by decide), extract_all]

theorem extract_kind_word (hi : BitVec 3) (x : BitVec 2) (b : BitVec 1) (y : BitVec 30) :
  (hi ++ x ++ b ++ y).extractLsb' 34 2 = hi.extractLsb' 1 2
  := by
  have hfield := extract_extract (hi ++ x ++ b ++ y) (a := 33) (b := 1) (m := 2) (n := 3) (by decide)
  rw [← hfield, extract_top_word]

/-- The lowest `j` groups of a word, from the top. -/
def digits (v : BitVec 32) (j : ℕ) : List (BitVec 6) :=
  (List.range j).reverse.map fun k => v.extractLsb' (6 * k) 6

@[simp]
theorem length_digits (v : BitVec 32) (j : ℕ) :
  (digits v j).length = j
  := by simp [digits]

@[simp]
theorem digits_zero (v : BitVec 32) :
  digits v 0 = []
  := rfl

theorem digits_succ (v : BitVec 32) (j : ℕ) :
  digits v (j + 1) = v.extractLsb' (6 * j) 6 :: digits v j
  := by simp [digits, List.range_succ]

/-- `wb_state` -/
inductive WbState where
  | idle
  | readRequest
  | writeRequest
  | flushWriteRequests
deriving DecidableEq, Repr

/-- The registers of `wbuexec`. -/
structure Wbuexec where
  wbState : WbState
  oBusy : Bool
  oWbCyc : Bool
  oWbStb : Bool
  oWbWe : Bool
  oWbAddr : BitVec 32
  oWbData : BitVec 32
  oStb : Bool
  oCodword : Codeword
  rAcksNeeded : BitVec 10
  rLen : BitVec 10
  rInc : Bool
  rNewAddr : Bool
  lastReadRequest : Bool
  lastAck : Bool
  zeroAcks : Bool
  singleReadRequest : Bool
deriving DecidableEq, Repr

namespace Wbuexec

open Codeword

/-- The inputs of `wbuexec` at a clock. -/
structure Input where
  iReset : Bool
  iStb : Bool
  iCodword : Codeword
  iWbStall : Bool
  iWbAck : Bool
  iWbErr : Bool
  iWbData : BitVec 32
deriving DecidableEq, Repr

/-- The registers with an initial value at power up; the others are arbitrary. -/
structure Initial (s : Wbuexec) : Prop where
  wbState : s.wbState = .idle
  oWbCyc : s.oWbCyc = false
  oWbStb : s.oWbStb = false
  oBusy : s.oBusy = false
  rNewAddr : s.rNewAddr = true
  oStb : s.oStb = false
  rAcksNeeded : s.rAcksNeeded = 0
  zeroAcks : s.zeroAcks = true

/-- The registers driven by the state machine. -/
structure Fsm where
  wbState : WbState
  oWbCyc : Bool
  oWbStb : Bool
  oBusy : Bool
  oWbData : BitVec 32

/-- The state machine outside reset. -/
def fsm (s : Wbuexec) (i : Input) : Fsm :=
  match s.wbState with
  | .idle =>
      if i.iStb && (i.iCodword.isWrite || i.iCodword.isRead) then
        { wbState := if i.iCodword.isWrite then .writeRequest else .readRequest
          oWbCyc := true
          oWbStb := true
          oBusy := true
          oWbData := i.iCodword.codData }
      else
        { wbState := .idle
          oWbCyc := false
          oWbStb := false
          oBusy := s.oBusy
          oWbData := i.iCodword.codData }
  | .readRequest =>
      let stb := if !i.iWbStall && (s.singleReadRequest || s.lastReadRequest) then false
        else s.oWbStb
      if i.iWbErr then
        { wbState := .idle, oWbCyc := false, oWbStb := false, oBusy := false
          oWbData := s.oWbData }
      else if i.iWbAck && s.lastAck then
        { wbState := .idle, oWbCyc := false, oWbStb := stb, oBusy := false
          oWbData := s.oWbData }
      else
        { wbState := .readRequest, oWbCyc := true, oWbStb := stb, oBusy := s.oBusy
          oWbData := s.oWbData }
  | .writeRequest =>
      let next := i.iStb && !s.oWbStb
      let data := if !s.oBusy then i.iCodword.codData else s.oWbData
      if i.iWbErr then
        { wbState := .flushWriteRequests, oWbCyc := false, oWbStb := false, oBusy := true
          oWbData := data }
      else
        let leave := next && (s.oBusy && !i.iCodword.isWrite && s.zeroAcks)
        { wbState := if leave then .idle else .writeRequest
          oWbCyc := !leave
          oWbStb :=
            if next && !s.oBusy then true
            else if !i.iWbStall then false
            else s.oWbStb
          oBusy := !(next && s.oBusy && (i.iCodword.isWrite || s.zeroAcks))
          oWbData := data }
  | .flushWriteRequests =>
      let leave := i.iStb && !i.iCodword.isWrite
      { wbState := if leave then .idle else .flushWriteRequests
        oWbCyc := false
        oWbStb := false
        oBusy := !leave
        oWbData := s.oWbData }

/-- A request is accepted by the bus. -/
def request (s : Wbuexec) (i : Input) : Bool := s.oWbStb && !i.iWbStall

/-- The next value of `o_wb_addr`. -/
def nextAddr (s : Wbuexec) (i : Input) : BitVec 32 :=
  if i.iStb && !s.oBusy && i.iCodword.isAbsolute then i.iCodword.extractLsb' 0 32
  else if i.iStb && !s.oBusy && i.iCodword.isRelative then s.oWbAddr + i.iCodword.codData
  else if s.request i && s.rInc then s.oWbAddr + 1
  else s.oWbAddr

/-- The next response codeword. -/
def nextCodword (s : Wbuexec) (i : Input) : Codeword :=
  if i.iReset then 3#6 ++ i.iWbData.extractLsb' 0 30
  else if !s.oWbCyc then 2#4 ++ s.oWbAddr
  else if i.iWbErr then 5#6 ++ i.iWbData.extractLsb' 0 30
  else if s.oWbWe then 2#6 ++ i.iWbData.extractLsb' 0 30
  else 7#3 ++ i.iWbData.extractLsb' 30 2 ++ BitVec.ofBool s.rInc ++ i.iWbData.extractLsb' 0 30

/-- One clock of `wbuexec`. -/
def step (s : Wbuexec) (i : Input) : Wbuexec where
  wbState := if i.iReset then .idle else (s.fsm i).wbState
  oWbCyc := if i.iReset then false else (s.fsm i).oWbCyc
  oWbStb := if i.iReset then false else (s.fsm i).oWbStb
  oBusy := if i.iReset then false else (s.fsm i).oBusy
  oWbData := if i.iReset then s.oWbData else (s.fsm i).oWbData
  oWbWe := if s.wbState = .idle then !i.iCodword.getLsbD 35 else s.oWbWe
  oWbAddr := s.nextAddr i
  rNewAddr :=
    if i.iReset then true
    else if !s.oWbCyc && i.iStb && !i.iCodword.getLsbD 35 then true
    else if s.oWbCyc then false
    else s.rNewAddr
  oStb :=
    if i.iReset then true
    else if !s.oWbCyc then i.iStb && !s.oBusy && i.iCodword.isRead && s.rNewAddr
    else i.iWbErr || i.iWbAck
  oCodword := s.nextCodword i
  rAcksNeeded :=
    if i.iReset || !s.oWbCyc then 0
    else match s.request i, i.iWbAck with
      | true, false => s.rAcksNeeded + 1
      | false, true => s.rAcksNeeded - 1
      | _, _ => s.rAcksNeeded
  rInc := if s.wbState = .idle then i.iCodword.inc else s.rInc
  lastAck :=
    if !s.oWbCyc then i.iCodword.isRead && i.iCodword.readLen ≤ 1
    else !s.oWbWe && s.rLen.toNat + s.rAcksNeeded.toNat ≤ 1 + (if i.iWbAck then 1 else 0)
  zeroAcks :=
    if i.iReset || !s.oWbCyc then true
    else match s.request i, i.iWbAck with
      | true, false => false
      | false, true => s.rAcksNeeded == 1
      | _, _ => s.zeroAcks
  rLen :=
    if !s.oWbCyc then i.iCodword.readLen
    else if s.request i && s.rLen != 0 then s.rLen - 1
    else s.rLen
  singleReadRequest :=
    if !s.oWbCyc then i.iCodword.readLen ≤ 1 else s.singleReadRequest
  lastReadRequest :=
    if !s.oWbCyc then i.iCodword.readLen ≤ 1
    else if s.request i then s.rLen ≤ 2
    else s.rLen ≤ 1

end Wbuexec

end ZBasic
