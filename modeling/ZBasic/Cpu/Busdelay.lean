import Mathlib.Data.BitVec

/-!
# The bus delay

`busdelay` passes the requests of a bus on a clock late, and the responses back a clock late.
With `DELAY_STALL` set, a request that comes while the delayed bus is stalled is kept until
there is room for it; otherwise it is stalled at once.
-/

namespace ZBasic

/-- What a master puts on a bus, with addresses of `aw` bits and words of `dw` bits. -/
structure BusRequest (aw dw : ℕ) where
  we : Bool
  addr : BitVec aw
  data : BitVec dw
  sel : BitVec (dw / 8)

/-- The registers of `busdelay`. -/
structure Busdelay (aw dw : ℕ) where
  oDlyCyc : Bool
  oDlyStb : Bool
  /-- `o_dly_we`, `o_dly_addr`, `o_dly_data` and `o_dly_sel`. -/
  oDly : BusRequest aw dw
  rStb : Bool
  /-- `r_we`, `r_addr`, `r_data` and `r_sel`. -/
  r : BusRequest aw dw
  oWbAck : Bool
  oWbData : BitVec dw
  oWbErr : Bool

namespace Busdelay

variable {aw dw : ℕ}

/-- The inputs of `busdelay` at a clock. -/
structure Input (aw dw : ℕ) where
  iReset : Bool
  iWbCyc : Bool
  iWbStb : Bool
  /-- `i_wb_we`, `i_wb_addr`, `i_wb_data` and `i_wb_sel`. -/
  iWb : BusRequest aw dw
  iDlyStall : Bool
  iDlyAck : Bool
  iDlyData : BitVec dw
  iDlyErr : Bool

section Wires

variable (s : Busdelay aw dw) (i : Input aw dw)

/-- `o_wb_stall` -/
def oWbStall : Bool := s.rStb

/-- The delayed bus takes a request, or there is none on it. -/
def moves : Bool := !i.iDlyStall || !s.oDlyStb

/-- The cycle is over, or ends in an error. -/
def drops : Bool := !i.iWbCyc || i.iDlyErr && s.oDlyCyc || s.oWbErr

/-- What is on the delayed bus next. -/
def nextDly : BusRequest aw dw :=
  if s.moves i then (if s.rStb then s.r else i.iWb) else s.oDly

/-- One clock of `busdelay`. -/
def step : Busdelay aw dw where
  oDlyCyc := i.iWbCyc && !i.iReset && !s.oWbErr && (!i.iDlyErr || !s.oDlyCyc)
  oDlyStb :=
    if i.iReset || s.drops i then false
    else if s.moves i then s.rStb || i.iWbStb
    else s.oDlyStb
  oDly := s.nextDly i
  rStb :=
    if i.iReset || s.drops i then false
    else if s.moves i then false
    else if !s.rStb then i.iWbStb
    else s.rStb
  r :=
    if i.iReset then
      { (if s.moves i || !s.rStb then i.iWb else s.r) with we := false }
    else if s.moves i || !s.rStb then i.iWb
    else s.r
  oWbAck :=
    if i.iReset || !i.iWbCyc || s.oWbErr then false
    else i.iDlyAck && s.oDlyCyc && !i.iDlyErr
  oWbData := i.iDlyData
  oWbErr := if i.iReset || !i.iWbCyc then false else i.iDlyErr && s.oDlyCyc

end Wires

/-- The registers of `busdelay` with `DELAY_STALL` zero. -/
structure Unbuffered (aw dw : ℕ) where
  oDlyCyc : Bool
  oDlyStb : Bool
  /-- `o_dly_we`, `o_dly_addr`, `o_dly_data` and `o_dly_sel`. -/
  oDly : BusRequest aw dw
  oWbAck : Bool
  oWbData : BitVec dw
  oWbErr : Bool

namespace Unbuffered

variable (s : Unbuffered aw dw) (i : Input aw dw)

/-- `o_wb_stall` -/
def oWbStall : Bool := i.iDlyStall && s.oDlyStb

/-- One clock of `busdelay` with `DELAY_STALL` zero. -/
def step : Unbuffered aw dw where
  oDlyCyc :=
    if i.iReset then false
    else if i.iDlyErr && s.oDlyCyc then false
    else if s.oWbErr && i.iWbCyc then false
    else i.iWbCyc
  oDlyStb :=
    if i.iReset then false
    else if i.iDlyErr && s.oDlyCyc then false
    else if s.oWbErr && i.iWbCyc then false
    else if !i.iWbCyc then false
    else if !s.oWbStall i then i.iWbStb
    else s.oDlyStb
  oDly := if !s.oWbStall i then i.iWb else s.oDly
  oWbAck :=
    if i.iReset then false
    else (i.iDlyAck && !i.iDlyErr && s.oDlyCyc && i.iWbCyc) && !s.oWbErr
  oWbErr :=
    if i.iReset then false
    else if !s.oDlyCyc then false
    else s.oWbErr || i.iDlyErr && i.iWbCyc
  oWbData := i.iDlyData

end Unbuffered

end Busdelay

end ZBasic
