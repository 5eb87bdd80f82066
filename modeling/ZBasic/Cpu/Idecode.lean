import Mathlib.Data.BitVec

/-!
# The instruction decoder

`idecode` takes instruction words apart, one or two instructions to a word, and tells of an access to
memory whether it can be issued back to back with the one before. The program counter and what is
only for the simulator are left out.
-/

namespace ZBasic

namespace Idecode

/-- The parameters of `idecode`. -/
structure Config where
  optMpy : Bool
  optEarlyBranching : Bool
  optPipelined : Bool
  optDivide : Bool
  optFpu : Bool
  optCis : Bool
  optLock : Bool
  optOpipe : Bool
  optSim : Bool
  optNoUsermode : Bool

/-- The inputs of `idecode` at a clock. -/
structure Input where
  iReset : Bool
  iCe : Bool
  iStalled : Bool
  iInstruction : BitVec 32
  iGie : Bool
  iPfValid : Bool
  iIllegal : Bool

/-- The registers that are loaded with each instruction. Bits 6 and 5 of a register number tell of
`CC` and `PC`, and bit 4 of the register set. -/
structure Issue where
  oDcdR : BitVec 7
  oDcdA : BitVec 7
  oDcdB : BitVec 7
  rI : BitVec 23
  oZI : Bool
  oCond : BitVec 4
  oWF : Bool
  oOp : BitVec 4
  oALU : Bool
  oM : Bool
  oDV : Bool
  oFP : Bool
  oBreak : Bool
  oLock : Bool
  oWR : Bool
  oRA : Bool
  oRB : Bool
deriving DecidableEq

/-- `o_I` -/
def Issue.oI (x : Issue) : BitVec 32 :=
  (BitVec.ofBool (x.rI.getLsbD 22)).signExtend 10 ++ x.rI.extractLsb' 0 22

def cpuSpReg : BitVec 4 := 0xd

def cpuCcReg : BitVec 4 := 0xe

def cpuPcReg : BitVec 4 := 0xf

def cisBit : ℕ := 31

def cisImmSel : ℕ := 23

def immSel : ℕ := 18

/-! ### Decoding -/

section Decode

variable (c : Config) (iGie : Bool) (iword : BitVec 32)

/-- The operation that a compressed instruction stands for. -/
def cisOpcode : BitVec 3 → BitVec 5
  | 0#3 => 0x00
  | 1#3 => 0x01
  | 2#3 => 0x02
  | 3#3 => 0x10
  | 4#3 => 0x12
  | 5#3 => 0x13
  | 6#3 => 0x18
  | _ => 0x0d

def wOp : BitVec 5 := iword.extractLsb' 22 5

def wCisOp : BitVec 5 :=
  if c.optCis && iword.getLsbD cisBit then cisOpcode (iword.extractLsb' 24 3) else wOp iword

def wMov : Bool := wCisOp c iword = 0x0d

def wLdi : Bool := (wCisOp c iword).extractLsb' 1 4 = 0xc

def wBrev : Bool := wCisOp c iword = 0x08

def wMpy : Bool := (wCisOp c iword).extractLsb' 1 4 = 0x5 || wCisOp c iword = 0x0c

def wCmptst : Bool := (wCisOp c iword).extractLsb' 1 4 = 0x8

def wLdilo : Bool := wCisOp c iword = 0x09

def wALU : Bool := !(wCisOp c iword).getLsbD 4 && (wCisOp c iword).extractLsb' 1 3 ≠ 0x7

def wAdd : Bool := wCisOp c iword = 0x02

def wMem : Bool :=
  (wCisOp c iword).extractLsb' 3 2 = 0b10 && (wCisOp c iword).extractLsb' 1 2 ≠ 0b00

def wSto : Bool := wMem c iword && (wCisOp c iword).getLsbD 0

def wDiv : Bool := !iword.getLsbD cisBit && (wOp iword).extractLsb' 1 4 = 0x7

/-- `w_dcdR` -/
def wDcdR : BitVec 5 :=
  BitVec.ofBool
      (if !iword.getLsbD cisBit && !c.optNoUsermode && wMov c iword && !iGie then
        iword.getLsbD immSel
      else iGie)
    ++ iword.extractLsb' 27 4

/-- The result register is `CC` or `PC`, in either set. -/
def wDcdRHigh : Bool := (iword.extractLsb' 27 4).extractLsb' 1 3 = 0x7

def wFpu : Bool :=
  !iword.getLsbD cisBit && (wOp iword).extractLsb' 3 2 = 0b11 && !wDcdRHigh iword
    && (wOp iword).extractLsb' 1 2 ≠ 0b00

def wSpecial : Bool :=
  !iword.getLsbD cisBit && (!c.optFpu || wDcdRHigh iword) && (wOp iword).extractLsb' 2 3 = 0b111

def wBreak : Bool := wSpecial c iword && wOp iword = 0x1c

def wLock : Bool := wSpecial c iword && wOp iword = 0x1d

def wSim : Bool := wSpecial c iword && wOp iword = 0x1e

def wNoop : Bool := wSpecial c iword && (wOp iword).extractLsb' 1 4 = 0xf

/-- `w_rB` -/
def wRB : Bool :=
  wMov c iword
    || !iword.getLsbD cisBit && iword.getLsbD immSel && !wLdi c iword && !wSpecial c iword
    || iword.getLsbD cisBit && iword.getLsbD cisImmSel && !wLdi c iword
    || iword.getLsbD cisBit && wMem c iword

/-- `w_dcdB` -/
def wDcdB : BitVec 5 :=
  BitVec.ofBool
      (if !iword.getLsbD cisBit && wMov c iword && !c.optNoUsermode && !iGie then
        iword.getLsbD 13
      else iGie)
    ++ (if iword.getLsbD cisBit then
        (if !iword.getLsbD cisImmSel && iword.extractLsb' 25 2 = 0b10 then cpuSpReg
        else iword.extractLsb' 19 4)
      else iword.extractLsb' 14 4)

def wDcdRPc : Bool := wDcdR c iGie iword = BitVec.ofBool iGie ++ cpuPcReg

def wDcdRCc : Bool := wDcdR c iGie iword = BitVec.ofBool iGie ++ cpuCcReg

def wDcdBPc : Bool := wRB c iword && (wDcdB c iGie iword).extractLsb' 0 4 = cpuPcReg

def wDcdBCc : Bool := wRB c iword && (wDcdB c iGie iword).extractLsb' 0 4 = cpuCcReg

/-- `w_cond` -/
def wCond : BitVec 4 :=
  if wLdi c iword || wSpecial c iword || iword.getLsbD cisBit then 0x8
  else BitVec.ofBool (iword.extractLsb' 19 3 = 0) ++ iword.extractLsb' 19 3

/-- `w_rA` -/
def wRA : Bool :=
  wFpu iword && c.optFpu || wDiv iword || wALU c iword && !wBrev c iword && !wMov c iword
    || wSto c iword || wCmptst c iword

/-- `w_wR` -/
def wWR : Bool := !(wSto c iword || wSpecial c iword || wCmptst c iword)

/-- `w_wF` -/
def wWF : Bool :=
  wCmptst c iword
    || (wCond c iword).getLsbD 3
      && (wFpu iword && c.optFpu || wDiv iword
        || wALU c iword && !wMov c iword && !wLdilo c iword && !wBrev c iword && !wDcdRHigh iword)

/-- `w_fullI` -/
def wFullI : BitVec 23 :=
  if wLdi c iword then iword.extractLsb' 0 23
  else if wMov c iword then (iword.extractLsb' 0 13).signExtend 23
  else if !iword.getLsbD immSel then (iword.extractLsb' 0 18).signExtend 23
  else (iword.extractLsb' 0 14).signExtend 23

/-- `w_halfI` -/
def wHalfI : BitVec 8 :=
  if iword.extractLsb' 24 3 = 0x6 then iword.extractLsb' 16 8
  else if iword.getLsbD cisImmSel then (iword.extractLsb' 16 3).signExtend 8
  else (iword.extractLsb' 16 7).signExtend 8

/-- `w_I` -/
def wI : BitVec 23 :=
  if c.optCis && iword.getLsbD cisBit then (wHalfI iword).signExtend 23 else wFullI c iword

/-- What the registers are loaded with. -/
def decode : Issue where
  oDcdR :=
    BitVec.ofBool (wDcdRCc c iGie iword) ++ BitVec.ofBool (wDcdRPc c iGie iword)
      ++ wDcdR c iGie iword
  oDcdA :=
    BitVec.ofBool (wDcdRCc c iGie iword) ++ BitVec.ofBool (wDcdRPc c iGie iword)
      ++ wDcdR c iGie iword
  oDcdB :=
    BitVec.ofBool (wDcdBCc c iGie iword) ++ BitVec.ofBool (wDcdBPc c iGie iword)
      ++ wDcdB c iGie iword
  rI := wI c iword
  oZI := wI c iword = 0
  oCond := wCond c iword
  oWF := wWF c iword
  oOp :=
    if wLdi c iword || wNoop c iword || wLock c iword then 0xd
    else (wCisOp c iword).extractLsb' 0 4
  oALU :=
    wALU c iword || wLdi c iword || wCmptst c iword || wNoop c iword
      || !c.optLock && wLock c iword
  oM := wMem c iword
  oDV := c.optDivide && wDiv iword
  oFP := c.optFpu && wFpu iword
  oBreak := wBreak c iword
  oLock := c.optLock && wLock c iword
  oWR := wWR c iword
  oRA := wRA c iword
  oRB := wRB c iword

end Decode

end Idecode

open Idecode

/-- The registers of `idecode`. -/
structure Idecode where
  out : Issue
  oIllegal : Bool
  rNxtHalf : BitVec 15
  rPhase : Bool
  rLjmp : Bool
  rEarlyBranch : Bool
  rEarlyBranchStb : Bool
  rValid : Bool
  rInsnIsPipeable : Bool
  rPipe : Bool

namespace Idecode

variable (c : Config) (s : Idecode) (i : Input)

/-- `o_phase` -/
def oPhase : Bool := c.optCis && s.rPhase

/-- `o_ljmp` -/
def oLjmp : Bool := c.optEarlyBranching && s.rLjmp

/-- `o_early_branch` -/
def oEarlyBranch : Bool := c.optEarlyBranching && s.rEarlyBranch

/-- `o_early_branch_stb` -/
def oEarlyBranchStb : Bool := c.optEarlyBranching && s.rEarlyBranchStb

/-- `o_valid` -/
def oValid : Bool := s.rValid

/-- `o_pipe` -/
def oPipe : Bool := c.optOpipe && s.rPipe

/-- `pf_valid` -/
def pfValid : Bool := i.iPfValid && !oEarlyBranchStb c s

/-- `iword`: the second half of a word is moved up. -/
def iword : BitVec 32 :=
  if c.optCis then
    if oPhase c s then 1#1 ++ s.rNxtHalf ++ i.iInstruction.extractLsb' 0 16 else i.iInstruction
  else 0#1 ++ i.iInstruction.extractLsb' 0 31

/-- `w_cis_ljmp` -/
def wCisLjmp : Bool :=
  c.optEarlyBranching && (c.optCis && (oPhase c s && (iword c s i).extractLsb' 16 16 = 0xfcf8))

/-- `w_ljmp` -/
def wLjmp : Bool := c.optEarlyBranching && iword c s i = 0x7c87c000

/-- What makes an instruction illegal that is not the second half of a word. -/
def illegal : Bool :=
  !c.optCis && i.iInstruction.getLsbD cisBit
    || !c.optMpy && wMpy c (iword c s i)
    || !c.optDivide && wDiv (iword c s i)
    || c.optDivide && wDiv (iword c s i) && wDcdRHigh (iword c s i)
    || !c.optFpu && wFpu (iword c s i)
    || !c.optSim && wSim c (iword c s i)
    || wDcdRHigh (iword c s i) && (wCisOp c (iword c s i)).extractLsb' 1 4 = 0b1101
    || !c.optLock && wLock c (iword c s i)
    || i.iIllegal

/-- `pipe_addr_diff` -/
def pipeAddrDiff : BitVec 14 :=
  (wI c (iword c s i)).extractLsb' 0 14 - s.out.rI.extractLsb' 0 14

/-- A memory operation may follow this instruction back to back. -/
def pipeable (iGie : Bool) (w : BitVec 32) : Bool :=
  wMem c w && wRB c w && (wDcdB c iGie w).extractLsb' 1 3 ≠ 0x7
    && (wDcdR c iGie w).extractLsb' 1 3 ≠ 0x7
    && ((wCisOp c w).getLsbD 0 || wDcdB c iGie w ≠ wDcdR c iGie w)

/-- This instruction may follow the one before back to back. -/
def follows (w : BitVec 32) : Bool :=
  s.rInsnIsPipeable && wMem c w && s.out.oOp.getLsbD 0 = (wCisOp c w).getLsbD 0 && wRB c w
    && (wDcdB c i.iGie w).extractLsb' 0 4 = s.out.oDcdB.extractLsb' 0 4
    && ((wCond c w).extractLsb' 0 3 = s.out.oCond.extractLsb' 0 3
      || s.out.oCond.extractLsb' 0 3 = 0x0)
    && (wI c w).getLsbD 13 = s.out.rI.getLsbD 13
    && pipeAddrDiff c s i ≤ 0x4

/-- One clock of `idecode`. -/
def step : Idecode where
  out := if i.iCe then decode c i.iGie (iword c s i) else s.out
  rNxtHalf :=
    if i.iCe then (if c.optCis then (iword c s i).extractLsb' 0 15 else 0) else s.rNxtHalf
  oIllegal :=
    if i.iReset then false
    else if i.iCe && oPhase c s then s.oIllegal
    else if i.iCe && i.iPfValid then illegal c s i
    else s.oIllegal
  rPhase :=
    if i.iReset || oLjmp c s then false
    else if i.iCe && pfValid c s i then
      if oPhase c s then false else i.iInstruction.getLsbD cisBit && !i.iIllegal
    else if i.iCe then false
    else s.rPhase
  rLjmp :=
    if i.iReset then false
    else if i.iCe then
      if s.rLjmp && pfValid c s i then false
      else if oEarlyBranchStb c s then false
      else if pfValid c s i then
        if c.optCis && (iword c s i).getLsbD cisBit then wCisLjmp c s i else wLjmp c s i
      else if c.optCis && oPhase c s && (iword c s i).getLsbD cisBit then wCisLjmp c s i
      else s.rLjmp
    else s.rLjmp
  rEarlyBranch :=
    if i.iReset then false
    else if i.iCe && pfValid c s i then
      s.rLjmp || !(iword c s i).getLsbD cisBit
        && ((iword c s i).extractLsb' 27 4 = cpuPcReg && ((wCond c (iword c s i)).getLsbD 3
          && (wAdd c (iword c s i) && !(iword c s i).getLsbD immSel)))
    else if i.iCe then false
    else s.rEarlyBranch
  rEarlyBranchStb :=
    if i.iReset then false
    else if i.iCe && pfValid c s i then
      s.rLjmp || !(iword c s i).getLsbD cisBit
        && ((iword c s i).extractLsb' 27 4 = cpuPcReg && ((wCond c (iword c s i)).getLsbD 3
          && (wAdd c (iword c s i) && !(iword c s i).getLsbD immSel)))
    else false
  rInsnIsPipeable :=
    if !c.optOpipe || i.iReset then false
    else if i.iCe && (!pfValid c s i || i.iIllegal) && !oPhase c s then false
    else if oLjmp c s then false
    else if i.iCe && (!c.optCis && i.iInstruction.getLsbD cisBit) then false
    else if i.iCe then pipeable c i.iGie (iword c s i)
    else s.rInsnIsPipeable
  rPipe :=
    if i.iReset then false
    else if i.iCe then (pfValid c s i || oPhase c s) && follows c s i (iword c s i)
    else s.rPipe
  rValid :=
    if i.iReset then false
    else if c.optPipelined then
      if i.iCe then (pfValid c s i || oPhase c s) && !oLjmp c s
      else if !i.iStalled then false
      else s.rValid
    else if !i.iStalled then (pfValid c s i || oPhase c s) && !oLjmp c s
    else false

/-- The registers at power up, as far as they have an initial value. -/
structure Initial : Prop where
  oIllegal : s.oIllegal = false
  rPhase : s.rPhase = false
  rLjmp : s.rLjmp = false
  rEarlyBranch : s.rEarlyBranch = false
  rEarlyBranchStb : s.rEarlyBranchStb = false
  rValid : s.rValid = false
  rInsnIsPipeable : s.rInsnIsPipeable = false
  rPipe : s.rPipe = false

end Idecode

end ZBasic
