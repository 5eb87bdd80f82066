import ZBasic.Clocked.Bits
import ZBasic.Clocked.Ring
import ZBasic.Clocked.Run
import ZBasic.Wishbone.Reads

/-!
# The instruction cache

`pfcache` keeps `2 ^ l` lines of `2 ^ s` words, with a tag of `t` bits each. At every clock it
looks up both the address it is given and the one before, to choose between the two when it
knows whether the word was taken. A line that is not there is read from the bus; a line that
ends in a bus error is remembered as illegal.
-/

namespace ZBasic

open Clocked Wishbone

/-- The registers of `pfcache`. -/
structure Pfcache (t l s : ℕ) where
  cache : BitVec (l + s) → BitVec 32
  cacheTags : BitVec l → BitVec t
  validMask : BitVec l → Bool
  rVFromPc : Bool
  rVFromLast : Bool
  rNewRequest : Bool
  rvsrc : Bool
  lastpc : BitVec (t + l + s + 2)
  wraddr : BitVec (l + s)
  tagvalipc : BitVec t
  tagvallst : BitVec t
  illegalValid : Bool
  illegalCache : BitVec (t + l)
  rPcCache : BitVec 32
  rLastCache : BitVec 32
  rPc : BitVec (t + l + s + 2)
  rLastpc : BitVec (t + l + s + 2)
  isrc : Bool
  delay : BitVec 2
  svmask : Bool
  lastAck : Bool
  needload : Bool
  lastAddr : Bool
  busAbort : Bool
  saddr : BitVec l
  oWbCyc : Bool
  oWbStb : Bool
  oWbAddr : BitVec (t + l + s)
  oIllegal : Bool
  rPriorIllegal : Bool

namespace Pfcache

variable {t l s : ℕ}

/-! ### Addresses -/

/-- The address of the word at a program counter. -/
def wordOf (pc : BitVec (t + l + s + 2)) : BitVec (t + l + s) := pc.extractLsb' 2 (t + l + s)

/-- `[(AW-1):LS]`, the line of an address. -/
def lineOf (a : BitVec (t + l + s)) : BitVec (t + l) := a.extractLsb' s (t + l)

/-- `[(LS-1):0]`, the place of an address in its line. -/
def offsetOf (a : BitVec (t + l + s)) : BitVec s := a.extractLsb' 0 s

/-- `[(CW-1):LS]` of an address, where its line goes in the cache. -/
def setOf (line : BitVec (t + l)) : BitVec l := line.extractLsb' 0 l

/-- `[(AW-1):CW]` of an address, its tag. -/
def tagOf (line : BitVec (t + l)) : BitVec t := line.extractLsb' l t

/-- All but the lowest bit of a place in a line are set. -/
def nearEnd (offset : BitVec s) : Bool := offset.extractLsb' 1 (s - 1) == BitVec.allOnes (s - 1)

/-- The inputs at a clock. -/
structure Input (t l s : ℕ) where
  iReset : Bool
  iNewPc : Bool
  iClearCache : Bool
  iStallN : Bool
  iPc : BitVec (t + l + s + 2)
  iWbStall : Bool
  iWbAck : Bool
  iWbErr : Bool
  iWbData : BitVec 32

/-- `w_invalidate_result` -/
def Input.wInvalidateResult (i : Input t l s) : Bool := i.iReset || i.iClearCache

/-- The registers with an initial value. -/
structure Initial (p : Pfcache t l s) : Prop where
  validMask : ∀ set, p.validMask set = false
  rVFromPc : p.rVFromPc = false
  rVFromLast : p.rVFromLast = false
  rNewRequest : p.rNewRequest = false
  lastpc : p.lastpc = 0
  wraddr : p.wraddr = 0
  tagvalipc : p.tagvalipc = 0
  tagvallst : p.tagvallst = 0
  illegalValid : p.illegalValid = false
  illegalCache : p.illegalCache = 0
  rPc : p.rPc = 0
  rLastpc : p.rLastpc = 0
  delay : p.delay = 3
  svmask : p.svmask = false
  lastAck : p.lastAck = false
  needload : p.needload = false
  lastAddr : p.lastAddr = false
  busAbort : p.busAbort = false
  oWbCyc : p.oWbCyc = false
  oWbStb : p.oWbStb = false
  oWbAddr : p.oWbAddr = 0
  oIllegal : p.oIllegal = false
  rPriorIllegal : p.rPriorIllegal = false

section Wires

variable (p : Pfcache t l s) (i : Input t l s)

/-- `o_pc` -/
def oPc : BitVec (t + l + s + 2) := if p.isrc then p.rPc else p.rLastpc

/-- `o_insn` -/
def oInsn : BitVec 32 := if p.isrc then p.rPcCache else p.rLastCache

/-- `tagval` -/
def tagval : BitVec t := if p.isrc then p.tagvalipc else p.tagvallst

/-- The line `lastpc` is in. -/
def lasttag : BitVec (t + l) := lineOf (wordOf p.lastpc)

/-- `(rvsrc)?(r_v_from_pc):(r_v_from_last)` -/
def fromCache : Bool := if p.rvsrc then p.rVFromPc else p.rVFromLast

/-- `r_v` -/
def rV : Bool := p.fromCache && !p.rNewRequest

/-- `o_valid` -/
def oValid : Bool := (p.fromCache || p.oIllegal) && !i.iNewPc && !p.rPriorIllegal

/-- `w_advance` -/
def wAdvance : Bool := i.iNewPc || p.rV && i.iStallN

/-- `w_v_from_pc` -/
def wVFromPc : Bool :=
  lineOf (wordOf i.iPc) == p.lasttag && p.tagval == tagOf (lineOf (wordOf i.iPc))
    && p.validMask (setOf (lineOf (wordOf i.iPc)))

/-- `w_v_from_last` -/
def wVFromLast : Bool := p.tagval == tagOf p.lasttag && p.validMask (setOf p.lasttag)

/-- A request is accepted by the bus. -/
def request : Bool := p.oWbStb && !i.iWbStall

/-- What it reads from the bus. -/
def read : Read (BitVec (t + l + s)) (BitVec 32) where
  cyc := p.oWbCyc
  request := if p.request i then some p.oWbAddr else none
  ack := i.iWbAck
  err := i.iWbErr
  data := i.iWbData

/-- One clock of `pfcache`. -/
def step : Pfcache t l s where
  isrc := p.wAdvance i
  rPcCache := p.cache ((wordOf i.iPc).extractLsb' 0 (l + s))
  rLastCache := p.cache ((wordOf p.lastpc).extractLsb' 0 (l + s))
  rPc := i.iPc
  rLastpc := p.lastpc
  tagvalipc := p.cacheTags (setOf (lineOf (wordOf i.iPc)))
  tagvallst := p.cacheTags (setOf p.lasttag)
  lastpc := if p.wAdvance i then i.iPc else p.lastpc
  rvsrc := i.iReset || i.iClearCache || p.wAdvance i
  delay :=
    if i.iReset || i.iClearCache || p.wAdvance i then 2
    else if !p.rV && !p.oIllegal then
      if p.oWbCyc then 2
      else if p.delay ≠ 0 then p.delay + 3
      else p.delay
    else if p.oIllegal then 2
    else p.delay
  rNewRequest := i.wInvalidateResult
  rVFromPc := p.wVFromPc i && !i.wInvalidateResult && !p.oIllegal
  rVFromLast := p.wVFromLast && !i.wInvalidateResult
  rPriorIllegal := p.oWbCyc && i.iWbErr
  needload :=
    if i.iClearCache || p.oWbCyc then false
    else if p.wAdvance i && !p.oIllegal then false
    else p.delay == 0 && !p.wVFromLast && (!p.illegalValid || p.lasttag != p.illegalCache)
  lastAddr :=
    if !p.oWbCyc then false
    else if nearEnd (offsetOf p.oWbAddr) && (!i.iWbStall || p.oWbAddr.getLsbD 0) then true
    else p.lastAddr
  lastAck :=
    p.oWbCyc && nearEnd (p.wraddr.extractLsb' 0 s) && (p.wraddr.getLsbD 0 || i.iWbAck)
  busAbort :=
    if !p.oWbCyc then false
    else if i.iClearCache || i.iNewPc then true
    else p.busAbort
  oWbCyc :=
    if i.iReset || i.iClearCache then false
    else if p.oWbCyc then !(i.iWbAck && p.lastAck || i.iWbErr)
    else p.needload && !i.iNewPc
  oWbStb :=
    if i.iReset || i.iClearCache then false
    else if p.oWbCyc then p.oWbStb && !i.iWbErr && !(!i.iWbStall && p.lastAddr)
    else if p.needload && !i.iNewPc then true
    else p.oWbStb
  cacheTags :=
    if p.oWbCyc && i.iWbAck then
      Function.update p.cacheTags (setOf (lineOf p.oWbAddr)) (tagOf (lineOf p.oWbAddr))
    else p.cacheTags
  wraddr :=
    if p.oWbCyc && i.iWbAck && !p.lastAck then p.wraddr + 1
    else if !p.oWbCyc then setOf p.lasttag ++ 0#s
    else p.wraddr
  oWbAddr :=
    if p.request i && !p.lastAddr then lineOf p.oWbAddr ++ (offsetOf p.oWbAddr + 1)
    else if !p.oWbCyc then p.lasttag ++ 0#s
    else p.oWbAddr
  cache := if p.oWbCyc then Function.update p.cache p.wraddr i.iWbData else p.cache
  svmask :=
    if i.iReset || i.iClearCache then false
    else p.oWbCyc && i.iWbAck && p.lastAck && !p.busAbort
  validMask := fun set =>
    if i.iReset || i.iClearCache then false
    else if !p.oWbCyc && p.needload && set == setOf p.lasttag then false
    else if p.svmask && set == p.saddr then !p.busAbort
    else p.validMask set
  saddr := if p.oWbCyc && i.iWbAck then p.wraddr.extractLsb' s l else p.saddr
  illegalCache :=
    if i.iReset || i.iClearCache then 0
    else if p.oWbCyc && i.iWbErr then lineOf p.oWbAddr
    else p.illegalCache
  illegalValid :=
    if i.iReset || i.iClearCache then false
    else if p.oWbCyc && i.iWbErr then true
    else p.illegalValid
  oIllegal :=
    if i.iReset || i.iClearCache || i.iNewPc then false
    else if p.oIllegal || p.oValid i && i.iStallN then false
    else p.illegalValid && p.illegalCache == p.lasttag

end Wires

/-! ### Lines and places -/

theorem lineOf_append (line : BitVec (t + l)) (offset : BitVec s) :
  lineOf (line ++ offset) = line
  := by rw [lineOf, extract_append_high _ _ (Nat.le_refl s), Nat.sub_self, extract_all]

theorem offsetOf_append (line : BitVec (t + l)) (offset : BitVec s) :
  offsetOf (line ++ offset) = offset
  := by rw [offsetOf, extract_append_low _ _ (by omega), extract_all]

theorem append_line_offset (a : BitVec (t + l + s)) :
  lineOf a ++ offsetOf a = a
  := extract_append_extract a

/-- Where a word goes in the cache. -/
theorem extract_index (a : BitVec (t + l + s)) :
  a.extractLsb' 0 (l + s) = setOf (lineOf a) ++ offsetOf a
  := by
  have hparts := extract_append_extract (a.extractLsb' 0 (l + s))
  rw [extract_extract a (by omega), extract_extract a (by omega)] at hparts
  rw [← hparts, setOf, lineOf, extract_extract a (by omega), offsetOf, Nat.zero_add]
  rfl

/-- A line is known by its tag and by where it goes in the cache. -/
theorem line_ext {x y : BitVec (t + l)} (htag : tagOf x = tagOf y) (hset : setOf x = setOf y) :
  x = y
  := by
  rw [← extract_append_extract x, ← extract_append_extract y]
  exact congrArg₂ _ htag hset

theorem nearEnd_ofNat {k : ℕ} (hs : 0 < s) (hk : k < 2 ^ s) :
  nearEnd (BitVec.ofNat s k) = decide (2 ^ s ≤ k + 2)
  := by
  have hpow : 2 ^ s = 2 * 2 ^ (s - 1) := (mul_pow_sub_one hs.ne' 2).symm
  have hpos := Nat.two_pow_pos (s - 1)
  have hhalf : k / 2 < 2 ^ (s - 1) := by omega
  rw [nearEnd, beq_eq_decide, decide_eq_decide, ← BitVec.toNat_inj, BitVec.extractLsb'_toNat,
    BitVec.toNat_ofNat, BitVec.toNat_allOnes, Nat.mod_eq_of_lt hk, Nat.shiftRight_eq_div_pow,
    Nat.pow_one, Nat.mod_eq_of_lt hhalf]
  omega

theorem toNat_append_ofNat {n k : ℕ} (x : BitVec n) (hk : k < 2 ^ s) :
  (x ++ BitVec.ofNat s k).toNat = x.toNat * 2 ^ s + k
  := by
  have hlt : (BitVec.ofNat s k).toNat < 2 ^ s := (BitVec.ofNat s k).isLt
  rw [BitVec.toNat_append, ← Nat.shiftLeft_add_eq_or_of_lt hlt, Nat.shiftLeft_eq,
    BitVec.toNat_ofNat, Nat.mod_eq_of_lt hk]

theorem append_ofNat_succ {n k : ℕ} (x : BitVec n) (hk : k + 1 < 2 ^ s) :
  x ++ BitVec.ofNat s k + 1 = x ++ BitVec.ofNat s (k + 1)
  := by
  have hbound := (x ++ BitVec.ofNat s (k + 1)).isLt
  have hk' := Nat.lt_of_succ_lt hk
  rw [toNat_append_ofNat x hk] at hbound
  have hpos : 1 < 2 ^ (n + s) := by omega
  apply BitVec.eq_of_toNat_eq
  rw [BitVec.toNat_add, toNat_append_ofNat x hk, toNat_append_ofNat x hk', toNat_one_of_lt hpos,
    Nat.add_assoc, Nat.mod_eq_of_lt hbound]

theorem getLsbD_append_ofNat {n k : ℕ} (x : BitVec n) (hs : 0 < s) :
  (x ++ BitVec.ofNat s k).getLsbD 0 = decide (k % 2 = 1)
  := by
  rw [BitVec.getLsbD_append, if_pos hs, BitVec.getLsbD_ofNat, Nat.testBit_zero]
  simp [hs]

theorem append_ofNat_inj {n j k : ℕ} {x : BitVec n} (hj : j < 2 ^ s) (hk : k < 2 ^ s)
    (h : x ++ BitVec.ofNat s j = x ++ BitVec.ofNat s k) :
  j = k
  := by
  have hnat := congrArg BitVec.toNat h
  rw [toNat_append_ofNat x hj, toNat_append_ofNat x hk] at hnat
  omega

theorem set_of_append {x y : BitVec l} {v w : BitVec s} (h : x ++ v = y ++ w) :
  x = y
  := by
  have hhigh := congrArg (fun z : BitVec (l + s) => z.extractLsb' s l) h
  simpa [extract_append_high] using hhigh

end Pfcache

end ZBasic
