import ZBasic.Clocked.Bits
import Mathlib.Tactic.Positivity
import Mathlib.Tactic.Ring
import Mathlib.Tactic.Use
import Mathlib.Tactic.SplitIfs

/-!
# The arithmetic unit and its flags

`cpuops` has the result of an operation, its carry and what its other flags depend on one
clock after the operation is started. `zipcpu` tests the flags for the condition of an
instruction by a mask and the values that the flags under the mask are to have.
-/

namespace ZBasic

open Clocked

/-- The registers of `cpuops`. -/
structure Cpuops where
  setOvfl : Bool
  keepSgnOnOvfl : Bool
  preSign : Bool
  c : Bool
  oC : BitVec 32
  rBusy : Bool
  oValid : Bool

/-- The inputs of `cpuops` at one clock, and what its multiplier gives it. -/
structure CpuopsInput where
  iReset : Bool
  iStb : Bool
  iOp : BitVec 4
  iA : BitVec 32
  iB : BitVec 32
  mpydone : Bool
  mpybusy : Bool
  mpyResult : BitVec 64
  mpyhi : Bool

namespace Cpuops

section Shifts

variable (iA iB : BitVec 32)

/-- An amount by which every bit is shifted out, the carry included. -/
def shiftsOut : Bool :=
  iB.extractLsb' 6 26 != 0 || (iB.getLsbD 5 && iB.extractLsb' 0 5 != 0)

/-- `w_asr_result` -/
def wAsrResult : BitVec 33 :=
  if iB.extractLsb' 5 27 != 0 then (iA.extractLsb' 31 1).signExtend 33
  else (iA ++ 0#1).sshiftRight' (iB.extractLsb' 0 5)

/-- `w_lsr_result` -/
def wLsrResult : BitVec 33 :=
  if shiftsOut iB then 0
  else if iB.getLsbD 5 then 0#32 ++ iA.extractLsb' 31 1
  else (iA ++ 0#1) >>> iB.extractLsb' 0 5

/-- `w_lsl_result` -/
def wLslResult : BitVec 33 :=
  if shiftsOut iB then 0
  else if iB.getLsbD 5 then iA.extractLsb' 0 1 ++ 0#32
  else (0#1 ++ iA) <<< iB.extractLsb' 0 5

end Shifts

section Source

variable (implementMpy : ℕ) (s : Cpuops) (i : CpuopsInput)

/-- A result below its carry, `{c, o_c}`. -/
def carryHigh (r : BitVec 33) : Bool × BitVec 32 := (r.getLsbD 32, r.extractLsb' 0 32)

/-- A result above its carry, `{o_c, c}`. -/
def carryLow (r : BitVec 33) : Bool × BitVec 32 := (r.getLsbD 0, r.extractLsb' 1 32)

/-- The carry and the result of an operation. -/
def result : Bool × BitVec 32 :=
  if i.iOp = 0x0 then carryHigh ((0#1 ++ i.iA) - (0#1 ++ i.iB))
  else if i.iOp = 0x1 then (false, i.iA &&& i.iB)
  else if i.iOp = 0x2 then carryHigh (i.iA.setWidth 33 + i.iB.setWidth 33)
  else if i.iOp = 0x3 then (false, i.iA ||| i.iB)
  else if i.iOp = 0x4 then (false, i.iA ^^^ i.iB)
  else if i.iOp = 0x5 then carryLow (wLsrResult i.iA i.iB)
  else if i.iOp = 0x6 then carryHigh (wLslResult i.iA i.iB)
  else if i.iOp = 0x7 then carryLow (wAsrResult i.iA i.iB)
  else if i.iOp = 0x8 then (false, i.iB.reverse)
  else if i.iOp = 0x9 then (false, i.iA.extractLsb' 16 16 ++ i.iB.extractLsb' 0 16)
  else if i.iOp = 0xa then (false, i.mpyResult.extractLsb' 32 32)
  else if i.iOp = 0xb then (false, i.mpyResult.extractLsb' 32 32)
  else if i.iOp = 0xc then (false, i.mpyResult.extractLsb' 0 32)
  else (false, i.iB)

/-- The signs of the operands allow an addition or a subtraction to overflow. -/
def mayOverflow : Bool :=
  (i.iOp == 0x0 && i.iA.getLsbD 31 != i.iB.getLsbD 31)
    || (i.iOp == 0x2 && i.iA.getLsbD 31 == i.iB.getLsbD 31)

/-- `this_is_a_multiply_op` -/
def thisIsAMultiplyOp : Bool := i.iStb && (i.iOp.extractLsb' 1 3 == 0x5 || i.iOp == 0xc)

/-- One clock edge of `cpuops`. -/
def step : Cpuops where
  setOvfl := if i.iStb then mayOverflow i || i.iOp == 0x6 || i.iOp == 0x5 else s.setOvfl
  keepSgnOnOvfl := if i.iStb then mayOverflow i else s.keepSgnOnOvfl
  preSign := if i.iStb then i.iA.getLsbD 31 else s.preSign
  c := if i.iStb then (result i).1 else s.c
  oC := if i.iStb then (result i).2
    else if i.mpyhi then i.mpyResult.extractLsb' 32 32
    else i.mpyResult.extractLsb' 0 32
  rBusy := !i.iReset && decide (1 < implementMpy)
    && ((i.iStb && thisIsAMultiplyOp i) || i.mpybusy)
  oValid := !i.iReset && if implementMpy ≤ 1 then i.iStb
    else (i.iStb && !thisIsAMultiplyOp i) || i.mpydone

/-- `z` -/
def z : Bool := s.oC == 0

/-- `n` -/
def n : Bool := s.oC.getLsbD 31

/-- `v` -/
def v : Bool := s.setOvfl && s.preSign != s.oC.getLsbD 31

/-- `vx` -/
def vx : Bool := s.keepSgnOnOvfl && s.preSign != s.oC.getLsbD 31

/-- `o_f` -/
def oF : BitVec 4 :=
  BitVec.ofBool s.v ++ BitVec.ofBool (s.n ^^ s.vx) ++ BitVec.ofBool s.c ++ BitVec.ofBool s.z

end Source

end Cpuops

namespace Zipcpu

/-- `r_op_F` for the condition of an instruction. -/
def rOpF (dcdF : BitVec 3) : BitVec 7 :=
  if dcdF = 0 then 0x00
  else if dcdF = 1 then 0x11
  else if dcdF = 2 then 0x44
  else if dcdF = 3 then 0x22
  else if dcdF = 4 then 0x08
  else if dcdF = 5 then 0x10
  else if dcdF = 6 then 0x40
  else 0x20

/-- `op_F` -/
def opF (dcdF : BitVec 3) : BitVec 8 := BitVec.ofBool ((rOpF dcdF).getLsbD 3) ++ rOpF dcdF

/-- `set_cond` -/
def setCond (dcdF : BitVec 3) (opFl : BitVec 4) : Bool :=
  (opF dcdF).extractLsb' 4 4 &&& opFl == (opF dcdF).extractLsb' 0 4

/-- What the conditions ask of the flags. -/
theorem setCond_eq (v n c z : Bool) :
  let f := BitVec.ofBool v ++ BitVec.ofBool n ++ BitVec.ofBool c ++ BitVec.ofBool z
  setCond 0 f = true ∧ setCond 1 f = z ∧ setCond 2 f = n ∧ setCond 3 f = c ∧ setCond 4 f = v
    ∧ setCond 5 f = !z ∧ setCond 6 f = !n ∧ setCond 7 f = !c
  := by cases v <;> cases n <;> cases c <;> cases z <;> decide

end Zipcpu

namespace Cpuops

/-! ### Results and carries -/

theorem toNat_carryHigh (r : BitVec 33) :
  (carryHigh r).2.toNat = r.toNat % 2 ^ 32 ∧ ((carryHigh r).1 = true ↔ r.toNat / 2 ^ 32 = 1)
  := by
  have hlt := r.isLt
  constructor
  · rw [carryHigh, toNat_extract_low]
  · rw [carryHigh, BitVec.getLsbD, Nat.testBit_eq_decide_div_mod_eq, decide_eq_true_iff]
    omega

theorem toNat_carryLow (r : BitVec 33) :
  (carryLow r).2.toNat = r.toNat / 2 ∧ ((carryLow r).1 = true ↔ r.toNat % 2 = 1)
  := by
  constructor
  · have hhigh := toNat_extract_high r (a := 1) (n := 32) rfl
    rw [carryLow, hhigh, Nat.pow_one]
  · rw [carryLow, BitVec.getLsbD, Nat.testBit_zero, decide_eq_true_iff]

theorem toInt_carryLow (r : BitVec 33) :
  (carryLow r).2.toInt = r.toInt / 2 ∧ ((carryLow r).1 = true ↔ r.toInt % 2 = 1)
  := by
  have hlt := r.isLt
  obtain ⟨hword, hcarry⟩ := toNat_carryLow r
  rw [hcarry, BitVec.toInt_eq_toNat_cond, BitVec.toInt_eq_toNat_cond, hword]
  constructor
  · split_ifs <;> omega
  · split_ifs <;> omega

theorem shiftsOut_eq (iB : BitVec 32) :
  shiftsOut iB = decide (32 < iB.toNat)
  := by
  have hlt := iB.isLt
  have hzero : ∀ {w : ℕ} (x : BitVec w), (x != 0) = decide (x.toNat ≠ 0) := by
    intro w x
    rw [Bool.eq_iff_iff, bne_iff_ne, decide_eq_true_iff, not_iff_not, ← BitVec.toNat_inj]
    simp
  rw [shiftsOut, hzero, hzero, toNat_extract_low, BitVec.extractLsb'_toNat,
    Nat.shiftRight_eq_div_pow, BitVec.getLsbD, Nat.testBit_eq_decide_div_mod_eq,
    ← Bool.decide_and, ← Bool.decide_or, decide_eq_decide]
  omega

/-- An amount that does not shift everything out. -/
theorem shiftsOut_cases {iB : BitVec 32} (h : shiftsOut iB = false) :
  (iB.getLsbD 5 = true ∧ iB.toNat = 32)
    ∨ (iB.getLsbD 5 = false ∧ (iB.extractLsb' 0 5).toNat = iB.toNat ∧ iB.toNat < 32)
  := by
  rw [shiftsOut_eq, decide_eq_false_iff_not] at h
  rw [toNat_extract_low, BitVec.getLsbD, Nat.testBit_eq_decide_div_mod_eq, decide_eq_true_iff,
    decide_eq_false_iff_not]
  omega

/-- Shifting right a word that is followed by a zero. -/
theorem toNat_wLsrResult (iA iB : BitVec 32) :
  (wLsrResult iA iB).toNat = 2 * iA.toNat / 2 ^ iB.toNat
  := by
  have hlt := iA.isLt
  rw [wLsrResult]
  cases hout : shiftsOut iB with
  | true =>
      rw [shiftsOut_eq, decide_eq_true_iff] at hout
      have hpow : 2 ^ 33 ≤ 2 ^ iB.toNat := Nat.pow_le_pow_right Nat.two_pos hout
      rw [if_pos rfl, Nat.div_eq_of_lt (by omega)]
      rfl
  | false =>
      rw [if_neg Bool.false_ne_true]
      rcases shiftsOut_cases hout with ⟨hbit, hamount⟩ | ⟨hbit, hamount, -⟩
      · have hzero : (0#32).toNat = 0 := rfl
        rw [hbit, if_pos rfl, hamount, BitVec.toNat_append, hzero, Nat.zero_shiftLeft,
          Nat.zero_or, toNat_extract_high _ rfl]
        omega
      · have hzero : (0#1).toNat = 0 := rfl
        rw [hbit, if_neg Bool.false_ne_true, BitVec.ushiftRight_eq', BitVec.toNat_ushiftRight,
          hamount, BitVec.toNat_append, hzero, Nat.or_zero, Nat.shiftLeft_eq, Nat.pow_one,
          Nat.shiftRight_eq_div_pow, Nat.mul_comm]

/-- Shifting left a word that is preceded by a zero. -/
theorem toNat_wLslResult (iA iB : BitVec 32) :
  (wLslResult iA iB).toNat = iA.toNat * 2 ^ iB.toNat % 2 ^ 33
  := by
  rw [wLslResult]
  cases hout : shiftsOut iB with
  | true =>
      rw [shiftsOut_eq, decide_eq_true_iff] at hout
      have hdvd : 2 ^ 33 ∣ iA.toNat * 2 ^ iB.toNat :=
        Dvd.dvd.mul_left (Nat.pow_dvd_pow 2 hout) _
      rw [if_pos rfl, Nat.mod_eq_zero_of_dvd hdvd]
      rfl
  | false =>
      rw [if_neg Bool.false_ne_true]
      rcases shiftsOut_cases hout with ⟨hbit, hamount⟩ | ⟨hbit, hamount, -⟩
      · have hzero : (0#32).toNat = 0 := rfl
        rw [hbit, if_pos rfl, hamount, BitVec.toNat_append, hzero, Nat.or_zero,
          toNat_extract_low, Nat.shiftLeft_eq]
        omega
      · have hzero : (0#1).toNat = 0 := rfl
        rw [hbit, if_neg Bool.false_ne_true, BitVec.shiftLeft_eq', BitVec.toNat_shiftLeft,
          hamount, BitVec.toNat_append, hzero, Nat.zero_shiftLeft, Nat.zero_or,
          Nat.shiftLeft_eq]

/-- Shifting right a signed word that is followed by a zero. -/
theorem toInt_wAsrResult (iA iB : BitVec 32) :
  (wAsrResult iA iB).toInt = 2 * iA.toInt / 2 ^ iB.toNat
  := by
  have hlt := iA.isLt
  have hcond : (iB.extractLsb' 5 27 != 0) = decide (32 ≤ iB.toNat) := by
    have hhigh := toNat_extract_high iB (a := 5) (n := 27) rfl
    rw [Bool.eq_iff_iff, bne_iff_ne, decide_eq_true_iff, ne_eq, ← BitVec.toNat_inj, hhigh]
    change ¬ iB.toNat / 2 ^ 5 = 0 ↔ _
    omega
  rw [wAsrResult, hcond]
  rcases Nat.lt_or_ge iB.toNat 32 with h | h
  · have hamount : (iB.extractLsb' 0 5).toNat = iB.toNat := by
      rw [toNat_extract_low]
      omega
    have hdouble : (iA ++ 0#1).toInt = 2 * iA.toInt := by
      have hzero : (0#1).toNat = 0 := rfl
      rw [BitVec.toInt_eq_toNat_cond, BitVec.toInt_eq_toNat_cond, BitVec.toNat_append, hzero,
        Nat.or_zero, Nat.shiftLeft_eq]
      split_ifs <;> omega
    rw [decide_eq_false (Nat.not_le.mpr h), if_neg Bool.false_ne_true, BitVec.sshiftRight_eq',
      hamount, BitVec.toInt_sshiftRight, hdouble, Int.shiftRight_eq_div_pow]
    norm_cast
  · have hpow : (2 : ℤ) ^ 32 ≤ 2 ^ iB.toNat := by
      exact_mod_cast Nat.pow_le_pow_right Nat.two_pos h
    have hsign := toNat_extract_high iA (a := 31) (n := 1) rfl
    rw [decide_eq_true h, if_pos rfl, BitVec.toInt_signExtend_of_le (by omega),
      BitVec.toInt_eq_toNat_cond, hsign]
    rcases Nat.lt_or_ge iA.toNat (2 ^ 31) with hpos | hneg
    · have hA : iA.toInt = iA.toNat := by
        rw [BitVec.toInt_eq_toNat_cond, if_pos (by omega)]
      rw [hA, Int.ediv_eq_zero_of_lt (by omega) (by omega), if_pos (by omega)]
      omega
    · have hA : iA.toInt = iA.toNat - 2 ^ 32 := by
        rw [BitVec.toInt_eq_toNat_cond, if_neg (by omega)]
        norm_cast
      rw [hA, Int.ediv_eq_neg_one_of_neg_of_le (by omega) (by omega), if_neg (by omega)]
      omega

/-! ### What an operation is to give -/

/-- The word `c` and the flags `f` (bits V, N, C, Z) tell of an exact result that is `u` for
operands read as unsigned and `x` for operands read as signed. -/
structure Exact (u x : ℤ) (c : BitVec 32) (f : BitVec 4) : Prop where
  unsigned : c = BitVec.ofInt 32 u
  signed : c = BitVec.ofInt 32 x
  zero : f.getLsbD 0 = true ↔ c = 0
  carry : f.getLsbD 1 = true ↔ u < 0 ∨ 2 ^ 32 ≤ u
  negative : f.getLsbD 2 = true ↔ x < 0
  overflow : f.getLsbD 3 = true ↔ x < -2 ^ 31 ∨ 2 ^ 31 ≤ x

/-- The conditions tell how `a` compares with `b`. -/
structure Compares (a b : BitVec 32) (f : BitVec 4) : Prop where
  z : Zipcpu.setCond 1 f = true ↔ a = b
  ne : Zipcpu.setCond 5 f = true ↔ a ≠ b
  lt : Zipcpu.setCond 2 f = true ↔ a.toInt < b.toInt
  ge : Zipcpu.setCond 6 f = true ↔ b.toInt ≤ a.toInt
  c : Zipcpu.setCond 3 f = true ↔ a.toNat < b.toNat
  nc : Zipcpu.setCond 7 f = true ↔ b.toNat ≤ a.toNat

/-- An operation that was started is done right one clock later. -/
structure Computes (i : CpuopsInput) (s : Cpuops) : Prop where
  oValid : s.oValid = true
  sub : i.iOp = 0x0 → Exact (i.iA.toNat - i.iB.toNat) (i.iA.toInt - i.iB.toInt) s.oC s.oF
  compares : i.iOp = 0x0 → Compares i.iA i.iB s.oF
  add : i.iOp = 0x2 → Exact (i.iA.toNat + i.iB.toNat) (i.iA.toInt + i.iB.toInt) s.oC s.oF
  lsr : i.iOp = 0x5 → s.oC.toNat = i.iA.toNat / 2 ^ i.iB.toNat
    ∧ s.oF.getLsbD 1 = (decide (0 < i.iB.toNat) && i.iA.getLsbD (i.iB.toNat - 1))
  lsl : i.iOp = 0x6 → s.oC.toNat = i.iA.toNat * 2 ^ i.iB.toNat % 2 ^ 32
    ∧ s.oF.getLsbD 1 = (decide (0 < i.iB.toNat ∧ i.iB.toNat ≤ 32)
      && i.iA.getLsbD (32 - i.iB.toNat))
  asr : i.iOp = 0x7 → s.oC.toInt = i.iA.toInt / 2 ^ i.iB.toNat
    ∧ s.oF.getLsbD 1 = decide (0 < i.iB.toNat ∧ i.iA.toInt / 2 ^ (i.iB.toNat - 1) % 2 = 1)

section Step

variable {implementMpy : ℕ} {s : Cpuops} {i : CpuopsInput}

theorem oF_eq (s : Cpuops) :
  s.oF.getLsbD 0 = s.z ∧ s.oF.getLsbD 1 = s.c ∧ s.oF.getLsbD 2 = (s.n ^^ s.vx)
    ∧ s.oF.getLsbD 3 = s.v
  := by
  rw [oF]
  cases s.v <;> cases s.n ^^ s.vx <;> cases s.c <;> cases s.z <;> decide

theorem getLsbD_top (x : BitVec 32) :
  x.getLsbD 31 = decide (2 ^ 31 ≤ x.toNat)
  := by
  have hlt := x.isLt
  rw [BitVec.getLsbD, Nat.testBit_eq_decide_div_mod_eq, decide_eq_decide]
  omega

theorem top_eq_neg (x : BitVec 32) :
  x.getLsbD 31 = decide (x.toInt < 0)
  := by
  have hlt := x.isLt
  rw [getLsbD_top, decide_eq_decide, BitVec.toInt_eq_toNat_cond]
  split_ifs <;> omega

/-- A word that stands for a number which is too large or too small by one bit. -/
theorem toInt_ofInt_cases {x : ℤ} (hlow : -2 ^ 32 ≤ x) (hhigh : x < 2 ^ 32) :
  (-2 ^ 31 ≤ x ∧ x < 2 ^ 31 ∧ (BitVec.ofInt 32 x).toInt = x)
    ∨ (x < -2 ^ 31 ∧ 0 ≤ (BitVec.ofInt 32 x).toInt)
    ∨ (2 ^ 31 ≤ x ∧ (BitVec.ofInt 32 x).toInt < 0)
  := by
  rw [BitVec.toInt_ofInt, Int.bmod_def]
  split_ifs <;> omega

/-- The flags of a sum or a difference `x`, where the unit marks that it may overflow only if
`x` has the sign of the first operand, and where it marks nothing only if `x` fits. -/
theorem exact_of_marks {a : BitVec 32} {u x : ℤ} (hsign : s.preSign = a.getLsbD 31)
    (hset : s.setOvfl = s.keepSgnOnOvfl) (hu : s.oC = BitVec.ofInt 32 u)
    (hx : s.oC = BitVec.ofInt 32 x) (hcarry : s.c = true ↔ u < 0 ∨ 2 ^ 32 ≤ u)
    (hlow : -2 ^ 32 ≤ x) (hhigh : x < 2 ^ 32)
    (hovfl : s.setOvfl = true → (x < 0 ↔ a.toInt < 0))
    (hfits : s.setOvfl = false → -2 ^ 31 ≤ x ∧ x < 2 ^ 31) :
  Exact u x s.oC s.oF
  := by
  obtain ⟨hz, hc, hn, hv⟩ := oF_eq s
  have hcases := toInt_ofInt_cases hlow hhigh
  rw [← hx] at hcases
  constructor
  · apply hu
  · apply hx
  · rw [hz, z, beq_iff_eq]
  · rw [hc]
    apply hcarry
  · rw [hn, n, vx, hsign, ← hset, top_eq_neg, top_eq_neg]
    cases hmark : s.setOvfl with
    | false =>
        have hfit := hfits hmark
        simp
        omega
    | true =>
        rw [hovfl hmark]
        cases decide (s.oC.toInt < 0) <;> simp
  · rw [hv, v, hsign, top_eq_neg, top_eq_neg]
    cases hmark : s.setOvfl with
    | false =>
        have hfit := hfits hmark
        simp
        omega
    | true =>
        rw [Bool.true_and, bne_iff_ne, ne_eq, decide_eq_decide, ← hovfl hmark]
        omega

theorem toInt_bounds (x : BitVec 32) :
  -2 ^ 31 ≤ x.toInt ∧ x.toInt < 2 ^ 31
  := by
  constructor
  · apply BitVec.le_toInt
  · apply BitVec.toInt_lt

theorem ofInt_sub (x y : ℤ) :
  BitVec.ofInt 32 (x - y) = BitVec.ofInt 32 x - BitVec.ofInt 32 y
  := by rw [Int.sub_eq_add_neg, BitVec.ofInt_add, BitVec.ofInt_neg, BitVec.sub_eq_add_neg]

theorem ofInt_toNat (x : BitVec 32) :
  BitVec.ofInt 32 x.toNat = x
  := by rw [BitVec.ofInt_natCast, BitVec.ofNat_toNat, BitVec.setWidth_eq]

/-- Subtractions. -/
theorem sub_step (hstb : i.iStb = true) (hop : i.iOp = 0x0) :
  Exact (i.iA.toNat - i.iB.toNat) (i.iA.toInt - i.iB.toInt) (step implementMpy s i).oC
    (step implementMpy s i).oF
  := by
  have hA := i.iA.isLt
  have hB := i.iB.isLt
  have hAint := toInt_bounds i.iA
  have hBint := toInt_bounds i.iB
  have hresult : result i = carryHigh ((0#1 ++ i.iA) - (0#1 ++ i.iB)) := by
    rw [result, if_pos hop]
  have hnat : ((0#1 ++ i.iA) - (0#1 ++ i.iB)).toNat
      = (2 ^ 33 - i.iB.toNat + i.iA.toNat) % 2 ^ 33 := by
    have hzero : (0#1).toNat = 0 := rfl
    rw [BitVec.toNat_sub, BitVec.toNat_append, BitVec.toNat_append, hzero, Nat.zero_shiftLeft,
      Nat.zero_or, Nat.zero_or]
  obtain ⟨hword, hcarry⟩ := toNat_carryHigh ((0#1 ++ i.iA) - (0#1 ++ i.iB))
  rw [hnat] at hword hcarry
  have hsub : (step implementMpy s i).oC = i.iA - i.iB := by
    apply BitVec.eq_of_toNat_eq
    simp only [step, hstb, if_true, hresult, hword, BitVec.toNat_sub]
    omega
  have hmark : (step implementMpy s i).setOvfl = (i.iA.getLsbD 31 != i.iB.getLsbD 31) := by
    simp [step, hstb, mayOverflow, hop]
  rw [top_eq_neg, top_eq_neg] at hmark
  apply exact_of_marks (a := i.iA)
  · simp [step, hstb]
  · simp [step, hstb, mayOverflow, hop]
  · rw [hsub, ofInt_sub, ofInt_toNat, ofInt_toNat]
  · rw [hsub, ofInt_sub, BitVec.ofInt_toInt, BitVec.ofInt_toInt]
  · simp only [step, hstb, if_true, hresult, hcarry]
    omega
  · omega
  · omega
  · intro hset
    rw [hset, eq_comm, bne_iff_ne, ne_eq, decide_eq_decide] at hmark
    omega
  · intro hset
    rw [hset, eq_comm, bne_eq_false_iff_eq, decide_eq_decide] at hmark
    omega

/-- Additions. -/
theorem add_step (hstb : i.iStb = true) (hop : i.iOp = 0x2) :
  Exact (i.iA.toNat + i.iB.toNat) (i.iA.toInt + i.iB.toInt) (step implementMpy s i).oC
    (step implementMpy s i).oF
  := by
  have hA := i.iA.isLt
  have hB := i.iB.isLt
  have hAint := toInt_bounds i.iA
  have hBint := toInt_bounds i.iB
  have hresult : result i = carryHigh (i.iA.setWidth 33 + i.iB.setWidth 33) := by
    simp [result, hop]
  have hnat : (i.iA.setWidth 33 + i.iB.setWidth 33).toNat = i.iA.toNat + i.iB.toNat := by
    rw [BitVec.toNat_add, BitVec.toNat_setWidth, BitVec.toNat_setWidth]
    omega
  obtain ⟨hword, hcarry⟩ := toNat_carryHigh (i.iA.setWidth 33 + i.iB.setWidth 33)
  rw [hnat] at hword hcarry
  have hadd : (step implementMpy s i).oC = i.iA + i.iB := by
    apply BitVec.eq_of_toNat_eq
    simp only [step, hstb, if_true, hresult, hword, BitVec.toNat_add]
  have hmark : (step implementMpy s i).setOvfl = (i.iA.getLsbD 31 == i.iB.getLsbD 31) := by
    simp [step, hstb, mayOverflow, hop]
  rw [top_eq_neg, top_eq_neg] at hmark
  apply exact_of_marks (a := i.iA)
  · simp [step, hstb]
  · simp [step, hstb, mayOverflow, hop]
  · rw [hadd, BitVec.ofInt_add, ofInt_toNat, ofInt_toNat]
  · rw [hadd, BitVec.ofInt_add, BitVec.ofInt_toInt, BitVec.ofInt_toInt]
  · simp only [step, hstb, if_true, hresult, hcarry]
    omega
  · omega
  · omega
  · intro hset
    rw [hset, eq_comm, beq_iff_eq, decide_eq_decide] at hmark
    omega
  · intro hset
    rw [hset, eq_comm, beq_eq_false_iff_ne, ne_eq, decide_eq_decide] at hmark
    omega

theorem flags_split (f : BitVec 4) :
  BitVec.ofBool (f.getLsbD 3) ++ BitVec.ofBool (f.getLsbD 2) ++ BitVec.ofBool (f.getLsbD 1)
    ++ BitVec.ofBool (f.getLsbD 0) = f
  := by
  revert f
  decide

/-- The flags of a difference tell how the operands compare. -/
theorem Exact.compares {a b c : BitVec 32} {f : BitVec 4}
    (h : Exact (a.toNat - b.toNat) (a.toInt - b.toInt) c f) :
  Compares a b f
  := by
  have hf := flags_split f
  have hconds := Zipcpu.setCond_eq (f.getLsbD 3) (f.getLsbD 2) (f.getLsbD 1) (f.getLsbD 0)
  rw [hf] at hconds
  obtain ⟨-, hz, hlt, hc, -, hne, hge, hnc⟩ := hconds
  have ha := a.isLt
  have hb := b.isLt
  have hzero : c = 0 ↔ a = b := by
    rw [h.signed, ofInt_sub, BitVec.ofInt_toInt, BitVec.ofInt_toInt]
    constructor
    · intro hsub
      rw [← BitVec.sub_add_cancel a b, hsub]
      simp
    · intro heq
      rw [heq, BitVec.sub_self]
      rfl
  have hzero' := h.zero
  have hcarry := h.carry
  have hneg := h.negative
  constructor
  · rw [hz, hzero', hzero]
  · rw [hne, Bool.not_eq_true', ← Bool.not_eq_true, hzero', hzero]
  · rw [hlt, hneg]
    omega
  · rw [hge, Bool.not_eq_true', ← Bool.not_eq_true, hneg]
    omega
  · rw [hc, hcarry]
    omega
  · rw [hnc, Bool.not_eq_true', ← Bool.not_eq_true, hcarry]
    omega

/-- Shifts to the right of an unsigned word. -/
theorem lsr_step (hstb : i.iStb = true) (hop : i.iOp = 0x5) :
  (step implementMpy s i).oC.toNat = i.iA.toNat / 2 ^ i.iB.toNat
    ∧ (step implementMpy s i).oF.getLsbD 1
      = (decide (0 < i.iB.toNat) && i.iA.getLsbD (i.iB.toNat - 1))
  := by
  have hresult : result i = carryLow (wLsrResult i.iA i.iB) := by simp [result, hop]
  obtain ⟨hword, hcarry⟩ := toNat_carryLow (wLsrResult i.iA i.iB)
  rw [toNat_wLsrResult] at hword hcarry
  rw [(oF_eq _).2.1, Bool.eq_iff_iff]
  simp only [step, hstb, if_true, hresult, hword, hcarry]
  constructor
  · rw [Nat.div_div_eq_div_mul, Nat.mul_comm (2 ^ i.iB.toNat),
      Nat.mul_div_mul_left _ _ Nat.two_pos]
  · cases i.iB.toNat with
    | zero => simp
    | succ m =>
        rw [Nat.pow_succ', Nat.mul_div_mul_left _ _ Nat.two_pos, BitVec.getLsbD,
          Nat.add_sub_cancel, Nat.testBit_eq_decide_div_mod_eq]
        simp

/-- Shifts to the left. -/
theorem lsl_step (hstb : i.iStb = true) (hop : i.iOp = 0x6) :
  (step implementMpy s i).oC.toNat = i.iA.toNat * 2 ^ i.iB.toNat % 2 ^ 32
    ∧ (step implementMpy s i).oF.getLsbD 1
      = (decide (0 < i.iB.toNat ∧ i.iB.toNat ≤ 32) && i.iA.getLsbD (32 - i.iB.toNat))
  := by
  have hresult : result i = carryHigh (wLslResult i.iA i.iB) := by simp [result, hop]
  obtain ⟨hword, hcarry⟩ := toNat_carryHigh (wLslResult i.iA i.iB)
  rw [toNat_wLslResult] at hword hcarry
  rw [(oF_eq _).2.1, Bool.eq_iff_iff]
  simp only [step, hstb, if_true, hresult, hword, hcarry]
  constructor
  · apply Nat.mod_mod_of_dvd
    decide
  · have hlt := i.iA.isLt
    have hbit : i.iA.toNat * 2 ^ i.iB.toNat % 2 ^ 33 / 2 ^ 32 = 1
        ↔ (i.iA.toNat <<< i.iB.toNat).testBit 32 = true := by
      rw [Nat.testBit_eq_decide_div_mod_eq, Nat.shiftLeft_eq, decide_eq_true_iff]
      omega
    rw [hbit, Nat.testBit_shiftLeft, BitVec.getLsbD]
    cases i.iB.toNat with
    | zero =>
        have hnone : i.iA.toNat.testBit 32 = false := Nat.testBit_lt_two_pow hlt
        simp [hnone]
    | succ m => simp

/-- Shifts to the right of a signed word. -/
theorem asr_step (hstb : i.iStb = true) (hop : i.iOp = 0x7) :
  (step implementMpy s i).oC.toInt = i.iA.toInt / 2 ^ i.iB.toNat
    ∧ (step implementMpy s i).oF.getLsbD 1
      = decide (0 < i.iB.toNat ∧ i.iA.toInt / 2 ^ (i.iB.toNat - 1) % 2 = 1)
  := by
  have hresult : result i = carryLow (wAsrResult i.iA i.iB) := by simp [result, hop]
  obtain ⟨hword, hcarry⟩ := toInt_carryLow (wAsrResult i.iA i.iB)
  rw [toInt_wAsrResult] at hword hcarry
  rw [(oF_eq _).2.1, Bool.eq_iff_iff, decide_eq_true_iff]
  simp only [step, hstb, if_true, hresult, hword, hcarry]
  constructor
  · have hpos : (0 : ℤ) ≤ 2 ^ i.iB.toNat := by positivity
    rw [Int.ediv_ediv_of_nonneg hpos, mul_comm _ (2 : ℤ),
      Int.mul_ediv_mul_of_pos _ _ (by decide)]
  · cases i.iB.toNat with
    | zero => simp
    | succ m =>
        rw [pow_succ', Int.mul_ediv_mul_of_pos _ _ (by decide), Nat.add_sub_cancel]
        simp

/-- Subtractions, additions and shifts are exact, and their flags and the conditions that
are tested on them tell what was exact about them. -/
theorem computes (hstb : i.iStb = true) (hreset : i.iReset = false)
    (hop : i.iOp = 0x0 ∨ i.iOp = 0x2 ∨ i.iOp = 0x5 ∨ i.iOp = 0x6 ∨ i.iOp = 0x7) :
  Computes i (step implementMpy s i)
  := by
  constructor
  · have hmpy : thisIsAMultiplyOp i = false := by
      rcases hop with hop | hop | hop | hop | hop <;> simp [thisIsAMultiplyOp, hop]
    simp [step, hstb, hreset, hmpy]
  · apply sub_step hstb
  · intro hsub
    apply (sub_step hstb hsub).compares
  · apply add_step hstb
  · apply lsr_step hstb
  · apply lsl_step hstb
  · apply asr_step hstb

/-- The least number is less than one, although their difference overflows. -/
theorem computes_overflow :
  Computes ⟨false, true, 0x0, 0x80000000, 1, false, false, 0, false⟩
    (step 3 ⟨false, false, false, false, 0, false, false⟩
      ⟨false, true, 0x0, 0x80000000, 1, false, false, 0, false⟩)
  := computes rfl rfl (Or.inl rfl)

end Step

end Cpuops

end ZBasic
