import ZBasic.Clocked.Bits
import ZBasic.Clocked.DigitArithmetic
import ZBasic.Clocked.OneAtATime
import Mathlib.Tactic.Use

/-!
# The divide unit

`div` finds one bit of the quotient a clock, by long division. A signed division with a
negative operand takes a clock before these to make the operands positive, and one after
them to negate the quotient if it is to be negative; a division by zero ends at once.
-/

namespace ZBasic

open Clocked

/-- The registers of `div`, for words of `bw` bits whose bits are counted by `lgbw` bits. -/
structure Div (bw lgbw : ℕ) where
  rBusy : Bool
  oBusy : Bool
  zeroDivisor : Bool
  oValid : Bool
  oErr : Bool
  rBit : BitVec lgbw
  lastBit : Bool
  preSign : Bool
  rZ : Bool
  rDividend : BitVec (2 * bw - 1)
  rDivisor : BitVec bw
  rSign : Bool
  oQuotient : BitVec bw
  rC : Bool

/-- The inputs of `div` at one clock. -/
structure DivInput (bw : ℕ) where
  iReset : Bool
  iWr : Bool
  iSigned : Bool
  iNumerator : BitVec bw
  iDenominator : BitVec bw

namespace Div

variable {bw lgbw : ℕ}

section Source

variable (s : Div bw lgbw) (i : DivInput bw)

/-- `diff` -/
def diff : BitVec (bw + 1) :=
  (s.rDividend.extractLsb' (bw - 1) bw).setWidth (bw + 1) - s.rDivisor.setWidth (bw + 1)

/-- `w_n` -/
def wN : Bool := s.oQuotient.getLsbD (bw - 1)

/-- `o_flags` -/
def oFlags : BitVec 4 := 0#1 ++ BitVec.ofBool s.wN ++ BitVec.ofBool s.rC ++ BitVec.ofBool s.rZ

/-- `r_busy` after the clock. -/
def nextRBusy : Bool :=
  if i.iReset then false
  else if i.iWr then true
  else if s.lastBit || s.zeroDivisor then false
  else s.rBusy

/-- `o_busy` after the clock. -/
def nextOBusy : Bool :=
  if i.iReset then false
  else if i.iWr then true
  else if (s.lastBit && !s.rSign) || s.zeroDivisor then false
  else if !s.rBusy then false
  else s.oBusy

/-- `o_valid` after the clock. -/
def nextValid : Bool :=
  if i.iReset || s.oValid then false
  else if s.rBusy && s.zeroDivisor then true
  else if s.rBusy then
    if s.lastBit then !s.rSign else s.oValid
  else s.rSign

/-- `r_dividend` after the clock. -/
def nextDividend : BitVec (2 * bw - 1) :=
  if s.preSign then
    if s.rDividend.getLsbD (bw - 1) then
      put (BitVec.ofNat (2 * bw - 1) 0) 0 (-(1#1 ++ s.rDividend.extractLsb' 0 bw))
    else s.rDividend
  else if s.rBusy then
    if s.diff.getLsbD bw then s.rDividend <<< 1
    else put (s.rDividend <<< 1) bw (s.diff.extractLsb' 0 (bw - 1))
  else (0#31 ++ i.iNumerator).setWidth (2 * bw - 1)

/-- `r_divisor` after the clock. -/
def nextDivisor : BitVec bw :=
  if i.iReset then 0
  else if s.preSign && s.rBusy then
    if s.rDivisor.getLsbD (bw - 1) then -s.rDivisor else s.rDivisor
  else if !s.rBusy then i.iDenominator
  else s.rDivisor

/-- `r_sign` after the clock. -/
def nextSign : Bool :=
  if i.iReset then false
  else if s.preSign then s.rDivisor.getLsbD (bw - 1) ^^ s.rDividend.getLsbD (bw - 1)
  else if s.rBusy then s.rSign && !s.zeroDivisor
  else false

/-- `o_quotient` after the clock. -/
def nextQuotient : BitVec bw :=
  if i.iReset then 0
  else if s.rBusy then
    if s.diff.getLsbD bw then s.oQuotient <<< 1 else put (s.oQuotient <<< 1) 0 1#1
  else if s.rSign then -s.oQuotient
  else 0

/-- One clock edge of `div`. -/
def step : Div bw lgbw where
  rBusy := s.nextRBusy i
  oBusy := s.nextOBusy i
  zeroDivisor := if i.iWr then i.iDenominator == 0 else s.zeroDivisor
  oValid := s.nextValid i
  oErr := !i.iReset && s.rBusy && s.zeroDivisor
  rBit := if i.iReset then 0 else if s.rBusy && !s.preSign then s.rBit + 1 else 0
  lastBit := !i.iReset && s.rBusy && s.rBit == BitVec.allOnes lgbw - 1
  preSign := !i.iReset && i.iWr && i.iSigned
    && (i.iNumerator.getLsbD (bw - 1) || i.iDenominator.getLsbD (bw - 1))
  rZ := if i.iWr then true
    else if s.rBusy && !s.preSign && !s.diff.getLsbD bw then false
    else s.rZ
  rDividend := s.nextDividend i
  rDivisor := s.nextDivisor i
  rSign := s.nextSign i
  oQuotient := s.nextQuotient i
  rC := !i.iReset && s.rBusy && s.diff == 0

/-- The registers with an initial value at power up; the others are arbitrary. -/
structure Initial : Prop where
  rBusy : s.rBusy = false
  oBusy : s.oBusy = false
  oValid : s.oValid = false
  oErr : s.oErr = false
  rBit : s.rBit = 0
  lastBit : s.lastBit = false
  preSign : s.preSign = false
  rDivisor : s.rDivisor = 0
  rSign : s.rSign = false
  oQuotient : s.oQuotient = 0
  rC : s.rC = false

end Source

/-! ### One digit -/

section Digit

variable {s : Div bw lgbw} {i : DivInput bw}

/-- The top of the dividend, which the divisor is compared with. -/
def window (s : Div bw lgbw) : ℕ := s.rDividend.toNat / 2 ^ (bw - 1)

theorem toNat_window (hbw : 0 < bw) :
  (s.rDividend.extractLsb' (bw - 1) bw).toNat = s.window
  := toNat_extract_high _ (by omega)

theorem toNat_diff (hbw : 0 < bw) :
  s.diff.toNat = if s.rDivisor.toNat ≤ s.window then s.window - s.rDivisor.toNat
    else 2 ^ (bw + 1) + s.window - s.rDivisor.toNat
  := by
  have hwindow := (s.rDividend.extractLsb' (bw - 1) bw).isLt
  rw [toNat_window hbw] at hwindow
  have hdivisor := s.rDivisor.isLt
  have hpow : 2 ^ (bw + 1) = 2 * 2 ^ bw := Nat.pow_succ'
  have hleft : s.window % 2 ^ (bw + 1) = s.window := Nat.mod_eq_of_lt (by omega)
  have hright : s.rDivisor.toNat % 2 ^ (bw + 1) = s.rDivisor.toNat :=
    Nat.mod_eq_of_lt (by omega)
  rw [diff, BitVec.toNat_sub, BitVec.toNat_setWidth, BitVec.toNat_setWidth, toNat_window hbw,
    hleft, hright]
  split_ifs with h
  · have hsum : 2 ^ (bw + 1) - s.rDivisor.toNat + s.window
        = s.window - s.rDivisor.toNat + 2 ^ (bw + 1) := by omega
    rw [hsum, Nat.add_mod_right, Nat.mod_eq_of_lt (by omega)]
  · rw [Nat.mod_eq_of_lt (by omega)]
    omega

/-- The top bit of the difference is the borrow. -/
theorem borrow_diff (hbw : 0 < bw) :
  s.diff.getLsbD bw = decide (s.window < s.rDivisor.toNat)
  := by
  have hmsb : s.diff.getLsbD bw = s.diff.msb := by
    rw [BitVec.msb_eq_getLsbD_last, Nat.add_sub_cancel]
  have hwindow := (s.rDividend.extractLsb' (bw - 1) bw).isLt
  rw [toNat_window hbw] at hwindow
  have hdivisor := s.rDivisor.isLt
  have hpow : 2 ^ (bw + 1) = 2 * 2 ^ bw := Nat.pow_succ'
  rw [hmsb, BitVec.msb_eq_decide, Nat.add_sub_cancel, toNat_diff hbw, decide_eq_decide]
  split_ifs <;> omega

theorem diff_beq_zero (hbw : 0 < bw) :
  (s.diff == 0) = decide (s.window = s.rDivisor.toNat)
  := by
  have hdivisor := s.rDivisor.isLt
  have hpow : 2 ^ (bw + 1) = 2 * 2 ^ bw := Nat.pow_succ'
  have hzero : s.diff = 0 ↔ s.diff.toNat = 0 := by
    rw [← BitVec.toNat_inj]
    simp
  rw [Bool.eq_iff_iff, beq_iff_eq, decide_eq_true_iff, hzero, toNat_diff hbw]
  split_ifs <;> omega

/-- A digit taken in moves the dividend up by one, less the divisor where it fits. -/
theorem toNat_rDividend_step (hbw : 0 < bw) (hbusy : s.rBusy = true)
    (hpre : s.preSign = false) :
  (s.step i).rDividend.toNat
    = 2 ^ bw * ((if s.rDivisor.toNat ≤ s.window then s.window - s.rDivisor.toNat
        else s.window) % 2 ^ (bw - 1)) + 2 * (s.rDividend.toNat % 2 ^ (bw - 1))
  := by
  have hpow : 2 ^ bw = 2 * 2 ^ (bw - 1) := (mul_pow_sub_one hbw.ne' 2).symm
  have hfull : 2 ^ (2 * bw - 1) = 2 ^ bw * 2 ^ (bw - 1) := by
    rw [← Nat.pow_add]
    congr 1
    omega
  have hpos := Nat.two_pow_pos (bw - 1)
  have hlow := Nat.mod_lt s.rDividend.toNat hpos
  have hsplit : s.rDividend.toNat <<< 1
      = 2 ^ bw * s.window + 2 * (s.rDividend.toNat % 2 ^ (bw - 1)) := by
    rw [Nat.shiftLeft_eq, window, hpow]
    have := Nat.div_add_mod s.rDividend.toNat (2 ^ (bw - 1))
    calc s.rDividend.toNat * 2 ^ 1
        = 2 * (2 ^ (bw - 1) * (s.rDividend.toNat / 2 ^ (bw - 1))
          + s.rDividend.toNat % 2 ^ (bw - 1)) := by omega
      _ = _ := by ring
  have hdiv : (2 ^ bw * s.window + 2 * (s.rDividend.toNat % 2 ^ (bw - 1))) / 2 ^ bw
      = s.window := by
    rw [Nat.mul_add_div (Nat.two_pow_pos bw), Nat.div_eq_of_lt (by omega), Nat.add_zero]
  have hmod : (2 ^ bw * s.window + 2 * (s.rDividend.toNat % 2 ^ (bw - 1))) % 2 ^ bw
      = 2 * (s.rDividend.toNat % 2 ^ (bw - 1)) := by
    rw [Nat.mul_add_mod, Nat.mod_eq_of_lt (by omega)]
  simp only [step, nextDividend, hbusy, hpre, borrow_diff hbw, Bool.false_eq_true, if_false,
    if_true, decide_eq_true_eq]
  rcases Nat.lt_or_ge s.window s.rDivisor.toNat with h | h
  · rw [if_pos h, if_neg (Nat.not_le.mpr h), BitVec.toNat_shiftLeft, hsplit, hfull, Nat.mod_mul,
      hdiv, hmod, Nat.add_comm]
  · rw [if_neg (Nat.not_lt.mpr h), if_pos h, toNat_put_high _ _ (by omega), toNat_extract_low,
      toNat_diff hbw, if_pos h, BitVec.toNat_shiftLeft, hsplit, hfull, Nat.mod_mul_right_mod,
      hmod]

/-- A digit of the quotient is shifted in. -/
theorem toNat_oQuotient_step (hbw : 0 < bw) (hreset : i.iReset = false)
    (hbusy : s.rBusy = true) {j : ℕ} (hj : j < bw) :
  (s.step i).oQuotient.toNat % 2 ^ (j + 1)
    = 2 * (s.oQuotient.toNat % 2 ^ j) + if s.rDivisor.toNat ≤ s.window then 1 else 0
  := by
  have hdouble : (s.oQuotient <<< 1).toNat % 2 ^ (j + 1) = 2 * (s.oQuotient.toNat % 2 ^ j) := by
    rw [BitVec.toNat_shiftLeft, Nat.mod_mod_of_dvd _ (Nat.pow_dvd_pow 2 hj), Nat.shiftLeft_eq,
      Nat.pow_one, Nat.pow_succ, Nat.mul_mod_mul_right, Nat.mul_comm]
  simp only [step, nextQuotient, hreset, hbusy, borrow_diff hbw, Bool.false_eq_true, if_false,
    if_true, decide_eq_true_eq]
  rcases Nat.lt_or_ge s.window s.rDivisor.toNat with h | h
  · rw [if_pos h, if_neg (Nat.not_le.mpr h), hdouble, Nat.add_zero]
  · have hone : (1#1).toNat = 1 := rfl
    have hdvd : 2 ∣ 2 ^ (j + 1) := dvd_pow_self 2 (Nat.succ_ne_zero j)
    have heven : (s.oQuotient <<< 1).toNat % 2 = 0 := by
      rw [← Nat.mod_mod_of_dvd _ hdvd, hdouble, Nat.mul_mod_right]
    have hlt := Nat.mod_lt (s.oQuotient <<< 1).toNat (Nat.two_pow_pos (j + 1))
    have hparity : 2 ^ (j + 1) % 2 = 0 := Nat.mod_eq_zero_of_dvd hdvd
    have hback : 2 ^ 1 * ((s.oQuotient <<< 1).toNat / 2 ^ 1) = (s.oQuotient <<< 1).toNat := by
      omega
    have hsmall : 1 % 2 ^ (j + 1) = 1 := Nat.mod_eq_of_lt (by omega)
    rw [if_neg (Nat.not_lt.mpr h), if_pos h, toNat_put_low _ _ hbw, hone, hback, Nat.add_mod,
      hsmall, hdouble, Nat.mod_eq_of_lt (by omega)]

/-- After `j` digits, with `m + 1` to come, the divider holds the division of the digits
of `n` taken in so far by `d`. -/
structure Holds (s : Div bw lgbw) (n d m j q r : ℕ) : Prop where
  width : m + 1 + j = bw
  lt : n < 2 ^ bw
  divided : Divided n d (m + 1) q r
  rDivisor : s.rDivisor.toNat = d
  window : s.window = Divided.window n m r
  rest : s.rDividend.toNat % 2 ^ (bw - 1) = n % 2 ^ m * 2 ^ j
  oQuotient : s.oQuotient.toNat % 2 ^ j = q
  rZ : s.rZ = decide (q = 0)

variable {n d m j q r : ℕ}

theorem Holds.oQuotient_step (h : s.Holds n d m j q r) (hreset : i.iReset = false)
    (hbusy : s.rBusy = true) :
  (s.step i).oQuotient.toNat % 2 ^ (j + 1) = 2 * q + Divided.digit n d m r
  := by
  have hwidth := h.width
  rw [toNat_oQuotient_step (by omega) hreset hbusy (by omega), h.oQuotient, h.rDivisor,
    h.window, Divided.digit]

theorem Holds.rZ_step (h : s.Holds n d m j q r) (hwr : i.iWr = false)
    (hbusy : s.rBusy = true) (hpre : s.preSign = false) :
  (s.step i).rZ = decide (2 * q + Divided.digit n d m r = 0)
  := by
  have hwidth := h.width
  simp only [step, hwr, hbusy, hpre, borrow_diff (show 0 < bw by omega), h.rDivisor, h.window,
    h.rZ, Divided.digit]
  split_ifs <;> simp_all

/-- A digit taken in, with others to come. -/
theorem Holds.step (h : s.Holds n d (m + 1) j q r) (hreset : i.iReset = false)
    (hwr : i.iWr = false) (hbusy : s.rBusy = true) (hpre : s.preSign = false) :
  (s.step i).Holds n d m (j + 1) (2 * q + Divided.digit n d (m + 1) r)
    (Divided.left n d (m + 1) r)
  := by
  have hwidth := h.width
  have hpow : 2 ^ bw = 2 ^ (bw - 1) * 2 := (pow_sub_one_mul (by omega) 2).symm
  have hsmall : Divided.left n d (m + 1) r < 2 ^ (bw - 1) := by
    have hle := h.divided.window_le
    have hlt : n / 2 ^ (m + 1) < 2 ^ (bw - 1) := by
      apply Nat.div_lt_of_lt_mul
      calc n < 2 ^ bw := h.lt
        _ ≤ 2 ^ (m + 1 + (bw - 1)) := Nat.pow_le_pow_right (by omega) (by omega)
        _ = 2 ^ (m + 1) * 2 ^ (bw - 1) := Nat.pow_add 2 (m + 1) (bw - 1)
    rw [Divided.left]
    split_ifs <;> omega
  have hrest : n % 2 ^ m * 2 ^ (j + 1) < 2 ^ (bw - 1) := by
    calc n % 2 ^ m * 2 ^ (j + 1) < 2 ^ m * 2 ^ (j + 1) := by
          apply Nat.mul_lt_mul_of_pos_right (Nat.mod_lt _ (Nat.two_pow_pos m))
          apply Nat.two_pow_pos
      _ = 2 ^ (bw - 1) := by
          rw [← Nat.pow_add]
          congr 1
          omega
  -- The dividend holds what is left, the next digit, and the digits after it.
  have hdividend : (s.step i).rDividend.toNat
      = 2 ^ (bw - 1) * Divided.window n m (Divided.left n d (m + 1) r)
        + n % 2 ^ m * 2 ^ (j + 1) := by
    have hplace : 2 ^ (bw - 1) = 2 ^ m * (2 ^ j * 2) := by
      rw [← Nat.pow_succ, ← Nat.pow_add]
      congr 1
      omega
    rw [toNat_rDividend_step (by omega) hbusy hpre, h.rest, h.rDivisor, h.window,
      ← Divided.left, Nat.mod_eq_of_lt hsmall, mod_two_pow_succ, hpow, hplace, Nat.pow_succ,
      Divided.window]
    ring
  constructor
  · omega
  · apply h.lt
  · apply h.divided.step
  · simp [Div.step, nextDivisor, hreset, hbusy, hpre, h.rDivisor]
  · rw [Div.window, hdividend, Nat.mul_add_div (Nat.two_pow_pos _), Nat.div_eq_of_lt hrest,
      Nat.add_zero]
  · rw [hdividend, Nat.mul_add_mod, Nat.mod_eq_of_lt hrest]
  · apply h.oQuotient_step hreset hbusy
  · apply h.rZ_step hwr hbusy hpre

/-- The carry that a digit leaves says whether the divisor was what it was compared with. -/
theorem Holds.rC_step (h : s.Holds n d m j q r) (hreset : i.iReset = false)
    (hbusy : s.rBusy = true) :
  (s.step i).rC = decide (n / 2 ^ m / d % 2 = 1 ∧ d ∣ n / 2 ^ m)
  := by
  have hwidth := h.width
  simp only [Div.step, hreset, hbusy, diff_beq_zero (show 0 < bw by omega), h.rDivisor, h.window,
    h.divided.window_eq_iff, Bool.not_false, Bool.true_and]

end Digit

end Div

end ZBasic
