import ZBasic.Clocked.Counter
import ZBasic.Cpu.Div

/-!
# Divisions

What an operation of the divide unit does from the clock at which it is taken in to the one
at which its result is shown: the operands are made positive where some is negative, the
digits of the quotient are found one by one, and the quotient is negated where the signs
differ. From this follows that the divide unit works on one operation at a time.
-/

namespace ZBasic

open Clocked

/-! ### Operations -/

namespace DivInput

variable {bw : ℕ} (op : DivInput bw)

/-- The number that an operand stands for. -/
def value (v : BitVec bw) : ℤ := if op.iSigned then v.toInt else v.toNat

/-- The number to divide. -/
def numerator : ℤ := op.value op.iNumerator

/-- The number to divide by. -/
def denominator : ℤ := op.value op.iDenominator

/-- Some operand is negative. -/
def takesAbs : Bool := decide (op.numerator < 0) || decide (op.denominator < 0)

/-- The operands differ in sign. -/
def negates : Bool := decide (op.numerator < 0) ^^ decide (op.denominator < 0)

/-- The number of digits of the quotient that are found after the signs are taken care of.
The counter of words of two bits sees the last digit too early where there are signs. -/
def digits : ℕ := if bw = 2 ∧ op.takesAbs then 1 else bw

/-- The clocks that an operation takes. -/
def latency : ℕ :=
  if op.iDenominator = 0 then 2
  else 1 + op.takesAbs.toNat + op.digits + op.negates.toNat

variable {op}

theorem value_lt_zero (hbw : 0 < bw) (v : BitVec bw) :
  decide (op.value v < 0) = (op.iSigned && v.getLsbD (bw - 1))
  := by
  rw [value, ← BitVec.msb_eq_getLsbD_last]
  cases op.iSigned with
  | false => simp
  | true =>
      have hpow : 2 ^ bw = 2 * 2 ^ (bw - 1) := (mul_pow_sub_one hbw.ne' 2).symm
      simp only [if_true, Bool.true_and, BitVec.toInt_neg_iff, BitVec.msb_eq_decide, hpow,
        decide_eq_decide]
      omega

/-- The magnitude of a negative operand. -/
theorem natAbs_value (v : BitVec bw) :
  (op.value v).natAbs = if op.iSigned ∧ v.getLsbD (bw - 1) then 2 ^ bw - v.toNat else v.toNat
  := by
  have := v.isLt
  rw [value, ← BitVec.msb_eq_getLsbD_last]
  cases op.iSigned with
  | false => simp
  | true =>
      simp only [BitVec.toInt_eq_msb_cond, if_true, true_and]
      split_ifs <;> omega

theorem natAbs_value_lt (v : BitVec bw) :
  (op.value v).natAbs < 2 ^ bw
  := by
  have hlt := v.isLt
  rw [natAbs_value]
  split_ifs with hneg
  · have hpos : v.toNat ≠ 0 := by
      intro hzero
      have hv : v = BitVec.ofNat bw 0 := BitVec.eq_of_toNat_eq (by simpa using hzero)
      simp [hv] at hneg
    omega
  · apply hlt

theorem natAbs_value_pos {v : BitVec bw} (hv : v ≠ 0) :
  0 < (op.value v).natAbs
  := by
  have hlt := v.isLt
  have hpos : v.toNat ≠ 0 := by
    intro hzero
    apply hv (BitVec.eq_of_toNat_eq (by simpa using hzero))
  rw [natAbs_value]
  split_ifs <;> omega

theorem denominator_eq_zero :
  op.denominator = 0 ↔ op.iDenominator = 0
  := by
  constructor
  · intro hzero
    by_contra hden
    have hpos : 0 < op.denominator.natAbs := natAbs_value_pos hden
    rw [hzero] at hpos
    contradiction
  · intro hzero
    simp [denominator, value, hzero]

variable (op) in
theorem numerator_lt :
  op.numerator.natAbs < 2 ^ bw
  := natAbs_value_lt op.iNumerator

theorem denominator_pos (hden : op.iDenominator ≠ 0) :
  0 < op.denominator.natAbs
  := natAbs_value_pos hden

/-- Where an operand is taken the magnitude of, the division is signed. -/
theorem iSigned_of_takesAbs (h : op.takesAbs = true) :
  op.iSigned = true
  := by
  by_contra hsigned
  simp only [takesAbs, numerator, denominator, value, hsigned, Bool.or_eq_true,
    decide_eq_true_eq, if_false] at h
  omega

theorem takesAbs_of_negates (h : op.negates = true) :
  op.takesAbs = true
  := by
  rw [negates] at h
  rw [takesAbs]
  generalize decide (op.numerator < 0) = a at *
  generalize decide (op.denominator < 0) = b at *
  cases a <;> cases b <;> simp_all

theorem natAbs_value_of_not_takesAbs (h : op.takesAbs = false) (hbw : 0 < bw) :
  op.numerator.natAbs = op.iNumerator.toNat ∧ op.denominator.natAbs = op.iDenominator.toNat
  := by
  rw [takesAbs, Bool.or_eq_false_iff, numerator, denominator, value_lt_zero hbw,
    value_lt_zero hbw] at h
  rw [numerator, denominator, natAbs_value, natAbs_value]
  simp_all

variable (op) in
theorem ofInt_value (v : BitVec bw) :
  BitVec.ofInt bw (op.value v) = v
  := by
  rw [value]
  split_ifs
  · apply BitVec.ofInt_toInt
  · rw [BitVec.ofInt_natCast, BitVec.ofNat_toNat, BitVec.setWidth_eq]

end DivInput

namespace Div

variable {bw lgbw : ℕ}

/-! ### Stages of an operation -/

/-- The operands are in place. -/
structure Loaded (op : DivInput bw) (s : Div bw lgbw) : Prop where
  rBusy : s.rBusy = true
  oBusy : s.oBusy = true
  zeroDivisor : s.zeroDivisor = (op.iDenominator == 0)
  oValid : s.oValid = false
  oErr : s.oErr = false
  rBit : s.rBit = 0
  lastBit : s.lastBit = false
  preSign : s.preSign = op.takesAbs
  rZ : s.rZ = true
  rDividend : s.rDividend.toNat = op.iNumerator.toNat
  rDivisor : s.rDivisor = op.iDenominator
  rSign : s.rSign = false

/-- The digit that is found while the operands are made positive. It is shifted out of all words
but those of two bits. -/
def earlyDigit (op : DivInput bw) : ℕ :=
  if op.iDenominator.toNat ≤ op.iNumerator.toNat / 2 ^ (bw - 1) then 1 else 0

/-- There are `j` digits of the quotient. -/
structure Dividing (op : DivInput bw) (j : ℕ) (s : Div bw lgbw) : Prop where
  rBusy : s.rBusy = true
  oBusy : s.oBusy = true
  zeroDivisor : s.zeroDivisor = false
  oValid : s.oValid = false
  oErr : s.oErr = false
  rBit : s.rBit.toNat = j
  lastBit : s.lastBit = decide (j + 1 = op.digits)
  preSign : s.preSign = false
  rSign : s.rSign = op.negates
  lt : j < op.digits
  holds : ∃ m q r, s.Holds op.numerator.natAbs op.denominator.natAbs m j q r
  early : bw = 2 → op.takesAbs = true → s.oQuotient.toNat % 2 = earlyDigit op

/-- The magnitude of the quotient, as far as its digits are found. -/
def found (op : DivInput bw) : ℕ :=
  op.numerator.natAbs / 2 ^ (bw - op.digits) / op.denominator.natAbs

/-- The quotient is to be negated. -/
structure Negating (op : DivInput bw) (s : Div bw lgbw) : Prop where
  rBusy : s.rBusy = false
  oBusy : s.oBusy = true
  oValid : s.oValid = false
  oErr : s.oErr = false
  preSign : s.preSign = false
  rSign : s.rSign = true
  oQuotient : s.oQuotient.toNat % 2 ^ op.digits = found op
  early : bw = 2 → op.takesAbs = true → s.oQuotient.toNat = 2 * earlyDigit op + found op
  rZ : s.rZ = decide (found op = 0)

/-- The result is shown. -/
structure Done (op : DivInput bw) (s : Div bw lgbw) : Prop where
  rBusy : s.rBusy = false
  oBusy : s.oBusy = false
  oValid : s.oValid = true
  oErr : s.oErr = (op.iDenominator == 0)
  preSign : s.preSign = false
  oQuotient : op.iDenominator ≠ 0 → ∃ x : BitVec bw, x.toNat % 2 ^ op.digits = found op
    ∧ (bw = 2 → op.takesAbs = true → x.toNat = 2 * earlyDigit op + found op)
    ∧ s.oQuotient = if op.negates then -x else x
  rZ : op.iDenominator ≠ 0 → s.rZ = decide (found op = 0)
  rC : op.iDenominator ≠ 0 → s.rC = (!op.negates && decide (found op % 2 = 1
    ∧ op.denominator.natAbs ∣ op.numerator.natAbs / 2 ^ (bw - op.digits)))

/-- The stages of an operation. -/
inductive Stage (op : DivInput bw) : ℕ → Div bw lgbw → Prop
  | loaded {s : Div bw lgbw} (h : s.Loaded op) : Stage op 1 s
  | dividing {s : Div bw lgbw} {j : ℕ} (hden : op.iDenominator ≠ 0) (h : s.Dividing op j) :
      Stage op (1 + op.takesAbs.toNat + j) s
  | negating {s : Div bw lgbw} (hden : op.iDenominator ≠ 0) (hneg : op.negates = true)
      (h : s.Negating op) : Stage op (1 + op.takesAbs.toNat + op.digits) s
  | done {s : Div bw lgbw} (h : s.Done op) : Stage op op.latency s

/-- The divider can take in an operation. -/
structure Ready (s : Div bw lgbw) : Prop where
  rBusy : s.rBusy = false
  oBusy : s.oBusy = false
  preSign : s.preSign = false
  rSign : s.oValid = false → s.rSign = false

/-- The divider has nothing to do and shows nothing. -/
structure Idle (s : Div bw lgbw) : Prop extends Ready s where
  oValid : s.oValid = false
  oErr : s.oErr = false

/-! ### One clock -/

section Step

variable {s : Div bw lgbw} {op i : DivInput bw} {j : ℕ}

theorem idle_reset (hreset : i.iReset = true) :
  (s.step i).Idle
  := by
  constructor
  · constructor <;> simp [step, nextRBusy, nextOBusy, nextSign, hreset]
  · simp [step, nextValid, hreset]
  · simp [step, hreset]

theorem Ready.oValid_step (h : s.Ready) :
  (s.step i).oValid = false
  := by
  cases hvalid : s.oValid with
  | true => simp [step, nextValid, hvalid]
  | false => simp [step, nextValid, h.rBusy, h.rSign hvalid]

theorem Ready.idle_step (h : s.Ready) (hwr : i.iWr = false) :
  (s.step i).Idle
  := by
  constructor
  · constructor <;> simp [step, nextRBusy, nextOBusy, nextSign, h.rBusy, h.preSign, hwr]
  · apply h.oValid_step
  · simp [step, h.rBusy]

/-- An operation is taken in. -/
theorem Ready.loaded_step (hbw : 0 < bw) (h : s.Ready) (hreset : i.iReset = false)
    (hwr : i.iWr = true) :
  (s.step i).Loaded i
  := by
  constructor
  case oValid => apply h.oValid_step
  case preSign =>
    rw [DivInput.takesAbs, DivInput.numerator, DivInput.denominator,
      DivInput.value_lt_zero hbw, DivInput.value_lt_zero hbw, ← Bool.and_or_distrib_left]
    simp [step, hreset, hwr]
  case rDividend =>
    have hlt : i.iNumerator.toNat < 2 ^ (2 * bw - 1) :=
      Nat.lt_of_lt_of_le i.iNumerator.isLt (Nat.pow_le_pow_right (by omega) (by omega))
    simp [step, nextDividend, h.rBusy, h.preSign, Nat.mod_eq_of_lt hlt]
  all_goals
    simp [step, nextRBusy, nextOBusy, nextDivisor, nextSign, h.rBusy, h.preSign, hreset, hwr]

/-- Before the first digit. -/
theorem holds_start (hbw : 0 < bw) {n d : ℕ} (hn : n < 2 ^ bw) (hd : 0 < d)
    (hdividend : s.rDividend.toNat = n) (hdivisor : s.rDivisor.toNat = d) (hz : s.rZ = true) :
  s.Holds n d (bw - 1) 0 0 0
  := by
  have hwidth : bw - 1 + 1 = bw := by omega
  constructor
  · omega
  · apply hn
  · rw [hwidth]
    apply Divided.start hn hd
  · apply hdivisor
  · rw [window, hdividend, Divided.window]
    have hlt : n / 2 ^ (bw - 1) < 2 := by
      apply Nat.div_lt_of_lt_mul
      rwa [← Nat.pow_succ, Nat.succ_eq_add_one, hwidth]
    rw [Nat.mul_zero, Nat.zero_add, Nat.mod_eq_of_lt hlt]
  · rw [hdividend, Nat.pow_zero, Nat.mul_one]
  · rw [Nat.pow_zero, Nat.mod_one]
  · simp [hz]

/-- Operands that are not negative are divided as they are. -/
theorem Loaded.dividing (hlgbw : bw = 2 ^ lgbw) (hpos : 0 < lgbw) (h : s.Loaded op)
    (hden : op.iDenominator ≠ 0) (habs : op.takesAbs = false) :
  s.Dividing op 0
  := by
  have hbw : 1 < bw := hlgbw ▸ Nat.one_lt_two_pow hpos.ne'
  have hdigits : op.digits = bw := by simp [DivInput.digits, habs]
  have hneg : op.negates = false := by
    by_contra hneg
    rw [Bool.not_eq_false] at hneg
    rw [DivInput.takesAbs_of_negates hneg] at habs
    contradiction
  obtain ⟨hnum, hdenom⟩ := DivInput.natAbs_value_of_not_takesAbs habs (by omega)
  constructor
  · apply h.rBusy
  · apply h.oBusy
  · simpa [h.zeroDivisor] using hden
  · apply h.oValid
  · apply h.oErr
  · simp [h.rBit]
  · rw [h.lastBit, hdigits, eq_comm, decide_eq_false_iff_not]
    omega
  · rw [h.preSign, habs]
  · rw [h.rSign, hneg]
  · omega
  · use bw - 1, 0, 0
    apply holds_start (by omega) op.numerator_lt (DivInput.denominator_pos hden)
    · rw [h.rDividend, hnum]
    · rw [h.rDivisor, hdenom]
    · apply h.rZ
  · intro _ habs'
    rw [habs] at habs'
    contradiction

/-- A division by zero ends at once. -/
theorem Loaded.done_step (h : s.Loaded op) (hreset : i.iReset = false) (hwr : i.iWr = false)
    (hden : op.iDenominator = 0) :
  (s.step i).Done op
  := by
  have hzero : s.zeroDivisor = true := by rw [h.zeroDivisor, hden, beq_self_eq_true]
  constructor
  case oQuotient | rZ | rC =>
    intro hne
    contradiction
  case oErr => simp [step, hreset, h.rBusy, h.zeroDivisor]
  all_goals
    simp [step, nextRBusy, nextOBusy, nextValid, hreset, hwr, hzero, h.rBusy, h.oValid]

/-- The magnitude of a numerator. -/
theorem Loaded.rDividend_step (hbw : 1 < bw) (h : s.Loaded op) (habs : op.takesAbs = true) :
  (s.step i).rDividend.toNat = op.numerator.natAbs
  := by
  have hlt := op.iNumerator.isLt
  have hbit : s.rDividend.getLsbD (bw - 1) = op.iNumerator.getLsbD (bw - 1) := by
    rw [BitVec.getLsbD, BitVec.getLsbD, h.rDividend]
  rw [DivInput.numerator, DivInput.natAbs_value, DivInput.iSigned_of_takesAbs habs]
  simp only [step, nextDividend, h.preSign, habs, hbit, if_true, true_and]
  split_ifs with hneg
  · have hpow : 2 ^ (1 + bw) = 2 * 2 ^ bw := by rw [Nat.pow_add, Nat.pow_one]
    rw [toNat_put_low _ _ (by omega), BitVec.toNat_neg, BitVec.toNat_append, toNat_extract_low,
      h.rDividend, Nat.mod_eq_of_lt hlt, ← Nat.shiftLeft_add_eq_or_of_lt hlt,
      Nat.shiftLeft_eq, hpow]
    have hone : (1#1).toNat = 1 := rfl
    have hzero : (BitVec.ofNat (2 * bw - 1) 0).toNat = 0 := by simp
    rw [hone, hzero, Nat.zero_div, Nat.mul_zero, Nat.zero_add, Nat.mod_eq_of_lt (by omega)]
    omega
  · apply h.rDividend

/-- The magnitude of a denominator. -/
theorem Loaded.rDivisor_step (h : s.Loaded op) (hreset : i.iReset = false)
    (habs : op.takesAbs = true) :
  (s.step i).rDivisor.toNat = op.denominator.natAbs
  := by
  have hlt := op.iDenominator.isLt
  rw [DivInput.denominator, DivInput.natAbs_value, DivInput.iSigned_of_takesAbs habs]
  simp only [step, nextDivisor, hreset, h.preSign, h.rBusy, h.rDivisor, habs, if_true, true_and,
    Bool.and_self, Bool.false_eq_true, if_false]
  split_ifs with hneg
  · have hpos : op.iDenominator.toNat ≠ 0 := by
      intro hzero
      have hv : op.iDenominator = BitVec.ofNat bw 0 := BitVec.eq_of_toNat_eq (by simpa using hzero)
      simp [hv] at hneg
    rw [BitVec.toNat_neg, Nat.mod_eq_of_lt (by omega)]
  · rfl

theorem Loaded.rSign_step (hbw : 0 < bw) (h : s.Loaded op) (hreset : i.iReset = false)
    (habs : op.takesAbs = true) :
  (s.step i).rSign = op.negates
  := by
  have hbit : s.rDividend.getLsbD (bw - 1) = op.iNumerator.getLsbD (bw - 1) := by
    rw [BitVec.getLsbD, BitVec.getLsbD, h.rDividend]
  rw [DivInput.negates, DivInput.numerator, DivInput.denominator, DivInput.value_lt_zero hbw,
    DivInput.value_lt_zero hbw, DivInput.iSigned_of_takesAbs habs]
  simp [step, nextSign, hreset, h.preSign, habs, h.rDivisor, hbit, Bool.xor_comm]

theorem toNat_allOnes_pred (hpos : 0 < lgbw) :
  (BitVec.allOnes lgbw - 1).toNat = 2 ^ lgbw - 2
  := by
  have hpow := Nat.one_lt_two_pow (Nat.pos_iff_ne_zero.mp hpos)
  rw [toNat_pred (by rw [BitVec.toNat_allOnes]; omega), BitVec.toNat_allOnes]
  omega

/-- Where the last digit is next. -/
theorem lastBit_step (hlgbw : bw = 2 ^ lgbw) (hpos : 0 < lgbw) (hreset : i.iReset = false)
    (hbusy : s.rBusy = true) :
  (s.step i).lastBit = decide (s.rBit.toNat + 2 = bw)
  := by
  have hpow := Nat.one_lt_two_pow (Nat.pos_iff_ne_zero.mp hpos)
  have hlast : s.rBit = BitVec.allOnes lgbw - 1 ↔ s.rBit.toNat + 2 = bw := by
    rw [← BitVec.toNat_inj, toNat_allOnes_pred hpos]
    omega
  rw [Bool.eq_iff_iff, decide_eq_true_iff, ← hlast, ← beq_iff_eq (a := s.rBit)]
  simp [step, hreset, hbusy]

/-- Operands of which some is negative are made positive. -/
theorem Loaded.dividing_step (hlgbw : bw = 2 ^ lgbw) (hpos : 0 < lgbw) (h : s.Loaded op)
    (hreset : i.iReset = false) (hwr : i.iWr = false) (hden : op.iDenominator ≠ 0)
    (habs : op.takesAbs = true) :
  (s.step i).Dividing op 0
  := by
  have hbw : 1 < bw := hlgbw ▸ Nat.one_lt_two_pow hpos.ne'
  have hzero : s.zeroDivisor = false := by simpa [h.zeroDivisor] using hden
  have hdigits : op.digits = if bw = 2 then 1 else bw := by simp [DivInput.digits, habs]
  constructor
  case lastBit =>
    rw [lastBit_step hlgbw hpos hreset h.rBusy, h.rBit, hdigits, decide_eq_decide]
    have hnat : (0 : BitVec lgbw).toNat = 0 := by simp
    split_ifs <;> omega
  case rSign => apply h.rSign_step (by omega) hreset habs
  case lt =>
    rw [hdigits]
    split_ifs <;> omega
  case holds =>
    use bw - 1, 0, 0
    apply holds_start (by omega) op.numerator_lt (DivInput.denominator_pos hden)
    · apply h.rDividend_step hbw habs
    · apply h.rDivisor_step hreset habs
    · simp [step, hwr, h.rZ, h.preSign, habs]
  case early =>
    intro _ _
    have hdigit := toNat_oQuotient_step (s := s) (i := i) (by omega) hreset h.rBusy
      (show 0 < bw by omega)
    rw [Nat.zero_add, Nat.pow_zero, Nat.pow_one, Nat.mod_one, Nat.mul_zero, Nat.zero_add, window,
      h.rDivisor, h.rDividend] at hdigit
    apply hdigit
  all_goals
    simp [step, nextRBusy, nextOBusy, nextValid, hreset, hwr, hzero, h.rBusy, h.oBusy, h.oValid,
      h.lastBit, h.preSign, habs]

/-- A digit is found, and it is not the last. -/
theorem Dividing.step (hlgbw : bw = 2 ^ lgbw) (hpos : 0 < lgbw) (h : s.Dividing op j)
    (hreset : i.iReset = false) (hwr : i.iWr = false) (hlt : j + 1 < op.digits) :
  (s.step i).Dividing op (j + 1)
  := by
  have hbw : 1 < bw := hlgbw ▸ Nat.one_lt_two_pow hpos.ne'
  have hdigits : op.digits = bw := by
    rw [DivInput.digits] at hlt ⊢
    split_ifs at hlt ⊢ with habs
    · omega
    · rfl
  have hlast : s.lastBit = false := by
    rw [h.lastBit, decide_eq_false_iff_not]
    omega
  obtain ⟨m, q, r, hholds⟩ := h.holds
  have hwidth := hholds.width
  obtain ⟨m, rfl⟩ : ∃ m', m = m' + 1 := Nat.exists_eq_succ_of_ne_zero (by omega)
  constructor
  case rBit =>
    have hsucc : (s.step i).rBit = s.rBit + 1 := by
      simp [Div.step, hreset, h.rBusy, h.preSign]
    have hbit := h.rBit
    rw [hsucc, toNat_succ (by omega), hbit]
  case lastBit =>
    rw [lastBit_step hlgbw hpos hreset h.rBusy, h.rBit, hdigits]
  case lt => apply hlt
  case holds => exact ⟨m, _, _, hholds.step hreset hwr h.rBusy h.preSign⟩
  case early =>
    intro htwo habs
    rw [DivInput.digits, if_pos ⟨htwo, habs⟩] at hlt
    omega
  all_goals
    simp [Div.step, nextRBusy, nextOBusy, nextValid, nextSign, hreset, hwr, hlast, h.rBusy,
      h.oBusy, h.oValid, h.zeroDivisor, h.preSign, h.rSign]

/-- Words of two bits end up with the digit that was found too early before the last one. -/
theorem Dividing.early_step (h : s.Dividing op j) (hreset : i.iReset = false)
    (hlast : (s.step i).oQuotient.toNat % 2 ^ op.digits = found op) (htwo : bw = 2)
    (habs : op.takesAbs = true) :
  (s.step i).oQuotient.toNat = 2 * earlyDigit op + found op
  := by
  have hbefore := h.early htwo habs
  have hdigit := toNat_oQuotient_step (s := s) (i := i) (by omega) hreset h.rBusy
    (show 1 < bw by omega)
  have hlt : (s.step i).oQuotient.toNat < 2 ^ 2 :=
    Nat.lt_of_lt_of_eq (s.step i).oQuotient.isLt (congrArg _ htwo)
  rw [DivInput.digits, if_pos ⟨htwo, habs⟩, Nat.pow_one] at hlast
  rw [Nat.pow_one, hbefore] at hdigit
  split_ifs at hdigit <;> omega

/-- The last digit, and what it leaves. -/
theorem Dividing.found_step (h : s.Dividing op j) (hreset : i.iReset = false)
    (hwr : i.iWr = false) (hlast : j + 1 = op.digits) :
  (s.step i).oQuotient.toNat % 2 ^ op.digits = found op
    ∧ (s.step i).rZ = decide (found op = 0)
    ∧ (s.step i).rC = decide (found op % 2 = 1
      ∧ op.denominator.natAbs ∣ op.numerator.natAbs / 2 ^ (bw - op.digits))
  := by
  obtain ⟨m, q, r, hholds⟩ := h.holds
  have hwidth := hholds.width
  have hm : bw - op.digits = m := by omega
  rw [found, hm, ← hlast, ← hholds.divided.step.quotient]
  constructor
  · apply hholds.oQuotient_step hreset h.rBusy
  · constructor
    · apply hholds.rZ_step hwr h.rBusy h.preSign
    · rw [hholds.rC_step hreset h.rBusy, ← hholds.divided.step.quotient]

/-- The last digit of a quotient that is not to be negated. -/
theorem Dividing.done_step (h : s.Dividing op j) (hreset : i.iReset = false)
    (hwr : i.iWr = false) (hlast : j + 1 = op.digits) (hden : op.iDenominator ≠ 0)
    (hneg : op.negates = false) :
  (s.step i).Done op
  := by
  have hlastBit : s.lastBit = true := by simp [h.lastBit, hlast]
  have hsign : s.rSign = false := by rw [h.rSign, hneg]
  obtain ⟨hquotient, hz, hc⟩ := h.found_step (i := i) hreset hwr hlast
  constructor
  case oQuotient =>
    intro _
    use (s.step i).oQuotient, hquotient, h.early_step hreset hquotient
    simp [hneg]
  case rZ =>
    intro _
    apply hz
  case rC =>
    intro _
    rw [hc, hneg, Bool.not_false, Bool.true_and]
  case oErr => simpa [Div.step, hreset, h.rBusy, h.zeroDivisor] using hden
  all_goals
    simp [Div.step, nextRBusy, nextOBusy, nextValid, hreset, hwr, hlastBit, hsign, h.rBusy,
      h.oValid, h.zeroDivisor]

/-- The last digit of a quotient that is to be negated. -/
theorem Dividing.negating_step (h : s.Dividing op j) (hreset : i.iReset = false)
    (hwr : i.iWr = false) (hlast : j + 1 = op.digits) (hneg : op.negates = true) :
  (s.step i).Negating op
  := by
  have hlastBit : s.lastBit = true := by simp [h.lastBit, hlast]
  have hsign : s.rSign = true := by rw [h.rSign, hneg]
  obtain ⟨hquotient, hz, -⟩ := h.found_step (i := i) hreset hwr hlast
  constructor
  case oQuotient => apply hquotient
  case early => apply h.early_step hreset hquotient
  case rZ => apply hz
  all_goals
    simp [Div.step, nextRBusy, nextOBusy, nextValid, nextSign, hreset, hwr, hlastBit, hsign,
      h.rBusy, h.oBusy, h.zeroDivisor, h.preSign]

/-- The quotient is negated. -/
theorem Negating.done_step (h : s.Negating op) (hreset : i.iReset = false)
    (hwr : i.iWr = false) (hden : op.iDenominator ≠ 0) (hneg : op.negates = true) :
  (s.step i).Done op
  := by
  constructor
  case oQuotient =>
    intro _
    use s.oQuotient, h.oQuotient, h.early
    simp [Div.step, nextQuotient, hreset, h.rBusy, h.rSign, hneg]
  case rZ =>
    intro _
    simp [Div.step, hwr, h.rBusy, h.rZ]
  case rC =>
    intro _
    simp [Div.step, h.rBusy, hneg]
  case oErr => simpa [Div.step, h.rBusy] using hden
  all_goals
    simp [Div.step, nextRBusy, nextOBusy, nextValid, hreset, hwr, h.rBusy, h.oValid, h.rSign]

end Step

/-! ### The divide unit works on one operation at a time -/

/-- The divide unit, seen from outside. -/
def interface (bw lgbw : ℕ) : Interface (Div bw lgbw) (DivInput bw) where
  step := step
  reset := DivInput.iReset
  asks _ i := i.iWr
  busy := Div.oBusy
  valid := Div.oValid

theorem one_lt_digits_latency (hbw : 1 < bw) (op : DivInput bw) :
  1 < op.latency ∧ 0 < op.digits
  := by
  have hdigits : 0 < op.digits := by
    rw [DivInput.digits]
    split_ifs <;> omega
  rw [DivInput.latency]
  split_ifs <;> omega

/-- A stage goes on to the next. -/
theorem Stage.step (hlgbw : bw = 2 ^ lgbw) (hpos : 0 < lgbw) {op i : DivInput bw} {k : ℕ}
    {s : Div bw lgbw} (h : Stage op k s) (hk : k < op.latency) (hreset : i.iReset = false)
    (hwr : i.iWr = false) :
  Stage op (k + 1) (s.step i)
  := by
  have hdividing : ∀ {j : ℕ}, op.iDenominator ≠ 0 → s.Dividing op j →
      Stage op (1 + op.takesAbs.toNat + j + 1) (s.step i) := by
    intro j hden h
    rcases Nat.eq_or_lt_of_le h.lt with hlast | hlt
    · cases hneg : op.negates with
      | true =>
          have hend : 1 + op.takesAbs.toNat + j + 1 = 1 + op.takesAbs.toNat + op.digits := by
            omega
          rw [hend]
          apply Stage.negating hden hneg (h.negating_step hreset hwr hlast hneg)
      | false =>
          have hlatency : 1 + op.takesAbs.toNat + j + 1 = op.latency := by
            rw [DivInput.latency, if_neg hden, hneg, Bool.toNat_false, ← hlast]
            omega
          rw [hlatency]
          apply Stage.done (h.done_step hreset hwr hlast hden hneg)
    · apply Stage.dividing hden (h.step hlgbw hpos hreset hwr hlt)
  cases h with
  | loaded h =>
      by_cases hden : op.iDenominator = 0
      · have hlatency : 1 + 1 = op.latency := by rw [DivInput.latency, if_pos hden]
        rw [hlatency]
        apply Stage.done (h.done_step hreset hwr hden)
      · cases habs : op.takesAbs with
        | true =>
            have hstage := Stage.dividing hden
              (h.dividing_step (i := i) hlgbw hpos hreset hwr hden habs)
            rwa [habs] at hstage
        | false =>
            have hstage := hdividing hden (h.dividing hlgbw hpos hden habs)
            rwa [habs] at hstage
  | dividing hden h => apply hdividing hden h
  | negating hden hneg h =>
      have hlatency : 1 + op.takesAbs.toNat + op.digits + 1 = op.latency := by
        rw [DivInput.latency, if_neg hden, hneg, Bool.toNat_true]
      rw [hlatency]
      apply Stage.done (h.done_step hreset hwr hden hneg)
  | done h => omega

/-- Before the last clock of an operation the divider is busy and shows nothing. -/
theorem Stage.busy_or_done (hbw : 1 < bw) {op : DivInput bw} {k : ℕ} {s : Div bw lgbw}
    (h : Stage op k s) :
  (k < op.latency ∧ s.oBusy = true ∧ s.oValid = false ∧ s.oErr = false)
    ∨ (k = op.latency ∧ s.Done op)
  := by
  have hpos := one_lt_digits_latency hbw op
  cases h with
  | loaded h =>
      left
      use hpos.1, h.oBusy, h.oValid, h.oErr
  | dividing hden h =>
      left
      have := h.lt
      rw [DivInput.latency, if_neg hden]
      use by omega, h.oBusy, h.oValid, h.oErr
  | negating hden hneg h =>
      left
      rw [DivInput.latency, if_neg hden, hneg]
      use Nat.lt_succ_self _, h.oBusy, h.oValid, h.oErr
  | done h =>
      right
      constructor
      · rfl
      · apply h

theorem oneAtATime (hlgbw : bw = 2 ^ lgbw) (hpos : 0 < lgbw) :
  OneAtATime (interface bw lgbw) DivInput.latency Idle Ready Stage
  := by
  have hbw : 1 < bw := hlgbw ▸ Nat.one_lt_two_pow hpos.ne'
  constructor
  case pos =>
    intro op
    apply Nat.lt_trans Nat.one_pos (one_lt_digits_latency hbw op).1
  case ready_of_idle =>
    intro s h
    apply h.toReady
  case ready_of_last =>
    intro op s h
    rcases h.busy_or_done hbw with ⟨hlt, -⟩ | ⟨-, h⟩
    · omega
    · constructor
      · apply h.rBusy
      · apply h.oBusy
      · apply h.preSign
      · intro hvalid
        rw [h.oValid] at hvalid
        contradiction
  case busy_of_ready =>
    intro s h
    apply h.oBusy
  case busy_of_stage =>
    intro op k s h hk
    rcases h.busy_or_done hbw with ⟨-, hbusy, -⟩ | ⟨hlast, -⟩
    · apply hbusy
    · omega
  case valid_of_idle =>
    intro s h
    apply h.oValid
  case valid_of_stage =>
    intro op k s h
    rcases h.busy_or_done hbw with ⟨hlt, -, hvalid, -⟩ | ⟨hlast, h⟩
    · simp [interface, hvalid, hlt.ne]
    · simp [interface, h.oValid, hlast]
  case idle_of_reset =>
    intro s i hreset
    apply idle_reset hreset
  case idle =>
    intro s i h _ hwr
    apply h.idle_step hwr
  case take =>
    intro s i h hreset hwr
    apply Stage.loaded (h.loaded_step (by omega) hreset hwr)
  case work =>
    intro op k s i h hk hreset hwr
    apply h.step hlgbw hpos hk hreset hwr

theorem Initial.idle {s : Div bw lgbw} (h : s.Initial) :
  s.Idle
  := by
  constructor
  · constructor
    · apply h.rBusy
    · apply h.oBusy
    · apply h.preSign
    · intro _
      apply h.rSign
  · apply h.oValid
  · apply h.oErr

end Div

end ZBasic
