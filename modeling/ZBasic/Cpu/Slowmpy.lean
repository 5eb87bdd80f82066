import ZBasic.Clocked.Bits
import ZBasic.Clocked.Counter
import ZBasic.Clocked.DigitArithmetic
import ZBasic.Clocked.OneAtATime
import Mathlib.Tactic.Use

/-!
# The slow multiplier

`slowmpy` multiplies by long multiplication, one row a clock. The rows are added up in the
top half of a word that moves down by one bit with each row. For signed factors every row
has its top bit inverted, which adds a constant to it, the last row is complemented, and
what the constants sum up to is taken off at the end.
-/

namespace ZBasic

open Clocked

/-- The registers of `slowmpy`, for factors of `na` bits whose rows are counted by `lgna`
bits. -/
structure Slowmpy (lgna na : ℕ) where
  oBusy : Bool
  oDone : Bool
  oP : BitVec (na + na)
  oAux : Bool
  count : BitVec lgna
  pA : BitVec na
  pB : BitVec na
  /-- `partial` -/
  partials : BitVec (na + na)
  aux : Bool
  almostDone : Bool

/-- The inputs of `slowmpy` at one clock. -/
structure SlowmpyInput (na : ℕ) where
  iReset : Bool
  iStb : Bool
  iA : BitVec na
  iB : BitVec na
  iAux : Bool

namespace Slowmpy

variable {lgna na : ℕ}

section Source

variable (optSigned : Bool) (s : Slowmpy lgna na) (i : SlowmpyInput na)

/-- `pre_done` -/
def preDone : Bool := s.count == 0

/-- `pwire` -/
def pwire : BitVec na := if s.pB.getLsbD 0 then s.pA else 0

/-- What is added to the sum of the rows at a clock. -/
def row : BitVec (na + 1) :=
  if optSigned && s.preDone then
    (BitVec.ofBool (s.pwire.getLsbD (na - 1))
      ++ ~~~ s.pwire.extractLsb' 0 (na - 1)).setWidth (na + 1)
  else if optSigned then
    (BitVec.ofBool (!s.pwire.getLsbD (na - 1))
      ++ s.pwire.extractLsb' 0 (na - 1)).setWidth (na + 1)
  else if s.pB.getLsbD 0 then s.pA.setWidth (na + 1)
  else 0

/-- `partial` after a clock at which a row is added. -/
def nextPartials : BitVec (na + na) :=
  put (put s.partials 0 (s.partials.extractLsb' 1 (na - 1))) (na - 1)
    ((s.partials.extractLsb' na na).setWidth (na + 1) + s.row optSigned)

/-- What is taken off the sum of the rows. -/
def correction : BitVec (na + na) :=
  if optSigned then BitVec.twoPow (na + na) (na + na - 1) + BitVec.twoPow (na + na) na else 0

/-- One clock edge of `slowmpy`. -/
def step : Slowmpy lgna na where
  almostDone := !i.iReset && s.oBusy && s.preDone
  oDone := !i.iReset && s.oBusy && s.almostDone
  oBusy := !i.iReset && if s.oBusy then !s.almostDone else i.iStb
  aux := !i.iReset && if !s.oBusy && i.iStb then i.iAux else s.aux
  count := if s.oBusy then s.count - 1 else BitVec.ofNat lgna na - 1
  partials := if s.oBusy then s.nextPartials optSigned else 0
  pA := if s.oBusy then s.pA else i.iA
  pB := if s.oBusy then s.pB >>> 1 else i.iB
  oP := if s.almostDone then s.partials + correction optSigned else s.oP
  oAux := if s.almostDone then s.aux else s.oAux

/-- The registers with an initial value at power up; the others are arbitrary. -/
structure Initial : Prop where
  almostDone : s.almostDone = false
  aux : s.aux = false
  oDone : s.oDone = false
  oBusy : s.oBusy = false

end Source

/-! ### One row -/

section Row

variable {optSigned : Bool} {s : Slowmpy lgna na}

theorem toNat_cons (b : Bool) {n : ℕ} (x : BitVec n) :
  (BitVec.ofBool b ++ x).toNat = 2 ^ n * b.toNat + x.toNat
  := by
  rw [toNat_append, BitVec.toNat_ofBool]

theorem getLsbD_pB :
  s.pB.getLsbD 0 = decide (s.pB.toNat % 2 = 1)
  := by rw [BitVec.getLsbD, Nat.testBit_zero]

theorem toInt_pwire :
  s.pwire.toInt = (s.pB.toNat % 2 : ℕ) * s.pA.toInt
  := by
  rw [pwire, getLsbD_pB]
  rcases Nat.mod_two_eq_zero_or_one s.pB.toNat with h | h <;> simp [h]

/-- A word from its top bit and the bits below it. -/
theorem toInt_eq_top (hna : 0 < na) (x : BitVec na) :
  x.toInt = (x.toNat % 2 ^ (na - 1) : ℕ) - 2 ^ (na - 1) * ((x.getLsbD (na - 1)).toNat : ℤ)
  := by
  have hlt := x.isLt
  have hpow : 2 ^ na = 2 * 2 ^ (na - 1) := (mul_pow_sub_one hna.ne' 2).symm
  have hpowInt : (2 : ℤ) ^ na = 2 * 2 ^ (na - 1) := by exact_mod_cast hpow
  have hdiv := Nat.div_add_mod x.toNat (2 ^ (na - 1))
  rw [BitVec.toInt_eq_msb_cond, hpow, ← BitVec.msb_eq_getLsbD_last, BitVec.msb_eq_decide]
  rcases Nat.lt_or_ge x.toNat (2 ^ (na - 1)) with h | h
  · rw [Nat.mod_eq_of_lt h, decide_eq_false (Nat.not_le.mpr h)]
    simp
  · have hmod : x.toNat % 2 ^ (na - 1) = x.toNat - 2 ^ (na - 1) := by
      rw [Nat.mod_eq_sub_mod h, Nat.mod_eq_of_lt (by omega)]
    rw [hmod, decide_eq_true h]
    push_cast [h]
    simp
    ring

/-- A row of an unsigned product. -/
theorem toNat_row (hsigned : optSigned = false) :
  (s.row optSigned).toNat = s.pB.toNat % 2 * s.pA.toNat
  := by
  have hlt : s.pA.toNat < 2 ^ (na + 1) :=
    Nat.lt_of_lt_of_le s.pA.isLt (Nat.pow_le_pow_right (by omega) (by omega))
  rw [row, hsigned, getLsbD_pB]
  rcases Nat.mod_two_eq_zero_or_one s.pB.toNat with h | h <;> simp [h, Nat.mod_eq_of_lt hlt]

/-- A row of a signed product, which for the last is complemented below its top bit. -/
theorem toNat_row_signed (hna : 0 < na) (hsigned : optSigned = true) :
  (s.row optSigned).toNat
    = if s.preDone then 2 ^ (na - 1) * (s.pwire.getLsbD (na - 1)).toNat
        + (2 ^ (na - 1) - 1 - s.pwire.toNat % 2 ^ (na - 1))
      else 2 ^ (na - 1) * (!s.pwire.getLsbD (na - 1)).toNat + s.pwire.toNat % 2 ^ (na - 1)
  := by
  have hwide : 2 ^ (na + 1) = 4 * 2 ^ (na - 1) := by
    rw [show (4 : ℕ) = 2 ^ 2 from rfl, ← Nat.pow_add]
    congr 1
    omega
  have hpos := Nat.two_pow_pos (na - 1)
  have hlow := Nat.mod_lt s.pwire.toNat hpos
  have htop : ∀ b : Bool, 2 ^ (na - 1) * b.toNat ≤ 2 ^ (na - 1) := by
    intro b
    cases b <;> simp
  have htop₁ := htop (s.pwire.getLsbD (na - 1))
  have htop₂ := htop (!s.pwire.getLsbD (na - 1))
  rw [row, hsigned, Bool.true_and, if_pos rfl]
  split_ifs
  · rw [BitVec.toNat_setWidth, toNat_cons, BitVec.toNat_not, toNat_extract_low,
      Nat.mod_eq_of_lt (by omega)]
  · rw [BitVec.toNat_setWidth, toNat_cons, toNat_extract_low, Nat.mod_eq_of_lt (by omega)]

/-- A row of a signed product, which is not the last. -/
theorem toNat_signedRow (hna : 0 < na) (hsigned : optSigned = true) (hpre : s.preDone = false) :
  ((s.row optSigned).toNat : ℤ) = (s.pB.toNat % 2 : ℕ) * s.pA.toInt + 2 ^ (na - 1)
  := by
  rw [toNat_row_signed hna hsigned, hpre, ← toInt_pwire, toInt_eq_top hna]
  cases s.pwire.getLsbD (na - 1) <;> simp
  ring

/-- The last row of a signed product. -/
theorem toNat_lastRow (hna : 0 < na) (hsigned : optSigned = true) (hpre : s.preDone = true) :
  ((s.row optSigned).toNat : ℤ) = 2 ^ (na - 1) - 1 - (s.pB.toNat % 2 : ℕ) * s.pA.toInt
  := by
  have hlow := Nat.mod_lt s.pwire.toNat (Nat.two_pow_pos (na - 1))
  have hcomplement : ((2 ^ (na - 1) - 1 - s.pwire.toNat % 2 ^ (na - 1) : ℕ) : ℤ)
      = 2 ^ (na - 1) - 1 - (s.pwire.toNat % 2 ^ (na - 1) : ℕ) := by
    have hpow : ((2 ^ (na - 1) : ℕ) : ℤ) = 2 ^ (na - 1) := by norm_cast
    omega
  rw [toNat_row_signed hna hsigned, hpre, ← toInt_pwire, toInt_eq_top hna, if_pos rfl,
    Nat.cast_add, hcomplement]
  push_cast
  ring

theorem row_lt (hna : 0 < na) :
  (s.row optSigned).toNat < 2 ^ na
  := by
  cases hsigned : optSigned with
  | false =>
      have hlt := s.pA.isLt
      rw [toNat_row rfl]
      rcases Nat.mod_two_eq_zero_or_one s.pB.toNat with h | h <;> simp [h, hlt]
  | true =>
      have hpow : 2 ^ na = 2 * 2 ^ (na - 1) := (mul_pow_sub_one hna.ne' 2).symm
      have hlow := Nat.mod_lt s.pwire.toNat (Nat.two_pow_pos (na - 1))
      rw [toNat_row_signed hna rfl]
      cases s.pwire.getLsbD (na - 1) <;> simp <;> split_ifs <;> omega

/-- The sum of the rows moves down and takes in the row. -/
theorem toNat_nextPartials (hna : 0 < na) :
  (s.nextPartials optSigned).toNat = addRow na s.partials.toNat (s.row optSigned).toNat
  := by
  have hpow : 2 ^ na = 2 * 2 ^ (na - 1) := (mul_pow_sub_one hna.ne' 2).symm
  have hwide : 2 ^ (na + 1) = 2 * 2 ^ na := Nat.pow_succ'
  have hrow : (s.row optSigned).toNat < 2 ^ na := row_lt hna
  have hhigh : s.partials.toNat / 2 ^ na < 2 ^ na := by
    apply Nat.div_lt_of_lt_mul
    rw [← Nat.pow_add]
    apply s.partials.isLt
  have hlow : (put s.partials 0 (s.partials.extractLsb' 1 (na - 1))).toNat % 2 ^ (na - 1)
      = s.partials.toNat % 2 ^ na / 2 := by
    rw [toNat_put_low _ _ (by omega), Nat.mul_add_mod, BitVec.extractLsb'_toNat,
      Nat.shiftRight_eq_div_pow, Nat.mod_mod, Nat.pow_one, hpow, Nat.mod_mul_right_div_self]
  have hfits : s.partials.toNat / 2 ^ na % 2 ^ (na + 1) = s.partials.toNat / 2 ^ na :=
    Nat.mod_eq_of_lt (by omega)
  rw [nextPartials, toNat_put_high _ _ (by omega), hlow, BitVec.toNat_add, BitVec.toNat_setWidth,
    toNat_extract_high _ rfl, hfits, Nat.mod_eq_of_lt (by omega), addRow]

end Row

/-! ### Stages of a multiplication -/

section Stages

variable (optSigned : Bool)

/-- What the first `k` rows of a product sum up to. -/
def sumOfRows (op : SlowmpyInput na) (k : ℕ) : ℤ :=
  if optSigned then
    if k < na then signedRows (na - 1) op.iA.toInt op.iB.toNat k
    else op.iA.toInt * op.iB.toInt + 2 ^ (na + na - 1) - 2 ^ na
  else rows op.iA.toNat op.iB.toNat k

/-- The first `k` rows are added up. -/
structure Adding (op : SlowmpyInput na) (k : ℕ) (s : Slowmpy lgna na) : Prop where
  le : k ≤ na
  oBusy : s.oBusy = true
  oDone : s.oDone = false
  aux : s.aux = op.iAux
  almostDone : s.almostDone = decide (k = na)
  count : k < na → s.count.toNat + k + 1 = na
  pA : s.pA = op.iA
  pB : s.pB.toNat = op.iB.toNat / 2 ^ k
  partials : ∃ t : ℕ, s.partials.toNat = t * 2 ^ (na - k) ∧ (t : ℤ) = sumOfRows optSigned op k

/-- The product of a multiplication, with what was given along with it. -/
structure Product (op : SlowmpyInput na) (s : Slowmpy lgna na) : Prop where
  signed : optSigned = true → s.oP.toInt = op.iA.toInt * op.iB.toInt
  unsigned : optSigned = false → s.oP.toNat = op.iA.toNat * op.iB.toNat
  oAux : s.oAux = op.iAux

/-- The product is shown. -/
structure Done (op : SlowmpyInput na) (s : Slowmpy lgna na) : Prop
    extends Product optSigned op s where
  oBusy : s.oBusy = false
  oDone : s.oDone = true

/-- The stages of a multiplication. -/
inductive Stage (op : SlowmpyInput na) : ℕ → Slowmpy lgna na → Prop
  | adding {s : Slowmpy lgna na} {k : ℕ} (h : s.Adding optSigned op k) : Stage op (k + 1) s
  | done {s : Slowmpy lgna na} (h : s.Done optSigned op) : Stage op (na + 2) s

/-- The multiplier has nothing to do and shows nothing. -/
structure Idle (s : Slowmpy lgna na) : Prop where
  oBusy : s.oBusy = false
  oDone : s.oDone = false

end Stages

/-! ### One clock -/

section Step

variable {optSigned : Bool} {s : Slowmpy lgna na} {op i : SlowmpyInput na} {k : ℕ}

theorem idle_step (h : i.iReset = true ∨ s.oBusy = false ∧ i.iStb = false) :
  (step optSigned s i).Idle
  := by
  rcases h with hreset | ⟨hbusy, hstb⟩
  · constructor <;> simp [step, hreset]
  · constructor <;> simp [step, hbusy, hstb]

/-- A multiplication is taken in. -/
theorem adding_start (hna : 0 < na) (hlg : na ≤ 2 ^ lgna) (hbusy : s.oBusy = false)
    (hreset : i.iReset = false) (hstb : i.iStb = true) :
  (step optSigned s i).Adding optSigned i 0
  := by
  constructor
  case le => apply Nat.zero_le
  case almostDone =>
    rw [eq_comm, decide_eq_false (by omega)]
    simp [step, hbusy]
  case count =>
    intro _
    have hsub : BitVec.ofNat lgna na - 1 = BitVec.ofNat lgna (na - 1) := by
      obtain ⟨n, rfl⟩ := Nat.exists_eq_succ_of_ne_zero (Nat.pos_iff_ne_zero.mp hna)
      rw [Nat.succ_eq_add_one, BitVec.ofNat_add, Nat.add_sub_cancel]
      apply BitVec.add_sub_cancel
    have hcount : (step optSigned s i).count = BitVec.ofNat lgna (na - 1) := by
      simp only [step, hbusy, Bool.false_eq_true, if_false, hsub]
    rw [hcount, BitVec.toNat_ofNat, Nat.mod_eq_of_lt (by omega)]
    omega
  case partials =>
    use 0
    simp [step, hbusy, sumOfRows, signedRows, rows, hna]
  all_goals simp [step, hbusy, hreset, hstb]

theorem preDone_eq (hcount : s.count.toNat + k + 1 = na) :
  s.preDone = decide (k + 1 = na)
  := by
  have hzero : s.count = 0 ↔ s.count.toNat = 0 := by
    rw [← BitVec.toNat_inj]
    simp
  rw [preDone, Bool.eq_iff_iff, beq_iff_eq, decide_eq_true_iff, hzero]
  omega

/-- The sum of the rows with the next. -/
theorem Adding.row (h : s.Adding optSigned op k) (hk : k < na) {t : ℕ}
    (ht : (t : ℤ) = sumOfRows optSigned op k) :
  ((t + (s.row optSigned).toNat * 2 ^ k : ℕ) : ℤ) = sumOfRows optSigned op (k + 1)
  := by
  have hna : 0 < na := Nat.zero_lt_of_lt hk
  have hpre := preDone_eq (h.count hk)
  rw [sumOfRows] at ht ⊢
  cases hsigned : optSigned with
  | false =>
      rw [hsigned] at ht
      simp only [Bool.false_eq_true, if_false] at ht ⊢
      rw [toNat_row rfl, h.pB, h.pA, rows_succ, ← Nat.cast_inj.mp ht]
  | true =>
      rw [hsigned] at ht
      simp only [if_true, if_pos hk] at ht ⊢
      rw [Nat.cast_add, Nat.cast_mul, ht]
      split_ifs with hlt
      · rw [toNat_signedRow hna rfl (by rw [hpre, decide_eq_false (by omega)]), h.pB, h.pA,
          signedRows_succ]
        norm_cast
      · obtain rfl : k = na - 1 := by omega
        have htop : ((op.iB.getLsbD (na - 1)).toNat : ℤ) = (op.iB.toNat / 2 ^ (na - 1) % 2 : ℕ) := by
          rw [BitVec.getLsbD, Nat.toNat_testBit]
        have hpow : 2 ^ (na - 1 + (na - 1) + 1) = (2 : ℤ) ^ (na + na - 1) := by
          congr 1
          omega
        have hpow' : 2 ^ (na - 1 + 1) = (2 : ℤ) ^ na := by
          congr 1
          omega
        rw [toNat_lastRow hna rfl (by rw [hpre, decide_eq_true (by omega)]), h.pB, h.pA,
          toInt_eq_top hna op.iB, htop, Nat.cast_pow, Nat.cast_ofNat, signedRows_last, hpow, hpow',
          mul_comm ((2 : ℤ) ^ (na - 1))]

/-- A row is added. -/
theorem Adding.step (h : s.Adding optSigned op k) (hreset : i.iReset = false) (hk : k < na) :
  (step optSigned s i).Adding optSigned op (k + 1)
  := by
  have hna : 0 < na := Nat.zero_lt_of_lt hk
  have halmost : s.almostDone = false := by
    rw [h.almostDone, decide_eq_false_iff_not]
    omega
  constructor
  case le => apply hk
  case almostDone =>
    rw [← preDone_eq (h.count hk)]
    simp [Slowmpy.step, hreset, h.oBusy]
  case count =>
    intro hlt
    have hcount := h.count hk
    have hpred : (Slowmpy.step optSigned s i).count = s.count - 1 := by
      simp [Slowmpy.step, h.oBusy]
    rw [hpred, toNat_pred (by omega)]
    omega
  case pB =>
    have hshift : (Slowmpy.step optSigned s i).pB = s.pB >>> 1 := by
      simp [Slowmpy.step, h.oBusy]
    rw [hshift, BitVec.toNat_ushiftRight, h.pB, Nat.shiftRight_eq_div_pow, Nat.div_div_eq_div_mul,
      ← Nat.pow_add]
  case partials =>
    obtain ⟨t, hpartials, ht⟩ := h.partials
    obtain ⟨m, hm⟩ : ∃ m, na - k = m + 1 := ⟨na - k - 1, by omega⟩
    have hnext : (Slowmpy.step optSigned s i).partials = s.nextPartials optSigned := by
      simp [Slowmpy.step, h.oBusy]
    use t + (s.row optSigned).toNat * 2 ^ k
    constructor
    · have hm' : na - (k + 1) = m := by omega
      rw [hnext, toNat_nextPartials hna, hpartials, hm, hm',
        addRow_eq (show k + m + 1 = na by omega)]
    · apply h.row hk ht
  all_goals simp [Slowmpy.step, hreset, halmost, h.oBusy, h.aux, h.pA]

/-- The constants that were added to the rows are taken off. -/
theorem toInt_corrected (hna : 2 ≤ na) {x : BitVec (na + na)}
    (hx : (x.toNat : ℤ) = op.iA.toInt * op.iB.toInt + 2 ^ (na + na - 1) - 2 ^ na) :
  (x + correction true).toInt = op.iA.toInt * op.iB.toInt
  := by
  have hpow : (2 : ℤ) ^ (na + na - 1) + 2 ^ (na + na - 1) = 2 ^ (na + na) := by
    rw [← two_mul, ← pow_succ']
    congr 1
    omega
  have hsum : x + correction true = BitVec.ofInt (na + na) (op.iA.toInt * op.iB.toInt) := by
    have hx' : x = BitVec.ofInt (na + na) x.toNat := by
      rw [BitVec.ofInt_natCast, BitVec.ofNat_toNat, BitVec.setWidth_eq]
    have htwoPow : ∀ j, BitVec.twoPow (na + na) j = BitVec.ofInt (na + na) (2 ^ j) := by
      intro j
      have hcast : ((2 ^ j : ℕ) : ℤ) = 2 ^ j := by norm_cast
      rw [← hcast, BitVec.ofInt_natCast]
      apply BitVec.eq_of_toNat_eq
      rw [BitVec.toNat_twoPow, BitVec.toNat_ofNat]
    have hzero : BitVec.ofInt (na + na) (2 ^ (na + na)) = BitVec.ofNat (na + na) 0 := by
      rw [← htwoPow]
      apply BitVec.eq_of_toNat_eq
      simp [BitVec.toNat_twoPow]
    rw [hx', correction, if_pos rfl, htwoPow, htwoPow, ← BitVec.ofInt_add, ← BitVec.ofInt_add, hx]
    have hall : op.iA.toInt * op.iB.toInt + 2 ^ (na + na - 1) - 2 ^ na
        + (2 ^ (na + na - 1) + 2 ^ na) = op.iA.toInt * op.iB.toInt + 2 ^ (na + na) := by
      rw [← hpow]
      ring
    rw [hall, BitVec.ofInt_add, hzero, BitVec.add_zero]
  have hlt : (2 : ℤ) ^ (na * 2 - 2) < 2 ^ (na + na - 1) := by
    have hnat : 2 ^ (na * 2 - 2) < 2 ^ (na + na - 1) :=
      Nat.pow_lt_pow_right (by omega) (by omega)
    exact_mod_cast hnat
  rw [hsum, BitVec.toInt_ofInt_eq_self (by omega)]
  · have := BitVec.le_toInt_mul_toInt (x := op.iA) (y := op.iB)
    omega
  · apply Int.lt_of_le_of_lt BitVec.toInt_mul_toInt_le hlt

/-- The sum of all rows is the product. -/
theorem Adding.done_step (hna : 2 ≤ na) (h : s.Adding optSigned op na) (hreset : i.iReset = false) :
  (Slowmpy.step optSigned s i).Done optSigned op
  := by
  obtain ⟨t, hpartials, ht⟩ := h.partials
  have halmost : s.almostDone = true := by rw [h.almostDone, decide_eq_true rfl]
  have hproduct : (Slowmpy.step optSigned s i).oP = s.partials + correction optSigned := by
    simp [Slowmpy.step, halmost]
  rw [Nat.sub_self, Nat.pow_zero, Nat.mul_one] at hpartials
  constructor
  · constructor
    · intro hsigned
      rw [hproduct, hsigned]
      apply toInt_corrected hna
      rw [hpartials, ht, sumOfRows, if_pos hsigned, if_neg (Nat.lt_irrefl na)]
    · intro hsigned
      rw [sumOfRows, hsigned, if_neg Bool.false_ne_true, Nat.cast_inj,
        rows_all op.iB.isLt] at ht
      rw [hproduct, hsigned, ← ht, ← hpartials]
      simp [correction]
    · simp [Slowmpy.step, halmost, h.aux]
  all_goals simp [Slowmpy.step, hreset, halmost, h.oBusy]

end Step

/-! ### The multiplier works on one multiplication at a time -/

/-- The multiplier, seen from outside. -/
def interface (optSigned : Bool) (lgna na : ℕ) :
    Interface (Slowmpy lgna na) (SlowmpyInput na) where
  step := step optSigned
  reset := SlowmpyInput.iReset
  asks s i := i.iStb && !s.oBusy
  busy := Slowmpy.oBusy
  valid := Slowmpy.oDone

/-- A request while the multiplier is busy is none. -/
theorem respected (optSigned : Bool) (s₀ : Slowmpy lgna na) (inp : ℕ → SlowmpyInput na) :
  (interface optSigned lgna na).Respected s₀ inp
  := by
  intro n hbusy
  have hbusy' : (run (step optSigned) s₀ inp n).oBusy = true := hbusy
  simp [interface, hbusy']

section Runs

variable {optSigned : Bool}

/-- Before the last clock of a multiplication the multiplier is busy and shows nothing. -/
theorem Stage.busy_or_done {op : SlowmpyInput na} {k : ℕ} {s : Slowmpy lgna na}
    (h : Stage optSigned op k s) :
  (k < na + 2 ∧ s.oBusy = true ∧ s.oDone = false) ∨ (k = na + 2 ∧ s.Done optSigned op)
  := by
  cases h with
  | adding h =>
      left
      have := h.le
      use by omega, h.oBusy, h.oDone
  | done h =>
      right
      constructor
      · rfl
      · apply h

theorem Stage.step (hna : 2 ≤ na) {op i : SlowmpyInput na} {k : ℕ} {s : Slowmpy lgna na}
    (h : Stage optSigned op k s) (hk : k < na + 2) (hreset : i.iReset = false) :
  Stage optSigned op (k + 1) (Slowmpy.step optSigned s i)
  := by
  cases h with
  | @adding _ k h =>
      rcases Nat.eq_or_lt_of_le h.le with rfl | hlt
      · apply Stage.done (h.done_step hna hreset)
      · apply Stage.adding (h.step hreset hlt)
  | done h => omega

theorem oneAtATime (hna : 2 ≤ na) (hlg : na ≤ 2 ^ lgna) :
  OneAtATime (interface optSigned lgna na) (fun _ => na + 2) Idle
    (fun s => s.oBusy = false) (Stage optSigned)
  := by
  constructor
  case pos =>
    intro _
    omega
  case ready_of_idle =>
    intro s h
    apply h.oBusy
  case ready_of_last =>
    intro op s h
    rcases h.busy_or_done with ⟨hlt, -⟩ | ⟨-, h⟩
    · omega
    · apply h.oBusy
  case busy_of_ready =>
    intro s h
    apply h
  case busy_of_stage =>
    intro op k s h hk
    rcases h.busy_or_done with ⟨-, hbusy, -⟩ | ⟨hlast, -⟩
    · apply hbusy
    · omega
  case valid_of_idle =>
    intro s h
    apply h.oDone
  case valid_of_stage =>
    intro op k s h
    rcases h.busy_or_done with ⟨hlt, -, hdone⟩ | ⟨hlast, h⟩
    · simp [interface, hdone, hlt.ne]
    · simp [interface, h.oDone, hlast]
  case idle_of_reset =>
    intro s i hreset
    apply idle_step (Or.inl hreset)
  case idle =>
    intro s i hbusy _ hasks
    apply idle_step
    right
    use hbusy
    simpa [interface, hbusy] using hasks
  case take =>
    intro s i hbusy hreset hasks
    apply Stage.adding
    apply adding_start (by omega) hlg hbusy hreset
    simpa [interface, hbusy] using hasks
  case work =>
    intro op k s i h hk hreset _
    apply h.step hna hk hreset

/-- Each multiplication that no reset cuts short comes out right, shown for one clock after a
number of clocks that is the same for all, and nothing else is shown. -/
structure Multiplies (optSigned : Bool) (s₀ : Slowmpy lgna na) (inp : ℕ → SlowmpyInput na) :
    Prop where
  ends : ∀ m, (interface optSigned lgna na).TakesIn s₀ inp m →
    (interface optSigned lgna na).NoReset inp m (m + (na + 2)) →
    (run (step optSigned) s₀ inp (m + (na + 2))).oDone = true
      ∧ (run (step optSigned) s₀ inp (m + (na + 2))).Product optSigned (inp m)
  once : ∀ n, (run (step optSigned) s₀ inp n).oDone = true →
    (run (step optSigned) s₀ inp (n + 1)).oDone = false
  only : ∀ n, (run (step optSigned) s₀ inp n).oDone = true →
    ∃ m, n = m + (na + 2) ∧ (interface optSigned lgna na).TakesIn s₀ inp m
      ∧ (interface optSigned lgna na).NoReset inp m n

/-- The slow multiplier multiplies. -/
theorem multiplies {s₀ : Slowmpy lgna na} {inp : ℕ → SlowmpyInput na} (hna : 3 ≤ na)
    (hlg : na ≤ 2 ^ lgna) (h₀ : s₀.Initial) :
  Multiplies optSigned s₀ inp
  := by
  have hunit : OneAtATime (interface optSigned lgna na) (fun _ => na + 2) Idle
      (fun s => s.oBusy = false) (Stage optSigned) := oneAtATime (by omega) hlg
  have hidle : s₀.Idle := ⟨h₀.oBusy, h₀.oDone⟩
  have hasks := respected optSigned s₀ inp
  constructor
  case ends =>
    intro m htakes hno
    have hstage : Stage optSigned (inp m) (na + 2) (run (step optSigned) s₀ inp (m + (na + 2))) :=
      hunit.stage hasks hidle htakes (by omega) (Nat.le_refl _) hno
    rcases hstage.busy_or_done with ⟨hlt, -⟩ | ⟨-, hdone⟩
    · omega
    · constructor
      · apply hdone.oDone
      · apply hdone.toProduct
  case once =>
    intro n hdone
    apply hunit.valid_once hasks hidle (fun _ => by omega) hdone
  case only =>
    intro n hdone
    apply (hunit.valid_iff hasks hidle n).mp hdone

/-- The multiplier at power up. -/
def start (lgna na : ℕ) : Slowmpy lgna na where
  oBusy := false
  oDone := false
  oP := 0
  oAux := false
  count := 0
  pA := 0
  pB := 0
  partials := 0
  aux := false
  almostDone := false

theorem multiplies_threeBits :
  Multiplies true (start 2 3) (fun n => ⟨false, n == 0, 5#3, 6#3, true⟩)
  := multiplies (by decide) (by decide) (by constructor <;> rfl)

end Runs

end Slowmpy

end ZBasic
