import ZBasic.Cpu.Division
import Mathlib.Algebra.Ring.Int.Parity
import Mathlib.Tactic.IntervalCases
import Mathlib.Tactic.Linarith

/-!
# Quotients

The divide unit finds the quotient truncated towards zero, except for signed words of two
bits, where the last digit is taken for found one clock too early. Its carry is meant to
tell exact divisions. It looks at the last digit only, so that an exact division is told
only where the quotient is odd, and none is told where the quotient is negated.
-/

namespace ZBasic

open Clocked

namespace Div

variable {bw lgbw : ℕ}

/-! ### Results -/

/-- The division `op` has come out right. -/
structure Result (op : DivInput bw) (s : Div bw lgbw) : Prop where
  oErr : s.oErr = true ↔ op.denominator = 0
  oQuotient : op.denominator ≠ 0 →
    s.oQuotient = BitVec.ofInt bw (op.numerator.tdiv op.denominator)
  zero : op.denominator ≠ 0 → (s.oFlags.getLsbD 0 = true ↔ s.oQuotient = 0)
  negative : op.denominator ≠ 0 → (s.oFlags.getLsbD 2 = true ↔ s.oQuotient.msb = true)

/-- Each division that no reset cuts short comes out right, shown for one clock, and nothing
else is shown. -/
structure Divides (s₀ : Div bw lgbw) (inp : ℕ → DivInput bw) : Prop where
  ends : ∀ m, (interface bw lgbw).TakesIn s₀ inp m →
    (interface bw lgbw).NoReset inp m (m + (inp m).latency) →
    (run step s₀ inp (m + (inp m).latency)).oValid = true
      ∧ (run step s₀ inp (m + (inp m).latency)).Result (inp m)
  once : ∀ n, (run step s₀ inp n).oValid = true → (run step s₀ inp (n + 1)).oValid = false
  only : ∀ n, (run step s₀ inp n).oValid = true ∨ (run step s₀ inp n).oErr = true →
    ∃ m, n = m + (inp m).latency ∧ (interface bw lgbw).TakesIn s₀ inp m
      ∧ (interface bw lgbw).NoReset inp m n
  reset : ∀ n, (inp n).iReset = true →
    (run step s₀ inp (n + 1)).oBusy = false ∧ (run step s₀ inp (n + 1)).oValid = false

theorem oFlags_eq (s : Div bw lgbw) :
  s.oFlags.getLsbD 0 = s.rZ ∧ s.oFlags.getLsbD 1 = s.rC ∧ s.oFlags.getLsbD 2 = s.oQuotient.msb
  := by
  rw [BitVec.msb_eq_getLsbD_last, oFlags, wN]
  cases s.rZ <;> cases s.rC <;> cases s.oQuotient.getLsbD (bw - 1) <;> decide

/-- A quotient of which all digits are found is right. -/
theorem Done.result {op : DivInput bw} {s : Div bw lgbw} (h : s.Done op)
    (hdigits : op.denominator ≠ 0 → op.digits = bw) :
  s.Result op
  := by
  have hfound : op.denominator ≠ 0 →
      found op = op.numerator.natAbs / op.denominator.natAbs := by
    intro hden
    rw [found, hdigits hden, Nat.sub_self, Nat.pow_zero, Nat.div_one]
  have hquotient : op.denominator ≠ 0 → s.oQuotient
      = if op.negates then -BitVec.ofNat bw (found op) else BitVec.ofNat bw (found op) := by
    intro hden
    obtain ⟨x, hx, -, hquotient⟩ := h.oQuotient (mt DivInput.denominator_eq_zero.mpr hden)
    have hofNat : BitVec.ofNat bw (found op) = x := by
      rw [hdigits hden, Nat.mod_eq_of_lt x.isLt] at hx
      rw [← hx, BitVec.ofNat_toNat, BitVec.setWidth_eq]
    rw [hquotient, hofNat]
  constructor
  · rw [h.oErr, beq_iff_eq, DivInput.denominator_eq_zero]
  · intro hden
    rw [hquotient hden, tdiv_eq_natAbs, hfound hden, ← DivInput.negates]
    split_ifs
    · rw [BitVec.ofInt_neg, BitVec.ofInt_natCast]
    · rw [BitVec.ofInt_natCast]
  · intro hden
    have hden' := mt DivInput.denominator_eq_zero.mpr hden
    have hlt : found op < 2 ^ bw := by
      rw [hfound hden]
      apply Nat.lt_of_le_of_lt (Nat.div_le_self _ _) op.numerator_lt
    have hzero : BitVec.ofNat bw (found op) = 0 ↔ found op = 0 := by
      rw [← BitVec.toNat_inj, BitVec.toNat_ofNat, Nat.mod_eq_of_lt hlt]
      simp
    rw [(oFlags_eq s).1, h.rZ hden', decide_eq_true_iff, ← hzero, hquotient hden]
    split_ifs
    · constructor
      · intro hq
        rw [hq]
        simp
      · intro hq
        rw [← BitVec.neg_neg (x := BitVec.ofNat bw (found op)), hq]
        simp
    · rfl
  · intro _
    rw [(oFlags_eq s).2.2]

/-- Whether the carry is set: the numerator is a positive odd multiple of the denominator. -/
def SetsCarry (op : DivInput bw) : Prop :=
  if bw = 2 ∧ op.takesAbs then op.numerator = -2 ∧ op.denominator = -1
  else ∃ k : ℤ, 0 < k ∧ Odd k ∧ op.numerator = op.denominator * k

/-- The last digit is a one that leaves nothing exactly for odd multiples. -/
theorem oddMultiple_iff {op : DivInput bw} (hden : op.denominator ≠ 0) :
  (op.negates = false ∧ op.numerator.natAbs / op.denominator.natAbs % 2 = 1
      ∧ op.denominator.natAbs ∣ op.numerator.natAbs)
    ↔ ∃ k : ℤ, 0 < k ∧ Odd k ∧ op.numerator = op.denominator * k
  := by
  have hpos : 0 < op.denominator.natAbs := Int.natAbs_pos.mpr hden
  rw [DivInput.negates]
  constructor
  · rintro ⟨hneg, hodd, c, hc⟩
    rw [hc, Nat.mul_div_cancel_left c hpos] at hodd
    use c
    constructor
    · omega
    · constructor
      · rw [Int.odd_coe_nat, Nat.odd_iff]
        apply hodd
      · have hsign : op.numerator < 0 ↔ op.denominator < 0 := by simpa using hneg
        have hprod : (op.numerator.natAbs : ℤ) = op.denominator.natAbs * c := by
          rw [hc, Nat.cast_mul]
        rcases Int.lt_or_le op.denominator 0 with hlt | hle
        · rw [Int.ofNat_natAbs_of_nonpos (by omega), Int.ofNat_natAbs_of_nonpos (by omega)]
            at hprod
          linarith
        · rw [Int.natAbs_of_nonneg (by omega), Int.natAbs_of_nonneg (by omega)] at hprod
          apply hprod
  · rintro ⟨k, hk, hodd, hmul⟩
    have habs : op.numerator.natAbs = op.denominator.natAbs * k.natAbs := by
      rw [hmul, Int.natAbs_mul]
    rw [habs, Nat.mul_div_cancel_left _ hpos, ← Nat.odd_iff, Int.natAbs_odd]
    constructor
    · have hsign : op.numerator < 0 ↔ op.denominator < 0 := by
        rw [hmul, mul_neg_iff]
        omega
      simp [hsign]
    · use hodd, k.natAbs

/-- Words of two bits of which some is negative. -/
theorem twoBits_iff {op : DivInput 2} (habs : op.takesAbs = true) (hden : op.denominator ≠ 0) :
  (op.negates = false ∧ op.numerator.natAbs / 2 / op.denominator.natAbs % 2 = 1
      ∧ op.denominator.natAbs ∣ op.numerator.natAbs / 2)
    ↔ op.numerator = -2 ∧ op.denominator = -1
  := by
  have hsigned := DivInput.iSigned_of_takesAbs habs
  have hvalue : ∀ v : BitVec 2, -2 ≤ op.value v ∧ op.value v ≤ 1 := by
    intro v
    rw [DivInput.value, hsigned, if_pos rfl]
    constructor
    · apply BitVec.le_toInt
    · apply Int.le_of_lt_add_one (BitVec.toInt_lt (x := v))
  have hnum : -2 ≤ op.numerator ∧ op.numerator ≤ 1 := hvalue op.iNumerator
  have hdenom : -2 ≤ op.denominator ∧ op.denominator ≤ 1 := hvalue op.iDenominator
  rw [DivInput.negates]
  rw [DivInput.takesAbs] at habs
  generalize op.numerator = a at *
  generalize op.denominator = b at *
  obtain ⟨ha, ha'⟩ := hnum
  obtain ⟨hb, hb'⟩ := hdenom
  interval_cases a <;> interval_cases b <;> simp_all

/-- The carry that a result is shown with. -/
theorem Done.carry {op : DivInput bw} {s : Div bw lgbw} (h : s.Done op)
    (hden : op.denominator ≠ 0) :
  s.oFlags.getLsbD 1 = true ↔ SetsCarry op
  := by
  rw [(oFlags_eq s).2.1, h.rC (mt DivInput.denominator_eq_zero.mpr hden), found, SetsCarry,
    Bool.and_eq_true, Bool.not_eq_true', decide_eq_true_iff, DivInput.digits]
  split_ifs with htwo
  · obtain ⟨rfl, habs⟩ := htwo
    apply twoBits_iff habs hden
  · rw [Nat.sub_self, Nat.pow_zero, Nat.div_one]
    apply oddMultiple_iff hden

/-- The carry is set on exact divisions only. -/
theorem SetsCarry.dvd {op : DivInput bw} (h : SetsCarry op) :
  op.denominator ∣ op.numerator
  := by
  rw [SetsCarry] at h
  split_ifs at h
  · obtain ⟨hnum, hden⟩ := h
    rw [hnum, hden]
    decide
  · obtain ⟨k, -, -, hmul⟩ := h
    use k

/-! ### Products -/

/-- The denominator times the quotient is the numerator, in words as in numbers, where nothing
remains. -/
theorem mul_tdiv_eq_iff {op : DivInput bw} (hden : op.denominator ≠ 0) :
  op.iDenominator * BitVec.ofInt bw (op.numerator.tdiv op.denominator) = op.iNumerator
    ↔ op.denominator ∣ op.numerator
  := by
  have hremains : op.denominator * op.numerator.tdiv op.denominator
      + op.numerator.tmod op.denominator = op.numerator := Int.mul_tdiv_add_tmod _ _
  have hword : op.iDenominator * BitVec.ofInt bw (op.numerator.tdiv op.denominator)
      + BitVec.ofInt bw (op.numerator.tmod op.denominator) = op.iNumerator := by
    rw [← op.ofInt_value op.iNumerator, ← op.ofInt_value op.iDenominator, ← BitVec.ofInt_mul,
      ← BitVec.ofInt_add]
    apply congrArg _ hremains
  have hlt : (op.numerator.tmod op.denominator).natAbs < 2 ^ bw := by
    rw [Int.natAbs_tmod]
    apply Nat.lt_trans (Nat.mod_lt _ (Int.natAbs_pos.mpr hden))
    apply DivInput.natAbs_value_lt
  rw [Int.dvd_iff_tmod_eq_zero]
  constructor
  · intro hproduct
    have hzero : BitVec.ofInt bw (op.numerator.tmod op.denominator) = 0 := by
      rw [hproduct] at hword
      simpa using hword
    have hnat := congrArg BitVec.toNat hzero
    have hnonneg := Int.emod_nonneg (op.numerator.tmod op.denominator)
      (show ((2 : ℤ) ^ bw) ≠ 0 by positivity)
    have hmod : op.numerator.tmod op.denominator % 2 ^ bw = 0 := by
      rw [BitVec.toNat_ofInt] at hnat
      simp at hnat
      omega
    apply Int.eq_zero_of_dvd_of_natAbs_lt_natAbs (Int.dvd_of_emod_eq_zero hmod)
    rw [Int.natAbs_pow]
    apply hlt
  · intro hzero
    rw [hzero] at hword
    simpa using hword

/-- Whether the carry says that the denominator times the quotient is the numerator. -/
def SaysProduct (op : DivInput bw) : Prop :=
  if bw = 2 ∧ op.takesAbs then
    op.numerator ≠ 0 ∧ ¬ (op.numerator = -2 ∧ op.denominator = -1)
  else ¬ op.denominator ∣ op.numerator ∨ SetsCarry op

/-- Words of two bits of which some is negative, with the quotient they come out with. -/
theorem twoBits_product (op : DivInput 2) (habs : op.takesAbs = true)
    (hden : op.iDenominator ≠ 0) {x : BitVec 2} (hx : x.toNat = 2 * earlyDigit op + found op) :
  ((op.numerator = -2 ∧ op.denominator = -1)
      ↔ op.iDenominator * (if op.negates then -x else x) = op.iNumerator)
    ↔ op.numerator ≠ 0 ∧ ¬ (op.numerator = -2 ∧ op.denominator = -1)
  := by
  have hword : x = BitVec.ofNat 2 (2 * earlyDigit op + found op) := by
    rw [← hx, BitVec.ofNat_toNat, BitVec.setWidth_eq]
  have hall : ∀ (reset wr signed : Bool) (num den : BitVec 2),
      let op : DivInput 2 := ⟨reset, wr, signed, num, den⟩
      op.takesAbs = true → op.iDenominator ≠ 0 →
      (((op.numerator = -2 ∧ op.denominator = -1)
          ↔ op.iDenominator * (if op.negates then -BitVec.ofNat 2 (2 * earlyDigit op + found op)
            else BitVec.ofNat 2 (2 * earlyDigit op + found op)) = op.iNumerator)
        ↔ op.numerator ≠ 0 ∧ ¬ (op.numerator = -2 ∧ op.denominator = -1)) := by
    decide +kernel
  rw [hword]
  apply hall op.iReset op.iWr op.iSigned op.iNumerator op.iDenominator habs hden

/-- What the carry says of the product. -/
theorem Done.saysProduct_iff {op : DivInput bw} {s : Div bw lgbw} (h : s.Done op)
    (hden : op.denominator ≠ 0) :
  (s.oFlags.getLsbD 1 = true ↔ op.iDenominator * s.oQuotient = op.iNumerator)
    ↔ SaysProduct op
  := by
  rw [h.carry hden]
  by_cases htwo : bw = 2 ∧ op.takesAbs = true
  · obtain ⟨rfl, habs⟩ := htwo
    have hword := mt DivInput.denominator_eq_zero.mpr hden
    obtain ⟨x, -, hx, hquotient⟩ := h.oQuotient hword
    rw [SetsCarry, SaysProduct, if_pos ⟨rfl, habs⟩, if_pos ⟨rfl, habs⟩, hquotient]
    apply twoBits_product op habs hword (hx rfl habs)
  · have hdigits : op.digits = bw := by rw [DivInput.digits, if_neg htwo]
    rw [(h.result fun _ => hdigits).oQuotient hden, mul_tdiv_eq_iff hden, SaysProduct,
      if_neg htwo]
    have hdvd : SetsCarry op → op.denominator ∣ op.numerator := SetsCarry.dvd
    tauto

/-! ### Runs -/

section Runs

variable {s₀ : Div bw lgbw} {inp : ℕ → DivInput bw}

/-- An operation that no reset cuts short comes to its last stage. -/
theorem done_of_takesIn (hlgbw : bw = 2 ^ lgbw) (hpos : 0 < lgbw) (h₀ : s₀.Initial)
    (hwr : (interface bw lgbw).Respected s₀ inp) {m : ℕ}
    (htakes : (interface bw lgbw).TakesIn s₀ inp m)
    (hno : (interface bw lgbw).NoReset inp m (m + (inp m).latency)) :
  (run step s₀ inp (m + (inp m).latency)).Done (inp m)
  := by
  have hbw : 1 < bw := hlgbw ▸ Nat.one_lt_two_pow hpos.ne'
  have hunit := oneAtATime hlgbw hpos
  have hstage := hunit.stage hwr h₀.idle htakes (hunit.pos _) (Nat.le_refl _) hno
  rcases hstage.busy_or_done hbw with ⟨hlt, -⟩ | ⟨-, hdone⟩
  · omega
  · apply hdone

/-- What is shown, an error among it, is shown at the end of an operation. -/
theorem ends_of_shown (hlgbw : bw = 2 ^ lgbw) (hpos : 0 < lgbw) (h₀ : s₀.Initial)
    (hwr : (interface bw lgbw).Respected s₀ inp) {n : ℕ}
    (hshown : (run step s₀ inp n).oValid = true ∨ (run step s₀ inp n).oErr = true) :
  ∃ m, n = m + (inp m).latency ∧ (interface bw lgbw).TakesIn s₀ inp m
    ∧ (interface bw lgbw).NoReset inp m n
  := by
  have hbw : 1 < bw := hlgbw ▸ Nat.one_lt_two_pow hpos.ne'
  have hunit := oneAtATime hlgbw hpos
  rcases hunit.idle_or_stage hwr h₀.idle n with hidle | ⟨m, k, rfl, -, -, htakes, hno, hstage⟩
  · have hidle' : (run step s₀ inp n).Idle := hidle
    rw [hidle'.oValid, hidle'.oErr] at hshown
    simp at hshown
  · have hstage' : Stage (inp m) k (run step s₀ inp (m + k)) := hstage
    rcases hstage'.busy_or_done hbw with ⟨-, -, hvalid, herr⟩ | ⟨hlast, -⟩
    · rw [hvalid, herr] at hshown
      simp at hshown
    · obtain rfl := hlast
      use m

/-- The divider at power up. -/
def start (bw lgbw : ℕ) : Div bw lgbw where
  rBusy := false
  oBusy := false
  zeroDivisor := false
  oValid := false
  oErr := false
  rBit := 0
  lastBit := false
  preSign := false
  rZ := false
  rDividend := 0
  rDivisor := 0
  rSign := false
  oQuotient := 0
  rC := false

theorem initial_start (bw lgbw : ℕ) :
  (start bw lgbw).Initial
  := by constructor <;> rfl

/-- The divider is asked for one signed division, at the first clock. -/
def askFor (num den : BitVec bw) (n : ℕ) : DivInput bw where
  iReset := false
  iWr := n == 0
  iSigned := true
  iNumerator := num
  iDenominator := den

theorem respected_askFor (num den : BitVec bw) (n : ℕ)
    (hbusy : (run step (start bw lgbw) (askFor num den) n).oBusy = true) :
  (askFor num den n).iWr = false
  := by
  cases n with
  | zero => contradiction
  | succ n => rfl

/-- The divider divides, as long as it is not asked to divide signed words of two bits of
which some is negative by a number other than zero. -/
theorem divides (hlgbw : bw = 2 ^ lgbw) (hpos : 0 < lgbw) (h₀ : s₀.Initial)
    (hwr : ∀ n, (run step s₀ inp n).oBusy = true → (inp n).iWr = false)
    (hops : ∀ n, (inp n).iWr = true →
      2 ≤ lgbw ∨ (0 ≤ (inp n).numerator ∧ 0 ≤ (inp n).denominator)
        ∨ (inp n).denominator = 0) :
  Divides s₀ inp
  := by
  have hbw : 1 < bw := hlgbw ▸ Nat.one_lt_two_pow hpos.ne'
  have hunit := oneAtATime hlgbw hpos
  constructor
  case ends =>
    intro m htakes hno
    have hdone := done_of_takesIn hlgbw hpos h₀ hwr htakes hno
    have hdigits : (inp m).denominator ≠ 0 → (inp m).digits = bw := by
      intro hne
      rw [DivInput.digits, if_neg]
      rintro ⟨htwo, habs⟩
      rcases hops m htakes.asks with hlg | ⟨hnum, hden⟩ | hzero
      · have : 2 ^ 2 ≤ 2 ^ lgbw := Nat.pow_le_pow_right (by omega) hlg
        omega
      · rw [DivInput.takesAbs, Bool.or_eq_true, decide_eq_true_iff, decide_eq_true_iff] at habs
        omega
      · contradiction
    use hdone.oValid
    apply hdone.result hdigits
  case once =>
    intro n hvalid
    apply hunit.valid_once hwr h₀.idle (fun op => (one_lt_digits_latency hbw op).1) hvalid
  case only =>
    intro n hshown
    apply ends_of_shown hlgbw hpos h₀ hwr hshown
  case reset =>
    intro n hreset
    have hidle : (run step s₀ inp (n + 1)).Idle := idle_reset hreset
    use hidle.oBusy
    apply hidle.oValid

theorem divides_fourBits :
  Divides (start 4 2) (askFor 9#4 2#4)
  := by
  apply divides (by decide) (by decide) (initial_start 4 2) (respected_askFor 9#4 2#4)
  intro _ _
  left
  decide

/-- Words of two bits: -2 divided by 1 comes out as 1. -/
theorem divides_not_twoBits :
  ¬ ∀ {bw lgbw : ℕ} {s₀ : Div bw lgbw} {inp : ℕ → DivInput bw}, bw = 2 ^ lgbw → 0 < lgbw →
    s₀.Initial → (∀ n, (run step s₀ inp n).oBusy = true → (inp n).iWr = false) →
    Divides s₀ inp
  := by
  intro h
  have hends : Divides (start 2 1) (askFor 2#2 1#2) :=
    h rfl Nat.one_pos (initial_start 2 1) (respected_askFor 2#2 1#2)
  have htakes : (interface 2 1).TakesIn (start 2 1) (askFor 2#2 1#2) 0 := ⟨rfl, rfl⟩
  obtain ⟨-, hresult⟩ := hends.ends 0 htakes (fun _ _ _ => rfl)
  have hquotient := hresult.oQuotient (by decide)
  revert hquotient
  decide

/-- The carry says whether a division was exact, except where an exact one does not set it. It says
the same of the product of the denominator and the quotient that is shown, in words. -/
theorem saysExact_iff (hlgbw : bw = 2 ^ lgbw) (hpos : 0 < lgbw) (h₀ : s₀.Initial)
    (hwr : ∀ n, (run step s₀ inp n).oBusy = true → (inp n).iWr = false) {m : ℕ}
    (htakes : (interface bw lgbw).TakesIn s₀ inp m)
    (hno : (interface bw lgbw).NoReset inp m (m + (inp m).latency))
    (hden : (inp m).denominator ≠ 0) :
  (run step s₀ inp (m + (inp m).latency)).oValid = true
    ∧ (((run step s₀ inp (m + (inp m).latency)).oFlags.getLsbD 1 = true
        ↔ (inp m).denominator ∣ (inp m).numerator)
      ↔ (¬ (inp m).denominator ∣ (inp m).numerator ∨ SetsCarry (inp m)))
    ∧ (((run step s₀ inp (m + (inp m).latency)).oFlags.getLsbD 1 = true
        ↔ (inp m).iDenominator * (run step s₀ inp (m + (inp m).latency)).oQuotient
          = (inp m).iNumerator)
      ↔ SaysProduct (inp m))
  := by
  have hdone := done_of_takesIn hlgbw hpos h₀ hwr htakes hno
  have hdvd : SetsCarry (inp m) → (inp m).denominator ∣ (inp m).numerator := SetsCarry.dvd
  use hdone.oValid
  constructor
  · rw [hdone.carry hden]
    tauto
  · apply hdone.saysProduct_iff hden

/-- Minus nine divided by minus three is exact, and said to be. -/
theorem saysExact_nine :
  (run step (start 8 3) (askFor (-9#8) (-3#8)) 10).oFlags.getLsbD 1 = true
    ∧ (askFor (-9#8) (-3#8) 0).iDenominator
        * (run step (start 8 3) (askFor (-9#8) (-3#8)) 10).oQuotient
      = (askFor (-9#8) (-3#8) 0).iNumerator
  := by
  have hexact := saysExact_iff (m := 0) (by decide) (by decide) (initial_start 8 3)
    (respected_askFor (-9#8) (-3#8)) ⟨rfl, rfl⟩ (fun _ _ _ => rfl) (by decide)
  have hcarry : SetsCarry (askFor (-9#8) (-3#8) 0) := by
    rw [SetsCarry, if_neg (by decide)]
    use 3
    decide
  have hproduct : SaysProduct (askFor (-9#8) (-3#8) 0) := by
    rw [SaysProduct, if_neg (by decide)]
    right
    apply hcarry
  have hset := (hexact.2.1.mpr (Or.inr hcarry)).mpr (by decide)
  constructor
  · apply hset
  · apply (hexact.2.2.mpr hproduct).mp hset

/-- Four divided by two is exact and does not set the carry. -/
theorem saysExact_not_four :
  ¬ ∀ {bw lgbw : ℕ} {s₀ : Div bw lgbw} {inp : ℕ → DivInput bw} {m : ℕ}, bw = 2 ^ lgbw →
    0 < lgbw → s₀.Initial → (∀ n, (run step s₀ inp n).oBusy = true → (inp n).iWr = false) →
    (interface bw lgbw).TakesIn s₀ inp m →
    (interface bw lgbw).NoReset inp m (m + (inp m).latency) → (inp m).denominator ≠ 0 →
    ((run step s₀ inp (m + (inp m).latency)).oFlags.getLsbD 1 = true
      ↔ (inp m).denominator ∣ (inp m).numerator)
  := by
  intro h
  have htakes : (interface 32 5).TakesIn (start 32 5) (askFor 4#32 2#32) 0 := ⟨rfl, rfl⟩
  have hno : (interface 32 5).NoReset (askFor 4#32 2#32) 0
      (0 + (askFor 4#32 2#32 0).latency) := fun _ _ _ => rfl
  have hexact := h rfl (by decide) (initial_start 32 5) (respected_askFor 4#32 2#32) htakes hno
    (by decide)
  have hdone := done_of_takesIn rfl (by decide) (initial_start 32 5)
    (respected_askFor 4#32 2#32) htakes hno
  rw [hdone.carry (by decide)] at hexact
  have hcarry : SetsCarry (askFor 4#32 2#32 0) := hexact.mpr (by decide)
  rw [SetsCarry, if_neg (by decide)] at hcarry
  obtain ⟨k, -, ⟨c, hodd⟩, hmul⟩ := hcarry
  have hfour : (askFor 4#32 2#32 0).numerator = 4 := by decide
  have htwo : (askFor 4#32 2#32 0).denominator = 2 := by decide
  rw [hfour, htwo] at hmul
  omega

end Runs

end Div

end ZBasic
