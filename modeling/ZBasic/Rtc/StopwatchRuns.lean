import ZBasic.Clocked.MixedRadix
import ZBasic.Rtc.Rtcstopwatch

/-!
# The stopwatch counts

The registers that the next value is computed in settle within eight clocks of a change of the
counter, the lower digits before the upper ones. The tens of the hours are the exception: their
next value is only ever written by a carry, and the carries of two values that follow each other
may meet. After nine hours they do, and ten hours are added.
-/

namespace ZBasic

open Clocked

namespace Rtcstopwatch

/-! ### Digits -/

/-- The digits of a number of hundredths of a second. -/
def hundredths (n : ℕ) : Digits where
  hundredth := .ofNat 4 (digit 1 10 n)
  tenth := .ofNat 4 (digit 10 10 n)
  second := .ofNat 4 (digit 100 10 n)
  tenSecond := .ofNat 3 (digit 1000 6 n)
  minute := .ofNat 4 (digit 6000 10 n)
  tenMinute := .ofNat 3 (digit 60000 6 n)
  hour := .ofNat 4 (digit 360000 10 n)
  tenHour := .ofNat 3 (digit 3600000 8 n)

/-- A second, a minute, an hour, ten hours and a wrong value. -/
example : (hundredths 100).bits = 0x100 ∧ (hundredths 6000).bits = 0x10000
    ∧ (hundredths 360000).bits = 0x1000000 ∧ (hundredths 3599999).bits = 0x9595999 := by decide

section Digit

variable {w m b n : ℕ}

/-- A digit carries if it is at its top and there is a carry into it. -/
theorem carry_digit (hm : 0 < m) (hb : 0 < b) (hw : b ≤ 2 ^ w) :
  (decide (BitVec.ofNat w (b - 1) ≤ BitVec.ofNat w (digit m b n)) && decide (n % m + 1 = m)) =
    decide (n % (m * b) + 1 = m * b)
  := by
  rw [Bool.eq_iff_iff, Bool.and_eq_true, decide_eq_true_eq, decide_eq_true_eq, decide_eq_true_eq,
    top_le_ofNat (digit_lt hb) hw, full_mul hm hb]

/-- With settled carries the next digit is that of the next number. -/
theorem digitAfter_digit (hm : 0 < m) (hb : 0 < b) :
  digitAfter (decide (n % m + 1 = m)) (decide (n % (m * b) + 1 = m * b))
      (BitVec.ofNat w (digit m b n)) =
    BitVec.ofNat w (digit m b (n + 1))
  := by
  rw [digitAfter, digit_succ hm hb]
  simp only [decide_eq_true_eq, full_mul hm hb]
  by_cases hfull : n % m + 1 = m
  · by_cases htop : digit m b n + 1 = b
    · rw [if_pos ⟨htop, hfull⟩, if_pos hfull, if_pos htop]
      rfl
    · rw [if_neg (fun h => htop h.1), if_pos hfull, if_pos hfull, if_neg htop, BitVec.ofNat_add]
      rfl
  · rw [if_neg (fun h => hfull h.2), if_neg hfull, if_neg hfull]

end Digit

/-! ### Settling -/

/-- The registers, `a` clocks after the counter has become `n` hundredths, or some clocks after it
has been cleared; `q` tells whether the last clock left it as it was. -/
structure Settled (n a : ℕ) (q : Bool) (s : Rtcstopwatch) : Prop where
  counter : s.counter = hundredths n
  carryHundredth : 1 ≤ a → s.swCarry.hundredth = decide (n % 10 + 1 = 10)
  carryTenth : 2 ≤ a → s.swCarry.tenth = decide (n % 100 + 1 = 100)
  carrySecond : 3 ≤ a → s.swCarry.second = decide (n % 1000 + 1 = 1000)
  carryTenSecond : 4 ≤ a → s.swCarry.tenSecond = decide (n % 6000 + 1 = 6000)
  carryMinute : 5 ≤ a → s.swCarry.minute = decide (n % 60000 + 1 = 60000)
  carryTenMinute : 6 ≤ a → s.swCarry.tenMinute = decide (n % 360000 + 1 = 360000)
  carryHour : 7 ≤ a → s.swCarry.hour = decide (n % 3600000 + 1 = 3600000)
  nextHundredth : q = true → 2 ≤ a → s.nextSw.hundredth = (hundredths (n + 1)).hundredth
  nextTenth : q = true → 3 ≤ a → s.nextSw.tenth = (hundredths (n + 1)).tenth
  nextSecond : q = true → 4 ≤ a → s.nextSw.second = (hundredths (n + 1)).second
  nextTenSecond : q = true → 5 ≤ a → s.nextSw.tenSecond = (hundredths (n + 1)).tenSecond
  nextMinute : q = true → 6 ≤ a → s.nextSw.minute = (hundredths (n + 1)).minute
  nextTenMinute : q = true → 7 ≤ a → s.nextSw.tenMinute = (hundredths (n + 1)).tenMinute
  nextHour : q = true → 8 ≤ a → s.nextSw.hour = (hundredths (n + 1)).hour

/-- The counter is cleared at this clock. -/
def cleared (i : Input) : Bool := i.iReset || i.iClear

/-- A tick is counted at this clock. -/
def counted (s : Rtcstopwatch) (i : Input) : Bool := s.swPpms && s.swRunning && !cleared i

section Step

variable {s : Rtcstopwatch} {i : Input} {n a : ℕ} {q : Bool}

theorem counted_eq_true :
  counted s i = true ↔ s.swPpms = true ∧ s.swRunning = true ∧ cleared i = false
  := by rw [counted, Bool.and_eq_true, Bool.and_eq_true, Bool.not_eq_true', and_assoc]

/-- At zero the carries are settled if there are none. -/
theorem settled_zero (hcounter : s.counter = .zero) (hcarry : s.swCarry = .zero) :
  Settled 0 8 false s
  := by
  constructor
  case counter =>
      rw [hcounter]
      decide
  all_goals
    first
    | (intro _; rw [hcarry]; decide)
    | (intro hq; cases hq)

/-- A counter that is cleared is settled, but for the next value. -/
theorem settled_clear (hclear : cleared i = true) :
  Settled 0 8 false (s.step i)
  := by
  rw [cleared] at hclear
  apply settled_zero
  · simp only [step, hclear, if_true]
  · simp only [step, hclear, if_true]

theorem swCarry_step (hclear : cleared i = false) :
  (s.step i).swCarry =
    { hundredth := 9 ≤ s.counter.hundredth
      tenth := 9 ≤ s.counter.tenth && s.swCarry.hundredth
      second := 9 ≤ s.counter.second && s.swCarry.tenth
      tenSecond := 5 ≤ s.counter.tenSecond && s.swCarry.second
      minute := 9 ≤ s.counter.minute && s.swCarry.tenSecond
      tenMinute := 5 ≤ s.counter.tenMinute && s.swCarry.minute
      hour := 9 ≤ s.counter.hour && s.swCarry.tenMinute }
  := by
  rw [cleared] at hclear
  simp only [step, hclear, Bool.false_eq_true, if_false]

theorem nextSw_step (hclear : cleared i = false) :
  (s.step i).nextSw =
    { hundredth := digitAfter true s.swCarry.hundredth s.counter.hundredth
      tenth := digitAfter s.swCarry.hundredth s.swCarry.tenth s.counter.tenth
      second := digitAfter s.swCarry.tenth s.swCarry.second s.counter.second
      tenSecond := digitAfter s.swCarry.second s.swCarry.tenSecond s.counter.tenSecond
      minute := digitAfter s.swCarry.tenSecond s.swCarry.minute s.counter.minute
      tenMinute := digitAfter s.swCarry.minute s.swCarry.tenMinute s.counter.tenMinute
      hour := digitAfter s.swCarry.tenMinute s.swCarry.hour s.counter.hour
      tenHour := if s.swCarry.hour then s.counter.tenHour + 1 else s.nextSw.tenHour }
  := by
  rw [cleared] at hclear
  simp only [step, hclear, Bool.false_eq_true, if_false]

theorem counter_step (hclear : cleared i = false) :
  (s.step i).counter = if counted s i then s.nextSw else s.counter
  := by
  rw [cleared] at hclear
  simp only [step, hclear, counted, cleared, Bool.not_false, Bool.and_true, Bool.false_eq_true,
    if_false]

/-- While the counter stays as it is the registers settle. -/
theorem Settled.stay (h : Settled n a q s) (hclear : cleared i = false)
    (hcounted : counted s i = false) :
  Settled n (a + 1) true (s.step i)
  := by
  have hcarry := swCarry_step (s := s) hclear
  have hnext := nextSw_step (s := s) hclear
  rw [h.counter] at hcarry hnext
  constructor
  case counter =>
      rw [counter_step hclear, hcounted]
      apply h.counter
  case carryHundredth =>
      intro _
      rw [hcarry]
      have hone := carry_digit (w := 4) (m := 1) (b := 10) (n := n) (by decide) (by decide)
        (by decide)
      rw [Nat.mod_one, decide_eq_true rfl, Bool.and_true] at hone
      apply hone
  case carryTenth =>
      intro ha
      rw [hcarry, h.carryHundredth (by omega)]
      apply carry_digit (m := 10) (b := 10) (by decide) (by decide) (by decide)
  case carrySecond =>
      intro ha
      rw [hcarry, h.carryTenth (by omega)]
      apply carry_digit (m := 100) (b := 10) (by decide) (by decide) (by decide)
  case carryTenSecond =>
      intro ha
      rw [hcarry, h.carrySecond (by omega)]
      apply carry_digit (m := 1000) (b := 6) (by decide) (by decide) (by decide)
  case carryMinute =>
      intro ha
      rw [hcarry, h.carryTenSecond (by omega)]
      apply carry_digit (m := 6000) (b := 10) (by decide) (by decide) (by decide)
  case carryTenMinute =>
      intro ha
      rw [hcarry, h.carryMinute (by omega)]
      apply carry_digit (m := 60000) (b := 6) (by decide) (by decide) (by decide)
  case carryHour =>
      intro ha
      rw [hcarry, h.carryTenMinute (by omega)]
      apply carry_digit (m := 360000) (b := 10) (by decide) (by decide) (by decide)
  case nextHundredth =>
      intro _ ha
      rw [hnext, h.carryHundredth (by omega)]
      have hone := digitAfter_digit (w := 4) (m := 1) (b := 10) (n := n) (by decide) (by decide)
      rw [Nat.mod_one, decide_eq_true rfl] at hone
      apply hone
  case nextTenth =>
      intro _ ha
      rw [hnext, h.carryHundredth (by omega), h.carryTenth (by omega)]
      apply digitAfter_digit (m := 10) (b := 10) (by decide) (by decide)
  case nextSecond =>
      intro _ ha
      rw [hnext, h.carryTenth (by omega), h.carrySecond (by omega)]
      apply digitAfter_digit (m := 100) (b := 10) (by decide) (by decide)
  case nextTenSecond =>
      intro _ ha
      rw [hnext, h.carrySecond (by omega), h.carryTenSecond (by omega)]
      apply digitAfter_digit (m := 1000) (b := 6) (by decide) (by decide)
  case nextMinute =>
      intro _ ha
      rw [hnext, h.carryTenSecond (by omega), h.carryMinute (by omega)]
      apply digitAfter_digit (m := 6000) (b := 10) (by decide) (by decide)
  case nextTenMinute =>
      intro _ ha
      rw [hnext, h.carryMinute (by omega), h.carryTenMinute (by omega)]
      apply digitAfter_digit (m := 60000) (b := 6) (by decide) (by decide)
  case nextHour =>
      intro _ ha
      rw [hnext, h.carryTenMinute (by omega), h.carryHour (by omega)]
      apply digitAfter_digit (m := 360000) (b := 10) (by decide) (by decide)

/-! ### The tens of the hours -/

/-- Nine hours. -/
def nineHours : ℕ := 3240000

/-- What the next tens of the hours are, `a` clocks after the counter has become `n` hundredths.
When this is nine hours the carry out of the minutes is still there, and the hours are at their
top. -/
structure Tens (n a : ℕ) (s : Rtcstopwatch) : Prop where
  le : n ≤ nineHours
  before : n < nineHours → s.swCarry.hour = false ∧ s.nextSw.tenHour = 0
  carryIn : n = nineHours → a = 0 → s.swCarry.tenMinute = true
  carryOut : n = nineHours → a = 1 → s.swCarry.hour = true
  next : n = nineHours → 2 ≤ a → s.nextSw.tenHour = 1

/-- Before nine hours the hours do not carry. -/
theorem hour_lt (hn : n < nineHours) :
  ¬9 ≤ (hundredths n).hour
  := by
  have htop := top_le_ofNat (w := 4) (digit_lt (m := 360000) (n := n) (b := 10) (by decide))
    (by decide)
  change ¬BitVec.ofNat 4 (10 - 1) ≤ BitVec.ofNat 4 (digit 360000 10 n)
  rw [htop, digit]
  rw [nineHours] at hn
  omega

theorem tenHour_eq (hn : n ≤ nineHours) :
  (hundredths n).tenHour = 0
  := by
  have hzero : digit 3600000 8 n = 0 := by
    rw [nineHours] at hn
    rw [digit, Nat.div_eq_of_lt (by omega)]
  change BitVec.ofNat 3 (digit 3600000 8 n) = 0
  rw [hzero]
  rfl

theorem tens_zero (hcarry : s.swCarry = .zero) (hnext : s.nextSw = .zero) :
  Tens 0 8 s
  := by
  constructor
  · decide
  · intro _
    rw [hcarry, hnext]
    decide
  · intro hn
    cases hn
  · intro hn
    cases hn
  · intro hn
    cases hn

theorem tens_clear (hclear : cleared i = true) :
  Tens 0 8 (s.step i)
  := by
  rw [cleared] at hclear
  apply tens_zero
  · simp only [step, hclear, if_true]
  · simp only [step, hclear, if_true]

theorem Tens.stay (h : Tens n a s) (hsettled : Settled n a q s) (hclear : cleared i = false) :
  Tens n (a + 1) (s.step i)
  := by
  have hcarry := swCarry_step (s := s) hclear
  have hnext := nextSw_step (s := s) hclear
  rw [hsettled.counter] at hcarry hnext
  constructor
  case le => apply h.le
  case before =>
      intro hn
      obtain ⟨hhour, htens⟩ := h.before hn
      rw [hcarry, hnext]
      dsimp only
      rw [decide_eq_false (hour_lt hn), hhour]
      exact ⟨rfl, htens⟩
  case carryIn =>
      intro _ ha
      contradiction
  case carryOut =>
      intro hn ha
      rw [hcarry]
      dsimp only
      rw [h.carryIn hn (by omega), hn]
      decide
  case next =>
      intro hn ha
      have htens := tenHour_eq h.le
      rw [hnext]
      dsimp only
      rw [htens]
      rcases Nat.lt_or_ge a 2 with hone | htwo
      · rw [h.carryOut hn (by omega), if_pos rfl]
        decide
      · rw [h.next hn htwo]
        split_ifs
        · decide
        · rfl

/-! ### Ticks -/

/-- A tick adds one hundredth to a settled counter, up to nine hours. -/
theorem Settled.count (h : Settled n a true s) (htens : Tens n a s) (ha : 8 ≤ a)
    (hn : n < nineHours) (hclear : cleared i = false) (hcounted : counted s i = true) :
  Settled (n + 1) 0 false (s.step i)
  := by
  constructor
  case counter =>
      rw [counter_step hclear, hcounted, if_pos rfl]
      have htenHour : s.nextSw.tenHour = (hundredths (n + 1)).tenHour := by
        rw [(htens.before hn).2, tenHour_eq hn]
      have hall : s.nextSw = ⟨s.nextSw.hundredth, s.nextSw.tenth, s.nextSw.second,
        s.nextSw.tenSecond, s.nextSw.minute, s.nextSw.tenMinute, s.nextSw.hour,
        s.nextSw.tenHour⟩ := rfl
      rw [hall, h.nextHundredth rfl (by omega), h.nextTenth rfl (by omega),
        h.nextSecond rfl (by omega), h.nextTenSecond rfl (by omega), h.nextMinute rfl (by omega),
        h.nextTenMinute rfl (by omega), h.nextHour rfl ha, htenHour]
  all_goals
    intro hnot
    contradiction

theorem Tens.count (h : Tens n a s) (hsettled : Settled n a q s) (ha : 8 ≤ a)
    (hn : n < nineHours) (hclear : cleared i = false) :
  Tens (n + 1) 0 (s.step i)
  := by
  have hcarry := swCarry_step (s := s) hclear
  have hnext := nextSw_step (s := s) hclear
  rw [hsettled.counter] at hcarry hnext
  constructor
  case le => apply hn
  case before =>
      intro _
      obtain ⟨hhour, htens⟩ := h.before hn
      rw [hcarry, hnext]
      dsimp only
      rw [decide_eq_false (hour_lt hn), hhour]
      exact ⟨rfl, htens⟩
  case carryIn =>
      intro hlast _
      rw [hcarry]
      dsimp only
      have hminute := hsettled.carryMinute (by omega)
      have hn' : n = 3239999 := by
        rw [nineHours] at hlast
        omega
      rw [hn'] at hminute ⊢
      rw [hminute]
      decide
  case carryOut =>
      intro _ ha'
      contradiction
  case next =>
      intro _ ha'
      contradiction

/-- A tick after nine hours adds ten hours. -/
theorem tenHour_count (h : Tens nineHours a s) (ha : 2 ≤ a) (hclear : cleared i = false)
    (hcounted : counted s i = true) :
  (s.step i).counter.tenHour = 1
  := by
  rw [counter_step hclear, hcounted, if_pos rfl]
  apply h.next rfl ha

/-! ### Subticks -/

/-- A sum of 24 bits is the carry and the lower bits. -/
theorem toNat_sum (x : BitVec 24) :
  2 ^ 23 * x.msb.toNat + (x.setWidth 23).toNat = x.toNat
  := by
  have hlt := x.isLt
  rw [BitVec.msb_eq_decide, BitVec.toNat_setWidth]
  by_cases hmsb : 2 ^ (24 - 1) ≤ x.toNat
  · rw [decide_eq_true hmsb, Bool.toNat_true]
    omega
  · rw [decide_eq_false hmsb, Bool.toNat_false]
    omega

/-- How far the subticks are, with the carry between their parts. A tick is `2^46`. -/
def subticks (s : Rtcstopwatch) : ℕ :=
  2 ^ 23 * s.subticksHigh.toNat + s.subticksLow.toNat + 2 ^ 23 * s.carry.toNat

theorem subticks_lt (s : Rtcstopwatch) :
  subticks s < 2 ^ 46 + 2 ^ 23
  := by
  have hh := s.subticksHigh.isLt
  have hl := s.subticksLow.isLt
  have hc := Bool.toNat_le s.carry
  rw [subticks]
  omega

/-- What is added to the subticks at a clock. -/
def stepOf (s : Rtcstopwatch) : ℕ :=
  2 ^ 23 * s.lastStep.toNat + (s.swStep.extractLsb' 0 23).toNat

theorem toNat_highSum (s : Rtcstopwatch) :
  s.highSum.toNat = s.subticksHigh.toNat + s.lastStep.toNat + s.carry.toNat
  := by
  have hh := s.subticksHigh.isLt
  have hk := s.lastStep.isLt
  have hc := Bool.toNat_le s.carry
  rw [highSum, BitVec.toNat_add, BitVec.toNat_add, BitVec.toNat_setWidth, BitVec.toNat_setWidth,
    BitVec.toNat_setWidth, BitVec.toNat_ofBool, Nat.mod_eq_of_lt (by omega),
    Nat.mod_eq_of_lt (by omega), Nat.mod_eq_of_lt (by omega), Nat.mod_eq_of_lt (by omega),
    Nat.mod_eq_of_lt (by omega)]

theorem toNat_lowSum (s : Rtcstopwatch) :
  s.lowSum.toNat = s.subticksLow.toNat + (s.swStep.extractLsb' 0 23).toNat
  := by
  have hl := s.subticksLow.isLt
  have hs := (s.swStep.extractLsb' 0 23).isLt
  rw [lowSum, BitVec.toNat_add, BitVec.toNat_setWidth, BitVec.toNat_setWidth,
    Nat.mod_eq_of_lt (by omega), Nat.mod_eq_of_lt (by omega), Nat.mod_eq_of_lt (by omega)]

/-- The subticks take a step at each clock at which they are enabled, and overflow into a tick. -/
theorem subticks_step (hreset : i.iReset = false) :
  2 ^ 46 * (s.step i).swPpms.toNat + subticks (s.step i) =
    subticks s + if enabled s i then stepOf s else 0
  := by
  have hlow := toNat_sum s.lowSum
  have hhigh := toNat_sum s.highSum
  rw [toNat_lowSum] at hlow
  rw [toNat_highSum] at hhigh
  cases henabled : enabled s i with
  | false =>
      simp only [subticks, step, hreset, henabled, Bool.false_eq_true, if_false, Bool.toNat_false]
      omega
  | true =>
      simp only [subticks, stepOf, step, hreset, henabled, Bool.false_eq_true, if_false, if_true]
      omega

end Step

/-! ### Runs -/

section Runs

variable (s₀ : Rtcstopwatch) (inp : ℕ → Input)

/-- The registers before the clock `t`. -/
def state (t : ℕ) : Rtcstopwatch := run step s₀ inp t

/-- The ticks that have been counted since the counter was last cleared. -/
def ticks : ℕ → ℕ
  | 0 => 0
  | t + 1 =>
      if cleared (inp t) then 0
      else if counted (state s₀ inp t) (inp t) then ticks t + 1
      else ticks t

/-- The ticks since the last reset. -/
def generated : ℕ → ℕ
  | 0 => 0
  | t + 1 =>
      if (inp t).iReset then 0 else generated t + (state s₀ inp (t + 1)).swPpms.toNat

/-- The steps that the subticks have taken since the last reset. -/
def elapsed : ℕ → ℕ
  | 0 => 0
  | t + 1 =>
      if (inp t).iReset then 0
      else elapsed t + if enabled (state s₀ inp t) (inp t) then stepOf (state s₀ inp t) else 0

/-- Ticks are at least ten clocks apart. -/
def Spaced : Prop :=
  ∀ u t, u < t → (state s₀ inp u).swPpms = true → (state s₀ inp t).swPpms = true → u + 10 ≤ t

/-- The stopwatch counts: it shows the ticks since it was last cleared; no tick comes while it is
stopped; and there are as many ticks as the steps taken while it was running make up. -/
structure Counts : Prop where
  shows : ∀ t, (state s₀ inp t).counter = hundredths (ticks s₀ inp t)
  kept : ∀ t, (state s₀ inp t).swPpms = true → (state s₀ inp t).swRunning = true
  accounted : ∀ t, 2 ^ 46 * generated s₀ inp t + subticks (state s₀ inp t) = elapsed s₀ inp t

/-- No more than nine hours are counted, no tick is counted in the clock after a clear, and the
subticks do not overflow at a clock at which both a start and a stop are requested. -/
structure Spared (t : ℕ) : Prop where
  hours : ticks s₀ inp t ≤ nineHours
  clear : (inp t).iClear = true → counted (state s₀ inp (t + 1)) (inp (t + 1)) = false
  single : (inp t).iReset = false → (inp t).iStart = true → (inp t).iStop = true →
    (state s₀ inp t).highSum.msb = false

/-- The clocks since the last tick was counted, or more. -/
def age : ℕ → ℕ
  | 0 => 8
  | t + 1 =>
      if cleared (inp t) then 8
      else if counted (state s₀ inp t) (inp t) then 0
      else age t + 1

/-- The last clock left the counter as it was. -/
def quiet : ℕ → Bool
  | 0 => false
  | t + 1 => !cleared (inp t) && !counted (state s₀ inp t) (inp t)

variable {s₀ inp}

theorem state_succ (t : ℕ) :
  state s₀ inp (t + 1) = (state s₀ inp t).step (inp t)
  := rfl

/-- What the upper part of the subticks is after a clock. -/
theorem subticksHigh_step_le (s : Rtcstopwatch) (i : Input) :
  (s.step i).subticksHigh.toNat ≤ s.subticksHigh.toNat + 2 ^ 14
    ∧ ((s.step i).swPpms = true → 2 ^ 23 ≤ s.subticksHigh.toNat + 2 ^ 14
      ∧ (s.step i).subticksHigh.toNat ≤ 2 ^ 14)
  := by
  have hh := s.subticksHigh.isLt
  have hsum := toNat_sum s.highSum
  rw [toNat_highSum] at hsum
  have hk := s.lastStep.isLt
  have hc := Bool.toNat_le s.carry
  cases hreset : i.iReset with
  | true => simp [step, hreset]
  | false =>
      cases henabled : enabled s i with
      | false => simp [step, hreset, henabled]
      | true =>
          simp only [step, hreset, henabled, Bool.false_eq_true, if_false, if_true]
          constructor
          · omega
          · intro htick
            rw [htick, Bool.toNat_true] at hsum
            omega

/-- For a while after a tick the subticks do not overflow. -/
theorem subticksHigh_le {t : ℕ} (htick : (state s₀ inp (t + 1)).swPpms = true) (k : ℕ) :
  (state s₀ inp (t + 1 + k)).subticksHigh.toNat ≤ 2 ^ 14 * (k + 1)
  := by
  induction k with
  | zero => apply ((subticksHigh_step_le _ _).2 htick).2
  | succ k ih =>
      have hstep := (subticksHigh_step_le (state s₀ inp (t + 1 + k)) (inp (t + 1 + k))).1
      rw [← state_succ] at hstep
      rw [← Nat.add_assoc]
      omega

/-- A step is so short that ticks are far apart. -/
theorem spaced (h₀ : Initial s₀) :
  Spaced s₀ inp
  := by
  intro u t hlt hu ht
  have hnone : (state s₀ inp 0).swPpms = false := h₀.swPpms
  by_contra hsoon
  cases u with
  | zero =>
      rw [hnone] at hu
      contradiction
  | succ u =>
      obtain ⟨k, rfl⟩ : ∃ k, t = u + 1 + k + 1 := ⟨t - (u + 2), by omega⟩
      have hle := subticksHigh_le hu k
      have hover : 2 ^ 23 ≤ (state s₀ inp (u + 1 + k)).subticksHigh.toNat + 2 ^ 14 :=
        ((subticksHigh_step_le _ _).2 ht).1
      omega

/-- A tick that was counted a short while ago was that long ago. -/
theorem age_eq {t : ℕ} (hage : age s₀ inp t < 8) :
  ∃ u, u + 1 + age s₀ inp t = t ∧ (state s₀ inp u).swPpms = true
  := by
  induction t with
  | zero => simp [age] at hage
  | succ t ih =>
      rw [age] at hage ⊢
      split_ifs at hage ⊢ with hclear hcounted
      · omega
      · use t
        exact ⟨rfl, (counted_eq_true.mp hcounted).1⟩
      · obtain ⟨u, hu, htick⟩ := ih (by omega)
        use u
        exact ⟨by omega, htick⟩

/-- When a tick comes the registers have settled. -/
theorem age_ge (hspaced : Spaced s₀ inp) {t : ℕ} (htick : (state s₀ inp t).swPpms = true) :
  8 ≤ age s₀ inp t
  := by
  by_contra hlt
  obtain ⟨u, hu, hbefore⟩ := age_eq (Nat.lt_of_not_le hlt)
  have hten := hspaced u t (by omega) hbefore htick
  omega

theorem accounted (h₀ : Initial s₀) (t : ℕ) :
  2 ^ 46 * generated s₀ inp t + subticks (state s₀ inp t) = elapsed s₀ inp t
  := by
  induction t with
  | zero =>
      change 2 ^ 46 * 0 + subticks s₀ = 0
      rw [subticks, h₀.subticksHigh, h₀.subticksLow, h₀.carry]
      rfl
  | succ t ih =>
      rw [generated, elapsed]
      cases hreset : (inp t).iReset with
      | true =>
          rw [if_pos rfl, if_pos rfl]
          simp [state_succ, subticks, step, hreset]
      | false =>
          have hstep := subticks_step (s := state s₀ inp t) hreset
          rw [← state_succ] at hstep
          rw [if_neg (by decide), if_neg (by decide), ← ih, Nat.mul_add]
          omega

/-- Where a tick is counted the clock before has left the counter as it was. -/
theorem quiet_of_counted (h₀ : Initial s₀) (hspaced : Spaced s₀ inp)
    (hspared : ∀ u, (inp u).iClear = true →
      counted (state s₀ inp (u + 1)) (inp (u + 1)) = false)
    {t : ℕ} (hcounted : counted (state s₀ inp t) (inp t) = true) :
  quiet s₀ inp t = true
  := by
  have htick : (state s₀ inp t).swPpms = true := (counted_eq_true.mp hcounted).1
  cases t with
  | zero =>
      have hnone : (state s₀ inp 0).swPpms = false := h₀.swPpms
      rw [hnone] at htick
      contradiction
  | succ t =>
      have hage := age_ge hspaced htick
      rw [age] at hage
      rw [quiet, Bool.and_eq_true, Bool.not_eq_true', Bool.not_eq_true']
      split_ifs at hage with hclear hbefore
      · cases hreset : (inp t).iReset with
        | true =>
            rw [state_succ] at htick
            simp [step, hreset] at htick
        | false =>
            rw [cleared, hreset, Bool.false_or] at hclear
            rw [hspared t hclear] at hcounted
            contradiction
      · contradiction
      · exact ⟨by simpa using hclear, by simpa using hbefore⟩

/-- The registers, as long as nothing is counted after nine hours. -/
structure Tracked (s₀ : Rtcstopwatch) (inp : ℕ → Input) (t : ℕ) : Prop where
  settled : Settled (ticks s₀ inp t) (age s₀ inp t) (quiet s₀ inp t) (state s₀ inp t)
  tens : Tens (ticks s₀ inp t) (age s₀ inp t) (state s₀ inp t)

theorem tracked_zero (h₀ : Initial s₀) :
  Tracked s₀ inp 0
  := by
  constructor
  · apply settled_zero h₀.counter h₀.swCarry
  · apply tens_zero h₀.swCarry h₀.nextSw

theorem tracked_succ (hspaced : Spaced s₀ inp) {t : ℕ} (h : Tracked s₀ inp t)
    (hquiet : counted (state s₀ inp t) (inp t) = true → quiet s₀ inp t = true)
    (hhours : counted (state s₀ inp t) (inp t) = true → ticks s₀ inp t < nineHours) :
  Tracked s₀ inp (t + 1)
  := by
  obtain ⟨hsettled, htens⟩ := h
  cases hclear : cleared (inp t) with
  | true =>
      constructor
      · simp only [ticks, age, quiet, hclear, if_true, Bool.not_true, Bool.false_and, state_succ]
        apply settled_clear hclear
      · simp only [ticks, age, hclear, if_true, state_succ]
        apply tens_clear hclear
  | false =>
      cases hcounted : counted (state s₀ inp t) (inp t) with
      | true =>
          have hage := age_ge hspaced (counted_eq_true.mp hcounted).1
          rw [hquiet hcounted] at hsettled
          constructor
          · simp only [ticks, age, quiet, hclear, hcounted, Bool.false_eq_true, if_false, if_true,
              Bool.not_true, Bool.and_false, state_succ]
            apply hsettled.count htens hage (hhours hcounted) hclear hcounted
          · simp only [ticks, age, hclear, hcounted, Bool.false_eq_true, if_false, if_true,
              state_succ]
            apply htens.count hsettled hage (hhours hcounted) hclear
      | false =>
          constructor
          · simp only [ticks, age, quiet, hclear, hcounted, Bool.false_eq_true, if_false,
              Bool.not_false, Bool.true_and, state_succ]
            apply hsettled.stay hclear hcounted
          · simp only [ticks, age, hclear, hcounted, Bool.false_eq_true, if_false, state_succ]
            apply htens.stay hsettled hclear

/-- A tick comes while the stopwatch is stopped only if the subticks overflowed at a clock at which
both a start and a stop were requested. -/
theorem swRunning_succ {t : ℕ} (htick : (state s₀ inp (t + 1)).swPpms = true) :
  (state s₀ inp (t + 1)).swRunning = true ∨
    (inp t).iReset = false ∧ (inp t).iStart = true ∧ (inp t).iStop = true ∧
      (state s₀ inp t).highSum.msb = true
  := by
  rw [state_succ] at htick ⊢
  cases hreset : (inp t).iReset <;> cases hstart : (inp t).iStart <;>
    cases hstop : (inp t).iStop <;> simp [step, hreset, hstart, hstop, enabled] at htick ⊢
  · apply htick.1
  · apply htick

/-- A stopwatch that counts has been spared. -/
theorem spared_of_counts (h₀ : Initial s₀) (hcounts : Counts s₀ inp) (t : ℕ) :
  Spared s₀ inp t
  := by
  have hspaced := (spaced h₀ : Spaced s₀ inp)
  -- a clear is not followed by a tick, as the next value is still zero
  have hclear : ∀ u, (inp u).iClear = true →
      counted (state s₀ inp (u + 1)) (inp (u + 1)) = false := by
    intro u hu
    by_contra hcounted
    rw [Bool.not_eq_false] at hcounted
    obtain ⟨-, -, hnot⟩ := counted_eq_true.mp hcounted
    have hzero : (state s₀ inp (u + 1)).nextSw = .zero := by simp [state_succ, step, hu]
    have hnow : cleared (inp u) = true := by rw [cleared, hu, Bool.or_true]
    have hone := hcounts.shows (u + 1 + 1)
    rw [state_succ, counter_step hnot, if_pos hcounted, hzero] at hone
    simp only [ticks, hnot, hnow, hcounted, Bool.false_eq_true, if_false, if_true] at hone
    revert hone
    decide
  -- after nine hours no tick is counted
  have htracked : ∀ t, Tracked s₀ inp t := by
    intro t
    induction t with
    | zero => apply tracked_zero h₀
    | succ t ih =>
        apply tracked_succ hspaced ih (quiet_of_counted h₀ hspaced hclear)
        intro hcounted
        apply Nat.lt_of_le_of_ne ih.tens.le
        intro hnine
        obtain ⟨htick, -, hnot⟩ := counted_eq_true.mp hcounted
        have hage := age_ge hspaced htick
        have htens := ih.tens
        rw [hnine] at htens
        have hten := tenHour_count htens (by omega) hnot hcounted
        rw [← state_succ, hcounts.shows, ticks, hnot, hcounted, hnine] at hten
        revert hten
        decide
  constructor
  case hours => apply (htracked t).tens.le
  case clear => apply hclear t
  case single =>
      intro hreset hstart hstop
      by_contra hover
      rw [Bool.not_eq_false] at hover
      have hkept := hcounts.kept (t + 1)
      simp [state_succ, step, hreset, hstart, hstop, enabled, hover] at hkept

/-- A stopwatch that is spared counts. -/
theorem counts_of_spared (h₀ : Initial s₀) (hspared : ∀ t, Spared s₀ inp t) :
  Counts s₀ inp
  := by
  have hspaced := (spaced h₀ : Spaced s₀ inp)
  have hquiet := fun t => quiet_of_counted (t := t) h₀ hspaced (fun u => (hspared u).clear)
  have htracked : ∀ t, Tracked s₀ inp t := by
    intro t
    induction t with
    | zero => apply tracked_zero h₀
    | succ t ih =>
        apply tracked_succ hspaced ih (hquiet t)
        intro hcounted
        have hnext := (hspared (t + 1)).hours
        obtain ⟨-, -, hclear⟩ := counted_eq_true.mp hcounted
        rw [ticks, hclear, hcounted] at hnext
        apply hnext
  constructor
  case shows =>
      intro t
      apply (htracked t).settled.counter
  case kept =>
      intro t htick
      cases t with
      | zero =>
          have hnone : (state s₀ inp 0).swPpms = false := h₀.swPpms
          rw [hnone] at htick
          contradiction
      | succ t =>
          rcases swRunning_succ htick with hrunning | ⟨hreset, hstart, hstop, hover⟩
          · apply hrunning
          · rw [(hspared t).single hreset hstart hstop] at hover
            contradiction
  case accounted => apply accounted h₀

/-- The stopwatch counts if and only if no more than nine hours are counted before it is cleared, no
tick is counted in the clock after a clear, and the subticks do not overflow at a clock at which
both a start and a stop are requested. -/
theorem counts_iff (h₀ : Initial s₀) :
  Counts s₀ inp ↔ ∀ t, Spared s₀ inp t
  := by
  constructor
  · apply spared_of_counts h₀
  · apply counts_of_spared h₀

end Runs

/-! ### Examples -/

/-- The registers at power up, with the steps zero. -/
def powerUp : Rtcstopwatch where
  counter := .zero
  nextSw := .zero
  swCarry := .zero
  swRunning := false
  swPpms := false
  carry := false
  subticksHigh := 0
  subticksLow := 0
  swStep := 0
  lastStep := 0

theorem initial_powerUp :
  Initial powerUp
  := by
  constructor
  · rfl
  · rfl
  · rfl
  · rfl
  · rfl
  · rfl
  · rfl
  · rfl

/-- The inputs of a stopwatch at a clock of 65536 Hz that is started, stopped, started again, and
stopped and cleared in the end. -/
def startedTwice (t : ℕ) : Input where
  iReset := false
  iCkstep := 0xffffffff
  iClear := t = 7000
  iStart := t = 0 ∨ t = 3000
  iStop := t = 2000 ∨ t = 6000

theorem swRunning_startedTwice (t : ℕ) :
  (state powerUp startedTwice t).swRunning = decide (0 < t ∧ t ≤ 2000 ∨ 3000 < t ∧ t ≤ 6000)
  := by
  induction t with
  | zero => rfl
  | succ t ih =>
      rw [state_succ]
      simp only [step, startedTwice, ih, Bool.false_or, decide_eq_true_eq]
      split_ifs with hstop hstart
      · rw [eq_comm, decide_eq_false_iff_not]
        omega
      · rw [eq_comm, decide_eq_true_eq]
        omega
      · rw [decide_eq_decide]
        omega

theorem stepOf_startedTwice (t : ℕ) :
  stepOf (state powerUp startedTwice (t + 2)) = 107374182375
  := by
  simp only [state_succ, stepOf, step, startedTwice]
  decide

/-- The steps that are taken while it runs. -/
theorem elapsed_startedTwice (t : ℕ) :
  elapsed powerUp startedTwice (t + 2)
    = 8388583 + 107374182375 * (min t 1998 + (min (t + 2) 6000 - 3000))
  := by
  induction t with
  | zero => decide
  | succ t ih =>
      have henabled : enabled (state powerUp startedTwice (t + 2)) (startedTwice (t + 2))
          = decide (t + 2 < 2000 ∨ 3000 ≤ t + 2 ∧ t + 2 < 6000) := by
        rw [enabled, swRunning_startedTwice, Bool.eq_iff_iff]
        simp only [startedTwice, Bool.or_eq_true, Bool.and_eq_true, Bool.not_eq_true',
          decide_eq_true_eq, decide_eq_false_iff_not]
        omega
      rw [elapsed, ih, henabled, stepOf_startedTwice]
      simp only [startedTwice, Bool.false_eq_true, if_false, decide_eq_true_eq]
      split_ifs <;> omega

/-- No more than one tick is counted at a clock, and none after the last stop. -/
theorem ticks_startedTwice_le (t : ℕ) :
  ticks powerUp startedTwice t ≤ min t 6001
  := by
  induction t with
  | zero => apply Nat.le_refl
  | succ t ih =>
      rw [ticks]
      split_ifs with hclear hcounted
      · apply Nat.zero_le
      · have hrunning := (counted_eq_true.mp hcounted).2.1
        rw [swRunning_startedTwice, decide_eq_true_eq] at hrunning
        omega
      · omega

theorem spared_startedTwice (t : ℕ) :
  Spared powerUp startedTwice t
  := by
  constructor
  case hours =>
      have := ticks_startedTwice_le t
      rw [nineHours]
      omega
  case clear =>
      intro hclear
      have ht : t = 7000 := of_decide_eq_true hclear
      rw [counted, swRunning_startedTwice, ht]
      simp
  case single =>
      intro _ hstart hstop
      have hstart' : t = 0 ∨ t = 3000 := of_decide_eq_true hstart
      have hstop' : t = 2000 ∨ t = 6000 := of_decide_eq_true hstop
      omega

/-- All ticks are counted until it is cleared. -/
theorem ticks_startedTwice (hcounts : Counts powerUp startedTwice) {t : ℕ} (ht : t < 7000) :
  ticks powerUp startedTwice (t + 1) = generated powerUp startedTwice t
  := by
  induction t with
  | zero => decide
  | succ t ih =>
      have hclear : cleared (startedTwice (t + 1)) = false := by
        simp only [cleared, startedTwice, Bool.false_or, decide_eq_false_iff_not]
        omega
      have hreset : (startedTwice t).iReset = false := rfl
      rw [ticks, generated, ih (by omega), hclear, hreset, if_neg Bool.false_ne_true,
        if_neg Bool.false_ne_true, counted, hclear]
      cases htick : (state powerUp startedTwice (t + 1)).swPpms with
      | true =>
          rw [hcounts.kept (t + 1) htick]
          rfl
      | false => rfl

/-- The hundredths shown are those that the steps make up. -/
theorem counter_startedTwice (hcounts : Counts powerUp startedTwice) {t n : ℕ} (ht : t + 2 < 7000)
    (hle : 2 ^ 46 * n + 2 ^ 23
      ≤ 8388583 + 107374182375 * (min t 1998 + (min (t + 2) 6000 - 3000)))
    (hlt : 8388583 + 107374182375 * (min t 1998 + (min (t + 2) 6000 - 3000))
      < 2 ^ 46 * (n + 1)) :
  (state powerUp startedTwice (t + 3)).counter = hundredths n
  := by
  have haccounted : 2 ^ 46 * generated powerUp startedTwice (t + 2)
      + subticks (state powerUp startedTwice (t + 2)) = elapsed powerUp startedTwice (t + 2) :=
    accounted initial_powerUp (t + 2)
  have hsub := subticks_lt (state powerUp startedTwice (t + 2))
  rw [elapsed_startedTwice] at haccounted
  rw [hcounts.shows, ticks_startedTwice hcounts ht]
  congr 1
  omega

/-- It shows three hundredths when it is stopped, seven when it is stopped again, and none after it
is cleared. -/
theorem counts_iff_startedTwice :
  Counts powerUp startedTwice ∧ (state powerUp startedTwice 2500).counter = hundredths 3
    ∧ (state powerUp startedTwice 6500).counter = hundredths 7
    ∧ (state powerUp startedTwice 7001).counter = hundredths 0
  := by
  have hcounts : Counts powerUp startedTwice :=
    (counts_iff initial_powerUp).mpr spared_startedTwice
  refine ⟨hcounts, ?_, ?_, ?_⟩
  · apply counter_startedTwice (t := 2497) hcounts <;> decide
  · apply counter_startedTwice (t := 6497) hcounts <;> decide
  · apply hcounts.shows 7001

/-- The inputs of a stopwatch that is started and never stopped, at a clock of 100 MHz. -/
def started (t : ℕ) : Input where
  iReset := false
  iCkstep := 2814750
  iClear := false
  iStart := t = 0
  iStop := false

theorem swRunning_started (t : ℕ) :
  (state powerUp started (t + 1)).swRunning = true
  := by
  induction t with
  | zero => decide
  | succ t ih => simp [state_succ (t + 1), step, started, ih]

/-- All ticks are counted. -/
theorem ticks_started (t : ℕ) :
  ticks powerUp started (t + 1) = generated powerUp started t
  := by
  induction t with
  | zero => decide
  | succ t ih =>
      rw [ticks, generated, ih]
      have hclear : cleared (started (t + 1)) = false := rfl
      have hreset : (started t).iReset = false := rfl
      simp only [hclear, hreset, Bool.false_eq_true, if_false]
      rw [counted, hclear, swRunning_started, Bool.not_false, Bool.and_true, Bool.and_true]
      cases (state powerUp started (t + 1)).swPpms <;> rfl

/-- Some subticks are taken at each clock. -/
theorem elapsed_started (t : ℕ) :
  t ≤ elapsed powerUp started (t + 1)
  := by
  induction t with
  | zero => apply Nat.zero_le
  | succ t ih =>
      have hreset : (started (t + 1)).iReset = false := rfl
      have henabled : enabled (state powerUp started (t + 1)) (started (t + 1)) = true := by
        rw [enabled, swRunning_started]
        simp [started]
      have hstep : (state powerUp started (t + 1)).swStep = 70368750 := by
        simp only [state_succ, step, started]
        decide
      have hone : 1 ≤ stepOf (state powerUp started (t + 1)) := by
        rw [stepOf, hstep]
        apply Nat.le_add_left_of_le
        decide
      rw [elapsed, hreset, henabled, if_neg (by decide), if_pos rfl]
      omega

/-- It does not count for ever: after nine hours it adds ten. -/
theorem not_counts_started :
  ¬Counts powerUp started
  := by
  intro hcounts
  have helapsed := elapsed_started (2 ^ 46 * 3240003)
  rw [← accounted initial_powerUp] at helapsed
  have hsub := subticks_lt (state powerUp started (2 ^ 46 * 3240003 + 1))
  have hhours := (spared_of_counts initial_powerUp hcounts (2 ^ 46 * 3240003 + 2)).hours
  rw [ticks_started, nineHours] at hhours
  omega

end Rtcstopwatch

end ZBasic
