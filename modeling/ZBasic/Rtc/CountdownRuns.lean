import ZBasic.Clocked.Bits
import ZBasic.Clocked.Counter
import ZBasic.Clocked.MixedRadix
import ZBasic.Rtc.Rtctimer

/-!
# The timer counts down

The registers that the next value is computed in settle within three clocks of a change of the
timer, and a second takes at least four pulses. What can go wrong is the flag for the last pulse of
a second: a write to the stopped timer takes it back for a clock, and a pulse in this clock does not
end the second; and while the timer is stopped with the flag set in its last second, a write at a
pulse does not start it.
-/

namespace ZBasic

open Clocked

namespace Rtctimer

/-! ### Digits -/

/-- The digits of a number of seconds. -/
def seconds (n : ℕ) : Digits where
  second := .ofNat 4 (digit 1 10 n)
  tenSecond := .ofNat 3 (digit 10 6 n)
  afterSecond := false
  minute := .ofNat 4 (digit 60 10 n)
  tenMinute := .ofNat 3 (digit 600 6 n)
  afterMinute := false
  hour := .ofNat 4 (digit 3600 10 n)
  tenHour := .ofNat 4 (digit 36000 10 n)

/-- Twelve hours, 34 minutes and 56 seconds. -/
example : (seconds (12 * 3600 + 34 * 60 + 56)).bits = 0x123456 := by decide

section Digit

variable {v m b n : ℕ}

theorem digit_zero (hb : 0 < b) (hv : b ≤ 2 ^ v) :
  decide (BitVec.ofNat v (digit m b n) = 0) = decide (digit m b n = 0)
  := by
  have hlt : digit m b n < b := digit_lt hb
  rw [decide_eq_decide, ofNat_eq_zero (by omega)]

/-- A digit is zero, and so are the lower ones. -/
theorem borrow_digit (hm : 0 < m) :
  (decide (digit m b n = 0) && decide (n % m = 0)) = decide (n % (m * b) = 0)
  := by
  rw [Bool.eq_iff_iff, Bool.and_eq_true, decide_eq_true_eq, decide_eq_true_eq, decide_eq_true_eq,
    empty_mul hm]

theorem ofNat_sub_one {d : ℕ} (hd : 0 < d) :
  BitVec.ofNat v d - 1 = BitVec.ofNat v (d - 1)
  := by
  obtain ⟨e, rfl⟩ : ∃ e, d = e + 1 := ⟨d - 1, by omega⟩
  rw [BitVec.ofNat_add, Nat.add_sub_cancel]
  apply add_sub_cancel_right

/-- With settled borrows the next digit is that of the number before. -/
theorem digitBefore_digit (hm : 0 < m) (hb : 0 < b) (hn : 0 < n) :
  digitBefore (BitVec.ofNat v (b - 1)) (decide (n % m = 0)) (decide (n % (m * b) = 0))
      (BitVec.ofNat v (digit m b n)) =
    BitVec.ofNat v (digit m b (n - 1))
  := by
  obtain ⟨k, rfl⟩ : ∃ k, n = k + 1 := ⟨n - 1, by omega⟩
  rw [Nat.add_sub_cancel, digitBefore]
  conv_rhs => rw [digit_pred hm hb]
  simp only [decide_eq_true_eq, empty_mul hm]
  by_cases hempty : (k + 1) % m = 0
  · by_cases hzero : digit m b (k + 1) = 0
    · rw [if_pos ⟨hzero, hempty⟩, if_pos hempty, if_pos hzero]
    · rw [if_neg (fun h => hzero h.1), if_pos hempty, if_pos hempty, if_neg hzero,
        ofNat_sub_one (by omega)]
  · rw [if_neg (fun h => hempty h.2), if_neg hempty, if_neg hempty]

/-- The tens of the hours have no digit above them. -/
theorem tenHour_before (hn : n < 360000) (hpos : 0 < n) :
  (if n % 36000 = 0 then BitVec.ofNat 4 (digit 36000 10 n) - 1
    else BitVec.ofNat 4 (digit 36000 10 n)) = BitVec.ofNat 4 (digit 36000 10 (n - 1))
  := by
  split_ifs with hempty
  · rw [ofNat_sub_one (by rw [digit]; omega)]
    congr 1
    rw [digit, digit]
    omega
  · congr 1
    rw [digit, digit]
    omega

/-- The digits of a number of seconds in the register. -/
theorem toNat_bits_seconds (n : ℕ) :
  (seconds n).bits.toNat =
    2 ^ 20 * digit 36000 10 n + 2 ^ 16 * digit 3600 10 n + 2 ^ 12 * digit 600 6 n
      + 2 ^ 8 * digit 60 10 n + 2 ^ 4 * digit 10 6 n + digit 1 10 n
  := by
  have h₀ : digit 1 10 n < 10 := digit_lt (by decide)
  have h₁ : digit 10 6 n < 6 := digit_lt (by decide)
  have h₂ : digit 60 10 n < 10 := digit_lt (by decide)
  have h₃ : digit 600 6 n < 6 := digit_lt (by decide)
  have h₄ : digit 3600 10 n < 10 := digit_lt (by decide)
  have h₅ : digit 36000 10 n < 10 := digit_lt (by decide)
  simp only [Digits.bits, seconds, Clocked.toNat_append, BitVec.toNat_ofNat, BitVec.toNat_ofBool,
    Bool.toNat_false]
  omega

/-- The register is not less than the number of seconds. -/
theorem le_bits_seconds (hn : n < 360000) :
  n ≤ (seconds n).bits.toNat
  := by
  rw [toNat_bits_seconds]
  simp only [digit]
  omega

theorem bits_seconds_of_le_one (hn : n ≤ 1) :
  (seconds n).bits.toNat = n
  := by
  rcases Nat.le_one_iff_eq_zero_or_eq_one.mp hn with rfl | rfl
  · decide
  · decide

/-- The last second is left, or none. -/
theorem lastTick_seconds (hn : n < 360000) :
  decide ((seconds n).bits.extractLsb' 1 23 = 0) = decide (n ≤ 1)
  := by
  have hle := le_bits_seconds hn
  have hhigh := toNat_extract_high (seconds n).bits (a := 1) (n := 23) rfl
  rw [decide_eq_decide, ← BitVec.toNat_inj, hhigh]
  change _ / 2 ^ 1 = 0 ↔ _
  constructor
  · intro hzero
    omega
  · intro hone
    rw [bits_seconds_of_le_one hone]
    omega

theorem bits_seconds_eq_zero (hn : n < 360000) :
  (seconds n).bits = 0 ↔ n = 0
  := by
  have hle := le_bits_seconds hn
  rw [← BitVec.toNat_inj]
  constructor
  · intro hzero
    rw [hzero] at hle
    apply Nat.le_zero.mp hle
  · intro hzero
    rw [bits_seconds_of_le_one (by omega), hzero]
    rfl

end Digit

/-! ### Settling -/

/-- The registers, `a` clocks after the timer has become `n` seconds. -/
structure Settled {w : ℕ} (n a : ℕ) (s : Rtctimer w) : Prop where
  bcdTimer : s.bcdTimer = seconds n
  preTmrCarry : 1 ≤ a → s.preTmrCarry =
    ⟨digit 1 10 n = 0, digit 10 6 n = 0, digit 60 10 n = 0, digit 600 6 n = 0,
      digit 3600 10 n = 0⟩
  tmrCarry : 2 ≤ a → s.tmrCarry =
    ⟨n % 10 = 0, n % 60 = 0, n % 600 = 0, n % 3600 = 0, n % 36000 = 0⟩
  lastTick : 1 ≤ a → s.lastTick = decide (n ≤ 1)
  nextTimer : 3 ≤ a → 0 < n → s.nextTimer = seconds (n - 1)

section Step

variable {w : ℕ} {s : Rtctimer w} {i : Input} {n a : ℕ}

/-- While the timer stays as it is the registers settle. -/
theorem Settled.stay (h : Settled n a s) (hn : n < 360000) (hreset : i.iReset = false)
    (hload : loads s i = false) (hcount : (s.tmRunning && tmPps s i) = false) :
  Settled n (a + 1) (s.step i)
  := by
  constructor
  case bcdTimer =>
      simp only [step, hreset, hload, hcount, h.bcdTimer, Bool.false_eq_true, if_false]
      rfl
  case preTmrCarry =>
      intro _
      have h₀ := digit_zero (v := 4) (m := 1) (b := 10) (n := n) (by decide) (by decide)
      have h₁ := digit_zero (v := 3) (m := 10) (b := 6) (n := n) (by decide) (by decide)
      have h₂ := digit_zero (v := 4) (m := 60) (b := 10) (n := n) (by decide) (by decide)
      have h₃ := digit_zero (v := 3) (m := 600) (b := 6) (n := n) (by decide) (by decide)
      have h₄ := digit_zero (v := 4) (m := 3600) (b := 10) (n := n) (by decide) (by decide)
      simp only [step, h.bcdTimer]
      rw [← h₀, ← h₁, ← h₂, ← h₃, ← h₄]
      rfl
  case tmrCarry =>
      intro ha
      have h₀ := borrow_digit (m := 1) (b := 10) (n := n) (by decide)
      have h₁ := borrow_digit (m := 10) (b := 6) (n := n) (by decide)
      have h₂ := borrow_digit (m := 60) (b := 10) (n := n) (by decide)
      have h₃ := borrow_digit (m := 600) (b := 6) (n := n) (by decide)
      have h₄ := borrow_digit (m := 3600) (b := 10) (n := n) (by decide)
      rw [Nat.mod_one, decide_eq_true rfl, Bool.and_true] at h₀
      simp only [step, h.preTmrCarry (by omega)]
      rw [h₀, h₁, h₂, h₃, h₄]
  case lastTick =>
      intro _
      simp only [step, h.bcdTimer]
      apply lastTick_seconds hn
  case nextTimer =>
      intro ha hpos
      have h₀ := digitBefore_digit (v := 4) (m := 1) (b := 10) (by decide) (by decide) hpos
      have h₁ := digitBefore_digit (v := 3) (m := 10) (b := 6) (by decide) (by decide) hpos
      have h₂ := digitBefore_digit (v := 4) (m := 60) (b := 10) (by decide) (by decide) hpos
      have h₃ := digitBefore_digit (v := 3) (m := 600) (b := 6) (by decide) (by decide) hpos
      have h₄ := digitBefore_digit (v := 4) (m := 3600) (b := 10) (by decide) (by decide) hpos
      rw [Nat.mod_one, decide_eq_true rfl, digitBefore] at h₀
      have h₅ := tenHour_before hn hpos
      simp only [step, h.bcdTimer, h.tmrCarry (by omega)]
      apply Digits.ext
      · apply h₀
      · apply h₁
      · rfl
      · apply h₂
      · apply h₃
      · rfl
      · apply h₄
      · simp only [decide_eq_true_eq]
        apply h₅

/-- At the end of a second the timer is one second less. -/
theorem Settled.count (h : Settled n a s) (ha : 3 ≤ a) (hpos : 0 < n) (hreset : i.iReset = false)
    (hload : loads s i = false) (hcount : (s.tmRunning && tmPps s i) = true) :
  Settled (n - 1) 0 (s.step i)
  := by
  constructor
  case bcdTimer =>
      simp only [step, hreset, hload, hcount, h.nextTimer ha hpos, Bool.false_eq_true, if_false,
        if_true]
      rfl
  all_goals
    intro hnot
    contradiction

/-- The subseconds are at their last count. -/
theorem eq_allOnes_iff (x : BitVec w) :
  x = BitVec.allOnes w ↔ x.toNat + 1 = 2 ^ w
  := by
  have hpos : 0 < 2 ^ w := Nat.two_pow_pos w
  rw [← BitVec.toNat_inj, BitVec.toNat_allOnes]
  omega

/-- The look-ahead: one more is the last count. -/
theorem ahead_eq (hw : 2 ≤ w) (x : BitVec w) :
  (decide (x.extractLsb' 1 (w - 1) = BitVec.allOnes (w - 1)) && !x.getLsbD 0) =
    decide (x + 1 = BitVec.allOnes w)
  := by
  obtain ⟨v, rfl⟩ : ∃ v, w = v + 1 := ⟨w - 1, by omega⟩
  have hlt := x.isLt
  have hpow : 2 ^ (v + 1) = 2 * 2 ^ v := by rw [Nat.pow_succ, Nat.mul_comm]
  have hone : (1 : BitVec (v + 1)).toNat = 1 := toNat_one_of_lt (by
    rw [hpow]
    have := Nat.two_pow_pos v
    omega)
  have hhigh := toNat_extract_high x (a := 1) (n := v) (Nat.add_comm 1 v)
  have hlow : x.getLsbD 0 = decide (x.toNat % 2 = 1) := by
    rw [BitVec.getLsbD, Nat.testBit_zero]
  have hpos : 2 ≤ 2 ^ v := by
    calc 2 = 2 ^ 1 := rfl
      _ ≤ 2 ^ v := Nat.pow_le_pow_right (by decide) (by omega)
  rw [Nat.add_sub_cancel, Bool.eq_iff_iff, Bool.and_eq_true, decide_eq_true_eq, decide_eq_true_eq,
    eq_allOnes_iff, eq_allOnes_iff, hhigh, hlow, BitVec.toNat_add, hone, Bool.not_eq_true',
    decide_eq_false_iff_not]
  rw [hpow] at hlt ⊢
  rcases Nat.lt_or_ge (x.toNat + 1) (2 * 2 ^ v) with hsmall | hlarge
  · rw [Nat.mod_eq_of_lt hsmall]
    omega
  · have hall : x.toNat + 1 = 2 * 2 ^ v := by omega
    rw [hall, Nat.mod_self]
    omega

end Step

/-! ### Runs -/

section Runs

variable {w : ℕ} (s₀ : Rtctimer w) (inp : ℕ → Input)

/-- The registers before the clock `t`. -/
def state (t : ℕ) : Rtctimer w := run step s₀ inp t

/-- A pulse of the sub-second clock comes while the timer runs. -/
def pulse (t : ℕ) : Bool := (inp t).iSubCk && (state s₀ inp t).tmRunning

/-- The pulses that came while the timer was running. -/
def pulses : ℕ → ℕ
  | 0 => 0
  | t + 1 => pulses t + (pulse s₀ inp t).toNat

/-- After the first clock there has been neither a reset nor another duration written. -/
def Undisturbed (t : ℕ) : Prop :=
  ∀ u, 0 < u → u < t → (inp u).iReset = false ∧ loads (state s₀ inp u) (inp u) = false

/-- At the first clock `n` seconds are written to a timer that is stopped. -/
structure Loaded (n : ℕ) : Prop where
  iReset : (inp 0).iReset = false
  loads : loads s₀ (inp 0) = true
  iData : Digits.ofBits ((inp 0).iData.extractLsb' 0 24) = seconds n
  pos : 0 < n
  lt : n < 360000

/-- What the writes say: the timer is started with the duration, and later on by bit 24 of what is
written, which starts a stopped timer only in a write without a value. -/
def told : ℕ → Bool
  | 0 => false
  | 1 => true
  | t + 1 =>
      if (inp t).iWr then (inp t).iData.getLsbD 24 && (told t || (inp t).iZero) else told t

/-- The timer counts `n` seconds down: until the last pulse it runs as the writes say; it shows the
whole seconds that are left; with the last pulse, and with no other, comes the interrupt, the timer
is stopped at zero and the alarm flag is set, until something is written. -/
structure CountsDown (n : ℕ) : Prop where
  runs : ∀ t, Undisturbed s₀ inp t →
    (state s₀ inp t).tmRunning = (decide (pulses s₀ inp t < n * 2 ^ w) && told inp t)
  shows : ∀ t, 0 < t → Undisturbed s₀ inp t →
    (state s₀ inp t).bcdTimer = seconds (n - pulses s₀ inp t / 2 ^ w)
  le : ∀ t, Undisturbed s₀ inp t → pulses s₀ inp t ≤ n * 2 ^ w
  stops : ∀ t, Undisturbed s₀ inp t → pulses s₀ inp t = n * 2 ^ w →
    (state s₀ inp t).tmRunning = false
  interrupt : ∀ t, Undisturbed s₀ inp (t + 1) →
    (state s₀ inp (t + 1)).oInterrupt =
      (pulse s₀ inp t && decide (pulses s₀ inp (t + 1) = n * 2 ^ w))
  alarm : ∀ t, Undisturbed s₀ inp (t + 1) →
    (state s₀ inp (t + 1)).tmAlarm =
      (pulse s₀ inp t && decide (pulses s₀ inp (t + 1) = n * 2 ^ w)
        || (state s₀ inp t).tmAlarm && !(inp t).iWr)

/-- The clock after a write to the stopped timer has no pulse that would end a second. -/
def Spared : Prop :=
  ∀ t, Undisturbed s₀ inp (t + 2) → (inp t).iWr = true → (state s₀ inp t).tmRunning = false →
    pulse s₀ inp (t + 1) = true → pulses s₀ inp (t + 1) % 2 ^ w + 1 ≠ 2 ^ w

/-- A write to the stopped timer that starts it, with a duration or without one, does not come at a
pulse for which `tm_pps` and `last_tick` are set. -/
def Heeded : Prop :=
  ∀ t, Undisturbed s₀ inp (t + 1) → (inp t).iWr = true → (state s₀ inp t).tmRunning = false →
    loads (state s₀ inp t) (inp t) = true ∨ (inp t).iZero = true ∧ (inp t).iData.getLsbD 24 = true →
    (tmPps (state s₀ inp t) (inp t) && (state s₀ inp t).lastTick) = false

/-- The last clock was a write to the stopped timer. -/
def held : ℕ → Bool
  | 0 => false
  | t + 1 => (inp t).iWr && !(state s₀ inp t).tmRunning

/-- The registers at a clock, as long as the timer counts. -/
structure Tracked (n t : ℕ) : Prop where
  le : pulses s₀ inp t ≤ n * 2 ^ w
  settled : ∃ a, pulses s₀ inp t % 2 ^ w ≤ a ∧
    Settled (n - pulses s₀ inp t / 2 ^ w) a (state s₀ inp t)
  tmSub : (state s₀ inp t).tmSub.toNat = pulses s₀ inp t % 2 ^ w
  tmPrePps : (state s₀ inp t).tmPrePps =
    (decide (pulses s₀ inp t % 2 ^ w + 1 = 2 ^ w) && !held s₀ inp t)
  tmRunning : (state s₀ inp t).tmRunning = true → pulses s₀ inp t < n * 2 ^ w
  tmAlarm : (state s₀ inp t).tmAlarm = true → pulses s₀ inp t = n * 2 ^ w

variable {s₀ inp} {n t : ℕ}

theorem state_succ (t : ℕ) :
  state s₀ inp (t + 1) = (state s₀ inp t).step (inp t)
  := rfl

theorem Undisturbed.before (h : Undisturbed s₀ inp (t + 1)) :
  Undisturbed s₀ inp t
  := fun u hpos hlt => h u hpos (Nat.lt_succ_of_lt hlt)

/-- The first clock has no pulse that counts. -/
theorem Loaded.pulse_zero (h : Loaded s₀ inp n) :
  (inp 0).iWr = true ∧ s₀.tmRunning = false ∧ pulse s₀ inp 0 = false
  := by
  have hload := h.loads
  rw [Rtctimer.loads, Bool.and_eq_true, Bool.and_eq_true, Bool.and_eq_true,
    Bool.not_eq_true'] at hload
  obtain ⟨⟨⟨hwr, hstopped⟩, -⟩, -⟩ := hload
  use hwr, hstopped
  rw [pulse]
  change ((inp 0).iSubCk && s₀.tmRunning) = false
  rw [hstopped, Bool.and_false]

/-- After the duration has been written the timer starts from it. -/
theorem tracked_one (hw : 2 ≤ w) (h : Loaded s₀ inp n) :
  Tracked s₀ inp n 1
  := by
  obtain ⟨hwr, hstopped, hpulse⟩ := h.pulse_zero
  have hnone : pulses s₀ inp 1 = 0 := by rw [pulses, pulses, hpulse, Bool.toNat_false]
  have hfour : 2 ^ 2 ≤ 2 ^ w := Nat.pow_le_pow_right (by decide) hw
  have hstate : state s₀ inp 1 = s₀.step (inp 0) := rfl
  have hheld : held s₀ inp 1 = true := by
    rw [held]
    change ((inp 0).iWr && !s₀.tmRunning) = true
    rw [hwr, hstopped]
    rfl
  constructor
  case le =>
      rw [hnone]
      apply Nat.zero_le
  case settled =>
      use 0
      rw [hnone, Nat.zero_mod, Nat.zero_div, Nat.sub_zero]
      use le_rfl
      constructor
      case bcdTimer =>
          rw [hstate]
          simp only [step, h.iReset, h.loads, Bool.false_eq_true, if_false, if_true]
          apply h.iData
      all_goals
        intro hnot
        contradiction
  case tmSub =>
      rw [hnone, hstate, Nat.zero_mod]
      simp [step, h.loads]
  case tmPrePps =>
      rw [hheld, hstate]
      simp [step, hwr, hstopped]
  case tmRunning =>
      intro _
      rw [hnone]
      apply Nat.mul_pos h.pos (Nat.two_pow_pos w)
  case tmAlarm =>
      rw [hstate]
      simp [step, h.iReset, hwr, hstopped]

/-- While the timer runs the alarm flag is not set. -/
theorem Tracked.tmAlarm_of_tmRunning (h : Tracked s₀ inp n t)
    (hrunning : (state s₀ inp t).tmRunning = true) :
  (state s₀ inp t).tmAlarm = false
  := by
  by_contra halarm
  rw [Bool.not_eq_false] at halarm
  have hlt := h.tmRunning hrunning
  rw [h.tmAlarm halarm] at hlt
  omega

/-- At zero the timer does not start to run. -/
theorem tmRunning_step {s : Rtctimer w} {i : Input} {m : ℕ} (hm : m < 360000)
    (hcounter : s.bcdTimer = seconds m) (hload : loads s i = false)
    (hrunning : (s.step i).tmRunning = true) :
  (s.tmRunning = true ∨ 0 < m) ∧ (tmPps s i && s.lastTick) = false
  := by
  simp only [step] at hrunning
  split_ifs at hrunning with hreset hlast hwr hrun hzero
  · simp [hrun, hlast]
  · rw [Bool.and_eq_true, decide_eq_true_eq, hcounter, Ne, bits_seconds_eq_zero hm] at hzero
    exact ⟨Or.inr (by omega), by simpa using hlast⟩
  · rw [loads, hwr] at hload
    simp_all
  · simp [hrunning, hlast]

/-- Without a pulse the timer stays as it is. -/
theorem tracked_silent (h : Tracked s₀ inp n t) (hlt : n < 360000)
    (hreset : (inp t).iReset = false) (hload : loads (state s₀ inp t) (inp t) = false)
    (hpulse : pulse s₀ inp t = false) :
  Tracked s₀ inp n (t + 1) ∧ (state s₀ inp (t + 1)).tmInt = false
    ∧ (state s₀ inp (t + 1)).tmAlarm = ((state s₀ inp t).tmAlarm && !(inp t).iWr)
  := by
  have hpos : 0 < 2 ^ w := Nat.two_pow_pos w
  have hsame : pulses s₀ inp (t + 1) = pulses s₀ inp t := by
    rw [pulses, hpulse, Bool.toNat_false, Nat.add_zero]
  have hcount : ((state s₀ inp t).tmRunning && tmPps (state s₀ inp t) (inp t)) = false := by
    rw [pulse] at hpulse
    rw [tmPps]
    cases hsub : (inp t).iSubCk with
    | true =>
        rw [hsub, Bool.true_and] at hpulse
        rw [hpulse, Bool.false_and]
    | false => rw [Bool.and_false, Bool.and_false]
  obtain ⟨a, ha, hsettled⟩ := h.settled
  rw [pulse] at hpulse
  have halarm : (state s₀ inp (t + 1)).tmAlarm =
      ((state s₀ inp t).tmAlarm && !(inp t).iWr) := by
    rw [state_succ]
    simp only [step, hreset, hcount, Bool.false_and, Bool.false_eq_true, if_false]
    cases hwr : (inp t).iWr with
    | false => simp
    | true =>
        cases hrunning : (state s₀ inp t).tmRunning with
        | false => simp
        | true => simp [h.tmAlarm_of_tmRunning hrunning]
  constructor
  · constructor
    case le =>
        rw [hsame]
        apply h.le
    case settled =>
        use a + 1
        rw [hsame]
        use by omega
        apply hsettled.stay (lt_of_le_of_lt (Nat.sub_le _ _) hlt) hreset hload hcount
    case tmSub =>
        rw [hsame, ← h.tmSub, state_succ]
        simp only [step, hreset, hload, hpulse, Bool.or_self, Bool.false_eq_true, if_false]
    case tmPrePps =>
        rw [hsame, held, state_succ]
        simp only [step, hreset, hpulse, Bool.false_or, Bool.false_eq_true, if_false]
        cases hheld : (inp t).iWr && !(state s₀ inp t).tmRunning with
        | true => simp
        | false =>
            rw [if_neg (by decide), Bool.not_false, Bool.and_true, decide_eq_decide,
              eq_allOnes_iff, h.tmSub]
    case tmRunning =>
        intro hrunning
        rw [hsame]
        obtain ⟨hbefore | hleft, -⟩ :=
          tmRunning_step (lt_of_le_of_lt (Nat.sub_le _ _) hlt) hsettled.bcdTimer hload hrunning
        · apply h.tmRunning hbefore
        · apply (Nat.div_lt_iff_lt_mul hpos).mp
          omega
    case tmAlarm =>
        intro hset
        rw [halarm, Bool.and_eq_true] at hset
        rw [hsame]
        apply h.tmAlarm hset.1
  · constructor
    · rw [state_succ]
      simp only [step, hreset, hcount, Bool.false_and, Bool.false_eq_true, if_false]
    · apply halarm

/-- The last of all pulses ends the last second. -/
theorem pulse_last {m p : ℕ} (hm : 0 < m) :
  p + 1 = n * m ↔ p % m + 1 = m ∧ p / m + 1 = n
  := by
  have hmod := succ_mod (n := p) hm
  have hdiv := succ_div (n := p) hm
  constructor
  · intro hall
    rw [hall, Nat.mul_mod_left] at hmod
    rw [hall, Nat.mul_div_cancel _ hm] at hdiv
    split_ifs at hmod hdiv with hend
    · exact ⟨hend, hdiv.symm⟩
  · intro ⟨hend, hquotient⟩
    rw [if_pos hend] at hmod hdiv
    have hsplit := Nat.div_add_mod (p + 1) m
    rw [hmod, hdiv, hquotient, Nat.add_zero, Nat.mul_comm] at hsplit
    apply hsplit.symm

/-- Unless it has been taken back, the flag for the last pulse of a second is set. -/
theorem Tracked.tmPps_pulse (h : Tracked s₀ inp n t) (hpulse : pulse s₀ inp t = true)
    (hheld : held s₀ inp t = true → pulses s₀ inp t % 2 ^ w + 1 ≠ 2 ^ w) :
  tmPps (state s₀ inp t) (inp t) = decide (pulses s₀ inp t % 2 ^ w + 1 = 2 ^ w)
  := by
  rw [pulse, Bool.and_eq_true] at hpulse
  rw [tmPps, h.tmPrePps, hpulse.1, Bool.and_true]
  by_cases hend : pulses s₀ inp t % 2 ^ w + 1 = 2 ^ w
  · have hfree : held s₀ inp t = false := by
      by_contra hno
      apply hheld (by simpa using hno) hend
    rw [hfree, Bool.not_false, Bool.and_true]
  · rw [decide_eq_false hend, Bool.false_and]

/-- The last second ends with the last pulse. -/
theorem Tracked.last_pulse (hw : 2 ≤ w) (h : Tracked s₀ inp n t) (hpulse : pulse s₀ inp t = true)
    (hheld : held s₀ inp t = true → pulses s₀ inp t % 2 ^ w + 1 ≠ 2 ^ w) :
  (tmPps (state s₀ inp t) (inp t) && (state s₀ inp t).lastTick)
    = decide (pulses s₀ inp t + 1 = n * 2 ^ w)
  := by
  have hpos : 0 < 2 ^ w := Nat.two_pow_pos w
  have hfour : 2 ^ 2 ≤ 2 ^ w := Nat.pow_le_pow_right (by decide) hw
  have hlast := pulse_last (n := n) (p := pulses s₀ inp t) hpos
  obtain ⟨a, ha, hsettled⟩ := h.settled
  rw [h.tmPps_pulse hpulse hheld, decide_eq_decide.mpr hlast, Bool.decide_and]
  rw [pulse, Bool.and_eq_true] at hpulse
  have hquotient := (Nat.div_lt_iff_lt_mul hpos).mpr (h.tmRunning hpulse.2)
  by_cases hend : pulses s₀ inp t % 2 ^ w + 1 = 2 ^ w
  · rw [hsettled.lastTick (by omega)]
    congr 1
    rw [decide_eq_decide]
    omega
  · rw [decide_eq_false hend, Bool.false_and, Bool.false_and]

/-- The subseconds go on with a pulse, and the flag for the last one is set ahead. -/
theorem Tracked.sub_pulse (hw : 2 ≤ w) (h : Tracked s₀ inp n t) (hreset : (inp t).iReset = false)
    (hload : loads (state s₀ inp t) (inp t) = false) (hpulse : pulse s₀ inp t = true) :
  (state s₀ inp (t + 1)).tmSub.toNat = (pulses s₀ inp t + 1) % 2 ^ w
    ∧ (state s₀ inp (t + 1)).tmPrePps = decide ((pulses s₀ inp t + 1) % 2 ^ w + 1 = 2 ^ w)
  := by
  have hfour : 2 ^ 2 ≤ 2 ^ w := Nat.pow_le_pow_right (by decide) hw
  rw [pulse, Bool.and_eq_true] at hpulse
  obtain ⟨hsub, hrunning⟩ := hpulse
  have hplus : ((state s₀ inp t).tmSub + 1).toNat = (pulses s₀ inp t + 1) % 2 ^ w := by
    have hone : (1 : BitVec w).toNat = 1 := toNat_one_of_lt (by omega)
    rw [BitVec.toNat_add, h.tmSub, hone, Nat.mod_add_mod]
  rw [← hplus]
  constructor
  · rw [state_succ]
    simp only [step, hreset, hload, hsub, hrunning, Bool.or_self, Bool.and_self, if_true,
      Bool.false_eq_true, if_false]
  · rw [← decide_eq_decide.mpr (eq_allOnes_iff _), ← ahead_eq hw, state_succ]
    simp only [step, hreset, hsub, hrunning, Bool.not_true, Bool.and_false, Bool.or_self,
      Bool.and_self, if_true, Bool.false_eq_true, if_false]

/-- The interrupt and the alarm come with the last pulse. -/
theorem Tracked.fires_pulse (hw : 2 ≤ w) (h : Tracked s₀ inp n t) (hreset : (inp t).iReset = false)
    (hpulse : pulse s₀ inp t = true)
    (hheld : held s₀ inp t = true → pulses s₀ inp t % 2 ^ w + 1 ≠ 2 ^ w) :
  (state s₀ inp (t + 1)).tmInt = decide (pulses s₀ inp t + 1 = n * 2 ^ w)
    ∧ (state s₀ inp (t + 1)).tmAlarm = decide (pulses s₀ inp t + 1 = n * 2 ^ w)
  := by
  have hrunning : (state s₀ inp t).tmRunning = true := by
    rw [pulse, Bool.and_eq_true] at hpulse
    apply hpulse.2
  have hnoalarm := h.tmAlarm_of_tmRunning hrunning
  rw [← h.last_pulse hw hpulse hheld, state_succ]
  constructor
  · simp only [step, hreset, hrunning, hnoalarm, Bool.not_false, Bool.and_true, Bool.true_and,
      Bool.false_eq_true, if_false]
  · simp only [step, hreset, hrunning, hnoalarm, Bool.not_true, Bool.and_false, Bool.true_and,
      Bool.false_eq_true, if_false]
    cases tmPps (state s₀ inp t) (inp t) && (state s₀ inp t).lastTick <;> rfl

/-- With a pulse the timer counts, unless it comes where a second ends and the flag for it has been
taken back. -/
theorem tracked_pulse (hw : 2 ≤ w) (h : Tracked s₀ inp n t) (hlt : n < 360000)
    (hreset : (inp t).iReset = false) (hload : loads (state s₀ inp t) (inp t) = false)
    (hpulse : pulse s₀ inp t = true)
    (hheld : held s₀ inp t = true → pulses s₀ inp t % 2 ^ w + 1 ≠ 2 ^ w) :
  Tracked s₀ inp n (t + 1)
    ∧ (state s₀ inp (t + 1)).tmInt = decide (pulses s₀ inp (t + 1) = n * 2 ^ w)
    ∧ (state s₀ inp (t + 1)).tmAlarm = decide (pulses s₀ inp (t + 1) = n * 2 ^ w)
  := by
  have hpos : 0 < 2 ^ w := Nat.two_pow_pos w
  have hfour : 2 ^ 2 ≤ 2 ^ w := Nat.pow_le_pow_right (by decide) hw
  have hnext : pulses s₀ inp (t + 1) = pulses s₀ inp t + 1 := by
    rw [pulses, hpulse, Bool.toNat_true]
  have hrunning : (state s₀ inp t).tmRunning = true := by
    rw [pulse, Bool.and_eq_true] at hpulse
    apply hpulse.2
  have hbelow := h.tmRunning hrunning
  have hquotient : pulses s₀ inp t / 2 ^ w < n := (Nat.div_lt_iff_lt_mul hpos).mpr hbelow
  have hmod := succ_mod (n := pulses s₀ inp t) hpos
  have hdiv := succ_div (n := pulses s₀ inp t) hpos
  have hpps := h.tmPps_pulse hpulse hheld
  obtain ⟨htmSub, htmPrePps⟩ := h.sub_pulse hw hreset hload hpulse
  have hfires := h.fires_pulse hw hreset hpulse hheld
  obtain ⟨a, ha, hsettled⟩ := h.settled
  have hleft : n - pulses s₀ inp t / 2 ^ w < 360000 := lt_of_le_of_lt (Nat.sub_le _ _) hlt
  rw [hnext]
  constructor
  · constructor
    case le =>
        rw [hnext]
        apply hbelow
    case settled =>
        rw [hnext, hmod, hdiv]
        by_cases hend : pulses s₀ inp t % 2 ^ w + 1 = 2 ^ w
        · rw [if_pos hend, if_pos hend, ← Nat.sub_sub]
          use 0, le_rfl
          apply hsettled.count (by omega) (by omega) hreset hload
          rw [hrunning, hpps, decide_eq_true hend, Bool.true_and]
        · rw [if_neg hend, if_neg hend]
          use a + 1, Nat.succ_le_succ ha
          apply hsettled.stay hleft hreset hload
          rw [hpps, decide_eq_false hend, Bool.and_false]
    case tmSub =>
        rw [hnext, htmSub]
    case tmPrePps =>
        rw [hnext, htmPrePps, held, hrunning, Bool.not_true, Bool.and_false, Bool.not_false,
          Bool.and_true]
    case tmRunning =>
        intro hrunning'
        have hnotLast := (tmRunning_step hleft hsettled.bcdTimer hload hrunning').2
        rw [h.last_pulse hw hpulse hheld, decide_eq_false_iff_not] at hnotLast
        rw [hnext]
        apply Nat.lt_of_le_of_ne hbelow hnotLast
    case tmAlarm =>
        intro hset
        rw [hfires.2, decide_eq_true_eq] at hset
        rw [hnext]
        apply hset
  · apply hfires

/-- What the condition says about the flag that is taken back. -/
theorem Spared.of_held (h : Spared s₀ inp) (ht : 0 < t) (hundisturbed : Undisturbed s₀ inp (t + 1))
    (hpulse : pulse s₀ inp t = true) (hheld : held s₀ inp t = true) :
  pulses s₀ inp t % 2 ^ w + 1 ≠ 2 ^ w
  := by
  obtain ⟨u, rfl⟩ : ∃ u, t = u + 1 := ⟨t - 1, by omega⟩
  rw [held, Bool.and_eq_true, Bool.not_eq_true'] at hheld
  apply h u hundisturbed hheld.1 hheld.2 hpulse

/-- A timer that is spared is tracked. -/
theorem tracked (hw : 2 ≤ w) (h : Loaded s₀ inp n) (hspared : Spared s₀ inp) (hpos : 0 < t)
    (hundisturbed : Undisturbed s₀ inp t) :
  Tracked s₀ inp n t
  := by
  induction t with
  | zero => contradiction
  | succ t ih =>
      cases t with
      | zero => apply tracked_one hw h
      | succ t =>
          have hbefore := ih (Nat.succ_pos t) hundisturbed.before
          obtain ⟨hreset, hload⟩ := hundisturbed (t + 1) (Nat.succ_pos t) (Nat.lt_succ_self _)
          cases hpulse : pulse s₀ inp (t + 1) with
          | false => apply (tracked_silent hbefore h.lt hreset hload hpulse).1
          | true =>
              apply (tracked_pulse hw hbefore h.lt hreset hload hpulse _).1
              apply hspared.of_held (Nat.succ_pos t) hundisturbed hpulse

/-! ### When the timer runs -/

theorem told_succ (ht : 0 < t) :
  told inp (t + 1)
    = if (inp t).iWr then (inp t).iData.getLsbD 24 && (told inp t || (inp t).iZero)
      else told inp t
  := by
  obtain ⟨u, rfl⟩ : ∃ u, t = u + 1 := ⟨t - 1, by omega⟩
  rfl

/-- The duration starts the timer. -/
theorem runs_one (h : Loaded s₀ inp n) (hheeded : Heeded s₀ inp) :
  (state s₀ inp 1).tmRunning = true
  := by
  obtain ⟨hwr, hstopped, -⟩ := h.pulse_zero
  have hload := h.loads
  have hfirst : Undisturbed s₀ inp 1 := by
    intro u hpos hlt
    omega
  have hlast := hheeded 0 hfirst hwr hstopped (Or.inl hload)
  change (tmPps s₀ (inp 0) && s₀.lastTick) = false at hlast
  change (s₀.step (inp 0)).tmRunning = true
  simp only [Rtctimer.loads, hwr, hstopped, Bool.not_false, Bool.true_and, Bool.and_eq_true,
    Bool.not_eq_true', decide_eq_true_eq] at hload
  simp [step, h.iReset, hlast, hwr, hstopped, hload.1, hload.2]

/-- A write without a value to the stopped timer starts it, unless it stands at zero. -/
theorem tmRunning_write {s : Rtctimer w} {i : Input} (hreset : i.iReset = false)
    (hwr : i.iWr = true) (hstopped : s.tmRunning = false) (hload : loads s i = false)
    (hheed : i.iZero = true → i.iData.getLsbD 24 = true → (tmPps s i && s.lastTick) = false) :
  (s.step i).tmRunning = (decide (s.bcdTimer.bits ≠ 0) && (i.iData.getLsbD 24 && i.iZero))
  := by
  simp only [loads, hwr, hstopped, Bool.not_false, Bool.true_and] at hload
  simp only [step, hreset, hwr, hstopped, Bool.false_eq_true, if_false, if_true]
  cases hzero : i.iZero with
  | false =>
      rw [hzero, Bool.not_false, Bool.and_true] at hload
      simp only [Bool.false_and, Bool.false_eq_true, if_false, Bool.not_false, hload, ite_self,
        Bool.and_false]
  | true =>
      cases hdata : i.iData.getLsbD 24 with
      | false => simp
      | true =>
          rw [hheed hzero hdata]
          simp

/-- Until the last pulse, and without a pulse, the timer runs on as the writes say. -/
theorem runs_silent (h : Tracked s₀ inp n t) (hlt : n < 360000) (ht : 0 < t)
    (hundisturbed : Undisturbed s₀ inp (t + 1)) (hheeded : Heeded s₀ inp)
    (hpulse : pulse s₀ inp t = false)
    (hruns : (state s₀ inp t).tmRunning
      = (decide (pulses s₀ inp t < n * 2 ^ w) && told inp t)) :
  (state s₀ inp (t + 1)).tmRunning
    = (decide (pulses s₀ inp (t + 1) < n * 2 ^ w) && told inp (t + 1))
  := by
  have hpos : 0 < 2 ^ w := Nat.two_pow_pos w
  obtain ⟨hreset, hload⟩ := hundisturbed t ht (Nat.lt_succ_self t)
  have hsame : pulses s₀ inp (t + 1) = pulses s₀ inp t := by
    rw [pulses, hpulse, Bool.toNat_false, Nat.add_zero]
  obtain ⟨a, -, hsettled⟩ := h.settled
  -- The timer is at zero after the last pulse, and only then.
  have hbelow : pulses s₀ inp t < n * 2 ^ w ↔ (state s₀ inp t).bcdTimer.bits ≠ 0 := by
    rw [hsettled.bcdTimer, ne_eq, bits_seconds_eq_zero (lt_of_le_of_lt (Nat.sub_le _ _) hlt),
      Nat.sub_eq_zero_iff_le, Nat.not_le, Nat.div_lt_iff_lt_mul hpos]
  rw [hsame, told_succ ht]
  cases hrunning : (state s₀ inp t).tmRunning with
  | true =>
      have hleft := h.tmRunning hrunning
      rw [hrunning, decide_eq_true hleft, Bool.true_and, eq_comm] at hruns
      rw [pulse, hrunning, Bool.and_true] at hpulse
      rw [hruns, decide_eq_true hleft, state_succ]
      simp [step, hreset, tmPps, hpulse, hrunning]
  | false =>
      rw [hrunning] at hruns
      cases hwr : (inp t).iWr with
      | false =>
          rw [if_neg Bool.false_ne_true, ← hruns, state_succ]
          simp [step, hreset, hwr, hrunning]
      | true =>
          have hheed := hheeded t hundisturbed hwr hrunning
          rw [if_pos rfl, state_succ, tmRunning_write hreset hwr hrunning hload
            fun hno hdata => hheed (Or.inr ⟨hno, hdata⟩), ← decide_eq_decide.mpr hbelow]
          by_cases hleft : pulses s₀ inp t < n * 2 ^ w
          · rw [decide_eq_true hleft, Bool.true_and, eq_comm] at hruns
            rw [hruns, Bool.false_or]
          · rw [decide_eq_false hleft, Bool.false_and, Bool.false_and]

/-- With a pulse it runs on as the writes say, unless it is the last one. -/
theorem runs_pulse (hw : 2 ≤ w) (h : Tracked s₀ inp n t) (ht : 0 < t)
    (hreset : (inp t).iReset = false) (hpulse : pulse s₀ inp t = true)
    (hheld : held s₀ inp t = true → pulses s₀ inp t % 2 ^ w + 1 ≠ 2 ^ w)
    (hruns : (state s₀ inp t).tmRunning
      = (decide (pulses s₀ inp t < n * 2 ^ w) && told inp t)) :
  (state s₀ inp (t + 1)).tmRunning
    = (decide (pulses s₀ inp (t + 1) < n * 2 ^ w) && told inp (t + 1))
  := by
  have hlast := h.last_pulse hw hpulse hheld
  have hnext : pulses s₀ inp (t + 1) = pulses s₀ inp t + 1 := by
    rw [pulses, hpulse, Bool.toNat_true]
  have hrunning : (state s₀ inp t).tmRunning = true := by
    rw [pulse, Bool.and_eq_true] at hpulse
    apply hpulse.2
  have hbelow := h.tmRunning hrunning
  rw [hrunning, decide_eq_true hbelow, Bool.true_and, eq_comm] at hruns
  rw [told_succ ht, hruns, hnext, state_succ]
  by_cases hend : pulses s₀ inp t + 1 = n * 2 ^ w
  · rw [decide_eq_true hend] at hlast
    simp [step, hlast, hend]
  · rw [decide_eq_false hend] at hlast
    have hmore : pulses s₀ inp t + 1 < n * 2 ^ w := Nat.lt_of_le_of_ne hbelow hend
    simp [step, hreset, hlast, hrunning, hmore]

/-- A timer that is spared and heeded runs as the writes say. -/
theorem runs_of_heeded (hw : 2 ≤ w) (h : Loaded s₀ inp n) (hspared : Spared s₀ inp)
    (hheeded : Heeded s₀ inp) (hundisturbed : Undisturbed s₀ inp t) :
  (state s₀ inp t).tmRunning = (decide (pulses s₀ inp t < n * 2 ^ w) && told inp t)
  := by
  induction t with
  | zero =>
      rw [told, Bool.and_false]
      apply h.pulse_zero.2.1
  | succ t ih =>
      rcases Nat.eq_zero_or_pos t with rfl | ht
      · have hnone : pulses s₀ inp 1 = 0 := by
          rw [pulses, pulses, h.pulse_zero.2.2, Bool.toNat_false]
        have hpos : 0 < n * 2 ^ w := Nat.mul_pos h.pos (Nat.two_pow_pos w)
        rw [runs_one h hheeded, hnone, decide_eq_true hpos]
        rfl
      · have hbefore := tracked hw h hspared ht hundisturbed.before
        have hruns := ih hundisturbed.before
        obtain ⟨hreset, -⟩ := hundisturbed t ht (Nat.lt_succ_self t)
        cases hpulse : pulse s₀ inp t with
        | false => apply runs_silent hbefore h.lt ht hundisturbed hheeded hpulse hruns
        | true =>
            apply runs_pulse hw hbefore ht hreset hpulse _ hruns
            apply hspared.of_held ht hundisturbed hpulse

/-- A timer that runs as the writes say is heeded. -/
theorem heeded_of_countsDown (hw : 2 ≤ w) (h : Loaded s₀ inp n) (hspared : Spared s₀ inp)
    (hcounts : CountsDown s₀ inp n) :
  Heeded s₀ inp
  := by
  intro t hundisturbed hwr hstopped hstarts
  rw [← Bool.not_eq_true]
  intro hlast
  have hstays : (state s₀ inp (t + 1)).tmRunning = false := by
    rw [state_succ]
    simp [step, hlast]
  have hruns := hcounts.runs (t + 1) hundisturbed
  have hnone : pulse s₀ inp t = false := by rw [pulse, hstopped, Bool.and_false]
  have hsame : pulses s₀ inp (t + 1) = pulses s₀ inp t := by
    rw [pulses, hnone, Bool.toNat_false, Nat.add_zero]
  have htold : told inp (t + 1) = true := by
    rcases Nat.eq_zero_or_pos t with rfl | ht
    · rfl
    · rw [told_succ ht, if_pos hwr]
      rcases hstarts with hload | ⟨hzero, hdata⟩
      · rw [(hundisturbed t ht (Nat.lt_succ_self t)).2] at hload
        contradiction
      · rw [hzero, hdata, Bool.or_true, Bool.and_true]
  rw [hstays, htold, hsame, Bool.and_true, eq_comm, decide_eq_false_iff_not] at hruns
  rcases Nat.eq_zero_or_pos t with rfl | ht
  · apply hruns
    apply Nat.mul_pos h.pos (Nat.two_pow_pos w)
  · -- After the last pulse the flag is not set.
    have hbefore := tracked hw h hspared ht hundisturbed.before
    have hall : pulses s₀ inp t = n * 2 ^ w := Nat.le_antisymm hbefore.le (Nat.not_lt.mp hruns)
    have hfour : 2 ^ 2 ≤ 2 ^ w := Nat.pow_le_pow_right (by decide) hw
    have hflag := hbefore.tmPrePps
    rw [hall, Nat.mul_mod_left, decide_eq_false (by omega), Bool.false_and] at hflag
    rw [tmPps, hflag, Bool.false_and, Bool.false_and] at hlast
    contradiction

theorem seconds_ne {m : ℕ} (hm : 0 < m) :
  seconds m ≠ seconds (m - 1)
  := by
  intro hsame
  have hdigit := congrArg (fun d => d.second.toNat) hsame
  simp only [seconds, BitVec.toNat_ofNat, digit] at hdigit
  omega

/-- A timer that counts down is spared: where the flag for the end of a second has been taken back a
pulse leaves the timer as it is. -/
theorem spared_of_countsDown (h : CountsDown s₀ inp n) :
  Spared s₀ inp
  := by
  intro t hundisturbed hwr hstopped hpulse hend
  have hpos : 0 < 2 ^ w := Nat.two_pow_pos w
  obtain ⟨hreset, hload⟩ := hundisturbed (t + 1) (Nat.succ_pos t) (Nat.lt_succ_self _)
  have hflag : (state s₀ inp (t + 1)).tmPrePps = false := by
    rw [state_succ]
    simp [step, hwr, hstopped]
  have hshows := h.shows (t + 1) (Nat.succ_pos t) hundisturbed.before
  have hshows' := h.shows (t + 2) (Nat.succ_pos _) hundisturbed
  have hle := h.le (t + 2) hundisturbed
  have hnext : pulses s₀ inp (t + 2) = pulses s₀ inp (t + 1) + 1 := by
    rw [pulses, hpulse, Bool.toNat_true]
  have hquotient : pulses s₀ inp (t + 1) / 2 ^ w < n := by
    apply (Nat.div_lt_iff_lt_mul hpos).mpr
    omega
  have hstays : (state s₀ inp (t + 2)).bcdTimer =
      { (state s₀ inp (t + 1)).bcdTimer with afterSecond := false, afterMinute := false } := by
    rw [state_succ]
    simp only [step, hreset, hload, tmPps, hflag, Bool.false_and, Bool.and_false,
      Bool.false_eq_true, if_false]
  rw [hshows', hshows, hnext, succ_div hpos, if_pos hend, ← Nat.sub_sub] at hstays
  apply seconds_ne (m := n - pulses s₀ inp (t + 1) / 2 ^ w) (by omega)
  rw [hstays]
  rfl

/-- A timer that is spared and heeded counts down. -/
theorem countsDown_of_spared (hw : 2 ≤ w) (h : Loaded s₀ inp n) (hspared : Spared s₀ inp)
    (hheeded : Heeded s₀ inp) :
  CountsDown s₀ inp n
  := by
  obtain ⟨hwr, hstopped, hnone⟩ := h.pulse_zero
  have htracked : ∀ t, 0 < t → Undisturbed s₀ inp t → Tracked s₀ inp n t :=
    fun t => tracked hw h hspared
  constructor
  case runs =>
      intro t hundisturbed
      apply runs_of_heeded hw h hspared hheeded hundisturbed
  case shows =>
      intro t ht hundisturbed
      obtain ⟨a, -, hsettled⟩ := (htracked t ht hundisturbed).settled
      apply hsettled.bcdTimer
  case le =>
      intro t hundisturbed
      cases t with
      | zero => apply Nat.zero_le
      | succ t => apply (htracked (t + 1) (Nat.succ_pos t) hundisturbed).le
  case stops =>
      intro t hundisturbed hall
      cases t with
      | zero => apply hstopped
      | succ t =>
          by_contra hrunning
          rw [Bool.not_eq_false] at hrunning
          have hbelow := (htracked (t + 1) (Nat.succ_pos t) hundisturbed).tmRunning hrunning
          omega
  case interrupt =>
      intro t hundisturbed
      cases t with
      | zero =>
          rw [hnone, Bool.false_and]
          change (s₀.step (inp 0)).tmInt = false
          simp [step, hstopped]
      | succ t =>
          have hnow := htracked (t + 1) (Nat.succ_pos t) hundisturbed.before
          obtain ⟨hreset, hload⟩ := hundisturbed (t + 1) (Nat.succ_pos t) (Nat.lt_succ_self _)
          cases hpulse : pulse s₀ inp (t + 1) with
          | false => apply (tracked_silent hnow h.lt hreset hload hpulse).2.1
          | true =>
              rw [Bool.true_and]
              apply (tracked_pulse hw hnow h.lt hreset hload hpulse _).2.1
              apply hspared.of_held (Nat.succ_pos t) hundisturbed hpulse
  case alarm =>
      intro t hundisturbed
      cases t with
      | zero =>
          rw [hnone, hwr, Bool.false_and, Bool.false_or, Bool.not_true, Bool.and_false]
          change (s₀.step (inp 0)).tmAlarm = false
          simp [step, h.iReset, hwr, hstopped]
      | succ t =>
          have hnow := htracked (t + 1) (Nat.succ_pos t) hundisturbed.before
          obtain ⟨hreset, hload⟩ := hundisturbed (t + 1) (Nat.succ_pos t) (Nat.lt_succ_self _)
          cases hpulse : pulse s₀ inp (t + 1) with
          | false =>
              rw [Bool.false_and, Bool.false_or]
              apply (tracked_silent hnow h.lt hreset hload hpulse).2.2
          | true =>
              have hrunning : (state s₀ inp (t + 1)).tmRunning = true := by
                rw [pulse, Bool.and_eq_true] at hpulse
                apply hpulse.2
              rw [hnow.tmAlarm_of_tmRunning hrunning, Bool.true_and, Bool.false_and,
                Bool.or_false]
              apply (tracked_pulse hw hnow h.lt hreset hload hpulse _).2.2
              apply hspared.of_held (Nat.succ_pos t) hundisturbed hpulse

/-- A duration that is written to the stopped timer is counted down if and only if no pulse that
would end a second comes in the clock after a write to the stopped timer, and no write starts the
timer at a pulse for which it would stop. -/
theorem countsDown_iff (hw : 2 ≤ w) (h : Loaded s₀ inp n) :
  CountsDown s₀ inp n ↔ Spared s₀ inp ∧ Heeded s₀ inp
  := by
  constructor
  · intro hcounts
    have hspared := spared_of_countsDown hcounts
    use hspared
    apply heeded_of_countsDown hw h hspared hcounts
  · rintro ⟨hspared, hheeded⟩
    apply countsDown_of_spared hw h hspared hheeded

end Runs

/-! ### Examples -/

/-- The registers of a timer of four pulses to a second, at power up. -/
def powerUp : Rtctimer 2 where
  bcdTimer := seconds 0
  nextTimer := seconds 0
  preTmrCarry := ⟨false, false, false, false, false⟩
  tmrCarry := ⟨false, false, false, false, false⟩
  lastTick := false
  tmSub := 0
  tmPrePps := false
  tmInt := false
  tmRunning := false
  tmAlarm := false

/-- One second is written, and then the timer is stopped after three pulses and started again at
clock `resume`. A pulse comes at each clock. -/
def oneSecond (resume t : ℕ) : Input where
  iReset := false
  iSubCk := t < 4 ∨ 10 ≤ t
  iWr := t = 0 ∨ t = 3 ∨ t = resume
  iData := if t = 0 then 1 else if t = resume then 0x1000000 else 0
  iValid := 7
  iZero := t ≠ 0

theorem loaded_oneSecond (resume : ℕ) :
  Loaded powerUp (oneSecond resume) 1
  := by
  constructor
  · rfl
  · rfl
  · change Digits.ofBits (BitVec.extractLsb' 0 24 (1 : BitVec 25)) = seconds 1
    decide
  · decide
  · decide

theorem iWr_oneSecond {resume t : ℕ} (hwr : (oneSecond resume t).iWr = true) :
  t = 0 ∨ t = 3 ∨ t = resume
  := by simpa [oneSecond] using hwr

/-- The timer is started again five clocks before the next pulse, and the interrupt comes with that
pulse. -/
theorem countsDown_iff_oneSecond :
  CountsDown powerUp (oneSecond 5) 1
    ∧ (state powerUp (oneSecond 5) 5).tmRunning = false
    ∧ (state powerUp (oneSecond 5) 11).oInterrupt = true
  := by
  refine ⟨?_, by decide, by decide⟩
  apply (countsDown_iff (by decide) (loaded_oneSecond 5)).mpr
  constructor
  · intro t _ hwr _ hpulse
    rcases iWr_oneSecond hwr with rfl | rfl | rfl
    · decide
    · revert hpulse
      decide
    · revert hpulse
      decide
  · intro t _ hwr _ _
    rcases iWr_oneSecond hwr with rfl | rfl | rfl
    · rfl
    · decide
    · decide

/-- The timer is started again in the clock before the next pulse, and does not stop. -/
theorem not_countsDown_oneSecond :
  ¬CountsDown powerUp (oneSecond 9) 1
  := by
  intro hcounts
  have hall : ∀ u < 11, 0 < u → (oneSecond 9 u).iReset = false ∧
      loads (state powerUp (oneSecond 9) u) (oneSecond 9 u) = false := by
    decide
  have hundisturbed : Undisturbed powerUp (oneSecond 9) 11 := fun u hpos hu => hall u hu hpos
  have hshows := hcounts.shows 11 (by decide) hundisturbed
  revert hshows
  decide

end Rtctimer

end ZBasic
