import ZBasic.Clocked.Counter
import ZBasic.Clocked.Run
import ZBasic.Clocked.Serial

/-!
# The serial receiver

`rxuartlite` waits for half of a start bit, and then samples the line once a bit. It so follows
the frames on the line half a bit behind.
-/

namespace ZBasic

open Clocked
open Serial

/-- The registers of `rxuartlite`, with counters of `tb` bits. -/
structure Rxuartlite (tb : ℕ) where
  qUart : Bool
  qqUart : Bool
  ckUart : Bool
  chgCounter : BitVec tb
  halfBaudTime : Bool
  state : BitVec 4
  dataReg : BitVec 8
  oWr : Bool
  oData : BitVec 8
  baudCounter : BitVec tb
  zeroBaudCounter : Bool

namespace Rxuartlite

variable {tb : ℕ}

/-- `RXUL_BIT_ZERO` -/
def bitZero : BitVec 4 := 0

/-- `RXUL_STOP` -/
def stop : BitVec 4 := 8

/-- `RXUL_WAIT` -/
def wait : BitVec 4 := 9

/-- `RXUL_IDLE` -/
def idle : BitVec 4 := 15

def halfBaud (clocksPerBaud : BitVec tb) : BitVec tb := clocksPerBaud.ushiftRight 1

/-- The middle of a start bit, in the idle state. -/
def starts (s : Rxuartlite tb) : Bool := s.state == idle && !s.ckUart && s.halfBaudTime

/-- One clock of `rxuartlite`. -/
def step (clocksPerBaud : BitVec tb) (s : Rxuartlite tb) (iUartRx : Bool) : Rxuartlite tb where
  qUart := iUartRx
  qqUart := s.qUart
  ckUart := s.qqUart
  chgCounter :=
    if s.qqUart != s.ckUart then 0
    else if s.chgCounter ≠ BitVec.allOnes tb then s.chgCounter + 1
    else s.chgCounter
  halfBaudTime := !s.ckUart && decide (halfBaud clocksPerBaud - 1 - 1 ≤ s.chgCounter)
  state :=
    if s.state = idle then (if !s.ckUart && s.halfBaudTime then bitZero else idle)
    else if decide (wait ≤ s.state) && s.ckUart then idle
    else if s.zeroBaudCounter then (if s.state ≤ stop then s.state + 1 else s.state)
    else s.state
  dataReg :=
    if s.zeroBaudCounter && s.state != stop then shiftIn s.qqUart s.dataReg else s.dataReg
  oWr := s.zeroBaudCounter && s.state == stop && s.ckUart
  oData := if s.zeroBaudCounter && s.state == stop && s.ckUart then s.dataReg else s.oData
  baudCounter :=
    if s.starts then clocksPerBaud - 1
    else if s.state = wait then 0
    else if s.zeroBaudCounter && decide (s.state < stop) then clocksPerBaud - 1
    else if !s.zeroBaudCounter then s.baudCounter - 1
    else s.baudCounter
  zeroBaudCounter :=
    if s.starts then false
    else if s.state = wait then true
    else if s.zeroBaudCounter && decide (s.state < stop) then false
    else if s.baudCounter = 1 then true
    else s.zeroBaudCounter

/-- The registers with an initial value at power up. -/
structure Initial (s : Rxuartlite tb) : Prop where
  qUart : s.qUart = true
  qqUart : s.qqUart = true
  ckUart : s.ckUart = true
  chgCounter : s.chgCounter = BitVec.allOnes tb
  halfBaudTime : s.halfBaudTime = false
  state : s.state = idle
  oWr : s.oWr = false
  oData : s.oData = 0
  baudCounter : s.baudCounter = 0
  zeroBaudCounter : s.zeroBaudCounter = true

/-- The byte that is put out at a clock. -/
def received (s : Rxuartlite tb) : Option (BitVec 8) := if s.oWr then some s.oData else none

/-! ### The frame that is being read -/

/-- The bits read of a byte, at the top of the register. -/
def Collected (dataReg b : BitVec 8) (k : ℕ) : Prop :=
  ∀ i < k, dataReg.getLsbD (8 - k + i) = b.getLsbD i

theorem Collected.shift {dataReg b : BitVec 8} {k : ℕ} (h : Collected dataReg b k) (hk : k < 8) :
  Collected (shiftIn (b.getLsbD k) dataReg) b (k + 1)
  := by
  intro i hi
  by_cases hlast : i = k
  · rw [hlast, show 8 - (k + 1) + k = 7 by omega, getLsbD_shiftIn_top]
  · rw [getLsbD_shiftIn _ _ (by omega), show 8 - (k + 1) + i + 1 = 8 - k + i by omega]
    apply h
    omega

theorem Collected.all {dataReg b : BitVec 8} (h : Collected dataReg b 8) :
  dataReg = b
  := by
  apply BitVec.eq_of_getLsbD_eq
  intro i hi
  simpa using h i hi

/-- The registers between frames. -/
structure Waiting (s : Rxuartlite tb) : Prop where
  state : s.state = idle
  zeroBaudCounter : s.zeroBaudCounter = true
  oWr : s.oWr = false

/-- The registers within the start bit and the bits of data. -/
structure Reading (clocksPerBaud : BitVec tb) (s : Rxuartlite tb) (f : Frame) : Prop where
  state : s.state.toNat = f.bit
  baudCounter : s.baudCounter.toNat + f.clock + 1 = clocksPerBaud.toNat
  zeroBaudCounter : s.zeroBaudCounter = (f.clock + 1 == clocksPerBaud.toNat)
  dataReg : Collected s.dataReg f.byte f.bit
  oWr : s.oWr = false

/-- The registers when a byte is put out. -/
structure Done (s : Rxuartlite tb) (b : BitVec 8) : Prop where
  state : s.state = wait
  zeroBaudCounter : s.zeroBaudCounter = true
  oWr : s.oWr = true
  oData : s.oData = b

/-- What the registers say about the frame half a bit behind. -/
def Reads (clocksPerBaud : BitVec tb) (s : Rxuartlite tb) : Option Frame → Prop
  | none => s.Waiting
  | some f =>
      if f.bit ≤ 8 then s.Reading clocksPerBaud f
      else if f.clock = 0 then s.Done f.byte
      else s.Waiting

/-- A byte is put out when its stop bit is half a bit behind. -/
theorem Reads.received_iff {clocksPerBaud : BitVec tb} {s : Rxuartlite tb} {f : Option Frame}
    (h : s.Reads clocksPerBaud f) {b : BitVec 8} (hbit : ∀ g, f = some g → g.bit ≤ 9) :
  s.received = some b ↔ f = some ⟨b, 9, 0⟩
  := by
  rw [received]
  cases f with
  | none => simp [Waiting.oWr h]
  | some f =>
      obtain ⟨b', k, p⟩ := f
      have hk : k ≤ 9 := hbit _ rfl
      rw [Reads] at h
      split_ifs at h with hreads hdone
      · have hne : k ≠ 9 := by
          simp only at hreads
          omega
        simp [h.oWr, hne]
      · have hnine : k = 9 := by
          simp only at hreads
          omega
        simp only at hdone
        simp [h.oWr, h.oData, hnine, hdone]
      · simp [h.oWr, hdone]

/-- What the registers say about the start bit on the line. -/
structure Watches (clocksPerBaud : BitVec tb) (s : Rxuartlite tb) (f : Option Frame) : Prop where
  chgCounter : ∀ b p, f = some ⟨b, 0, p⟩ → s.chgCounter.toNat = p
  halfBaudTime : ∀ b p, f = some ⟨b, 0, p⟩ →
    s.halfBaudTime = decide (clocksPerBaud.toNat / 2 ≤ p + 1)

section Step

variable {clocksPerBaud : BitVec tb} {s : Rxuartlite tb} {iUartRx : Bool}

theorem toNat_halfBaud (hc : 8 ≤ clocksPerBaud.toNat) :
  (halfBaud clocksPerBaud - 1 - 1).toNat = clocksPerBaud.toNat / 2 - 2
  := by
  have hhalf : (halfBaud clocksPerBaud).toNat = clocksPerBaud.toNat / 2 := by
    rw [halfBaud, BitVec.ushiftRight_eq, BitVec.toNat_ushiftRight, Nat.shiftRight_eq_div_pow, pow_one]
  have hpred := toNat_pred (v := halfBaud clocksPerBaud) (by omega)
  rw [toNat_pred (by omega)]
  omega

theorem state_ne_of_le {k : BitVec 4} (hk : 8 < k.toNat) (h : s.state.toNat ≤ 8) :
  s.state ≠ k
  := by
  rintro rfl
  omega

/-- The middle of the start bit is the start of a frame half a bit behind. -/
theorem Waiting.start (h : s.Waiting) (hc : 8 ≤ clocksPerBaud.toNat) (hck : s.ckUart = false)
    (hhalf : s.halfBaudTime = true) (b : BitVec 8) :
  (s.step clocksPerBaud iUartRx).Reading clocksPerBaud ⟨b, 0, 0⟩
  := by
  have hstarts : s.starts = true := by simp [starts, h.state, hck, hhalf]
  have hpred := toNat_pred (v := clocksPerBaud) (by omega)
  constructor
  · simp [step, h.state, hck, hhalf, bitZero]
  · simp only [step, hstarts, if_true, hpred]
    omega
  · have hlong : (0 + 1 == clocksPerBaud.toNat) = false := by
      rw [beq_eq_false_iff_ne]
      omega
    simp only [step, hstarts, if_true, hlong]
  · intro i hi
    cases hi
  · simp [step, hck]

/-- Otherwise the receiver waits. -/
theorem Waiting.stay (h : s.Waiting) (hidle : s.ckUart = true ∨ s.halfBaudTime = false) :
  (s.step clocksPerBaud iUartRx).Waiting
  := by
  have htrigger : (!s.ckUart && s.halfBaudTime) = false := by
    rcases hidle with hidle | hidle <;> simp [hidle]
  have hstarts : s.starts = false := by rw [starts, Bool.and_assoc, htrigger, Bool.and_false]
  constructor
  · simp [step, h.state, htrigger]
  · simp [step, hstarts, h.state, h.zeroBaudCounter, idle, stop]
  · simp [step, h.state, idle, stop]

/-- When a byte has been put out the receiver waits. -/
theorem Done.step {b : BitVec 8} (h : s.Done b) (hck : s.ckUart = true) :
  (s.step clocksPerBaud iUartRx).Waiting
  := by
  constructor
  · simp [Rxuartlite.step, h.state, hck, wait, idle]
  · simp [Rxuartlite.step, starts, h.state, wait, idle]
  · simp [Rxuartlite.step, h.state, wait, stop]

/-- Within a bit the counter counts down. -/
theorem Reading.step_bit {f : Frame} (h : s.Reading clocksPerBaud f) (hbit : f.bit ≤ 8)
    (hlast : f.clock + 1 < clocksPerBaud.toNat) :
  (s.step clocksPerBaud iUartRx).Reading clocksPerBaud { f with clock := f.clock + 1 }
  := by
  have hzero : s.zeroBaudCounter = false := by
    rw [h.zeroBaudCounter, beq_eq_false_iff_ne]
    omega
  have hle : s.state.toNat ≤ 8 := by rw [h.state]; exact hbit
  have hidle : s.state ≠ idle := state_ne_of_le (by decide) hle
  have hwait : s.state ≠ wait := state_ne_of_le (by decide) hle
  have hwait' : ¬ wait ≤ s.state := by
    rw [BitVec.le_def]
    change ¬ 9 ≤ s.state.toNat
    omega
  have hstarts : s.starts = false := by simp [starts, hidle]
  have hcount := h.baudCounter
  have hpred := toNat_pred (v := s.baudCounter) (by omega)
  have hone := eq_one_iff (v := s.baudCounter) (by have := clocksPerBaud.isLt; omega)
  constructor
  · simp [step, hzero, hidle, hwait', h.state]
  · simp only [step, hzero, hstarts, if_neg hwait]
    simp only [Bool.false_and, Bool.false_eq_true, if_false, Bool.not_false, if_true, hpred]
    omega
  · simp only [step, hzero, hstarts, if_neg hwait]
    simp only [Bool.false_and, Bool.false_eq_true, if_false, hone]
    split_ifs with hnext
    · symm
      rw [beq_iff_eq]
      omega
    · symm
      rw [beq_eq_false_iff_ne]
      omega
  · simpa [step, hzero] using h.dataReg
  · simp [step, hzero]

/-- After a bit the line is sampled. -/
theorem Reading.step_next {f : Frame} (h : s.Reading clocksPerBaud f)
    (hc : 8 ≤ clocksPerBaud.toNat) (hlast : f.clock + 1 = clocksPerBaud.toNat)
    (hbit : f.bit < 8) (hqq : s.qqUart = f.byte.getLsbD f.bit) :
  (s.step clocksPerBaud iUartRx).Reading clocksPerBaud { f with bit := f.bit + 1, clock := 0 }
  := by
  have hzero : s.zeroBaudCounter = true := by
    rw [h.zeroBaudCounter, beq_iff_eq, hlast]
  have hle : s.state.toNat ≤ 8 := by
    rw [h.state]
    omega
  have hidle : s.state ≠ idle := state_ne_of_le (by decide) hle
  have hwait : s.state ≠ wait := state_ne_of_le (by decide) hle
  have hwait' : ¬ wait ≤ s.state := by
    rw [BitVec.le_def]
    change ¬ 9 ≤ s.state.toNat
    omega
  have hstop : s.state < stop := by
    rw [BitVec.lt_def, h.state]
    apply hbit
  have hstop' : (s.state == stop) = false := by
    rw [beq_eq_false_iff_ne]
    rintro hstop'
    rw [hstop'] at hstop
    cases BitVec.lt_irrefl _ hstop
  have hstarts : s.starts = false := by simp [starts, hidle]
  have hpred := toNat_pred (v := clocksPerBaud) (by omega)
  constructor
  · have hsucc : (s.state + 1).toNat = s.state.toNat + 1 := by
      apply toNat_succ
      omega
    simp only [step, hzero, if_neg hidle, if_pos (BitVec.le_of_lt hstop)]
    simp only [hwait', decide_false, Bool.false_and, Bool.false_eq_true, if_false, if_true, hsucc,
      h.state]
  · simp only [step, hzero, hstarts, if_neg hwait, hstop]
    simp only [Bool.false_eq_true, if_false, decide_true, Bool.and_true, if_true, hpred]
    omega
  · have hlong : (0 + 1 == clocksPerBaud.toNat) = false := by
      rw [beq_eq_false_iff_ne]
      omega
    simp only [step, hzero, hstarts, if_neg hwait, hstop, hlong]
    rfl
  · simpa [step, hzero, bne, hstop', hqq] using h.dataReg.shift hbit
  · simp [step, hstop']

/-- After the stop bit the byte is put out. -/
theorem Reading.step_last {f : Frame} (h : s.Reading clocksPerBaud f)
    (hlast : f.clock + 1 = clocksPerBaud.toNat) (hbit : f.bit = 8) (hck : s.ckUart = true) :
  (s.step clocksPerBaud iUartRx).Done f.byte
  := by
  have hzero : s.zeroBaudCounter = true := by
    rw [h.zeroBaudCounter, beq_iff_eq, hlast]
  have hstate : s.state = 8 := by
    rw [← BitVec.toNat_inj, h.state, hbit]
    rfl
  have hdata := h.dataReg
  rw [hbit] at hdata
  constructor
  · simp [step, hzero, hstate, idle, wait, stop]
  · simp [step, starts, hzero, hstate, idle, wait, stop]
  · simp [step, hzero, hstate, hck, stop]
  · simp [step, hzero, hstate, hck, stop, hdata.all]

/-- The counters follow the start bit. -/
theorem Watches.step {sent : ℕ → Option (BitVec 8)} {line : ℕ → Bool} {n : ℕ}
    (h : s.Watches clocksPerBaud (frames clocksPerBaud.toNat sent n))
    (hc : 8 ≤ clocksPerBaud.toNat) (hcarries : Carries clocksPerBaud.toNat sent line)
    (hck : s.ckUart = line n) (hqq : s.qqUart = line (n + 1)) :
  (s.step clocksPerBaud iUartRx).Watches clocksPerBaud (frames clocksPerBaud.toNat sent (n + 1))
  := by
  have hhalf := toNat_halfBaud hc
  rw [hcarries.level] at hck hqq
  have key : ∀ b p, frames clocksPerBaud.toNat sent (n + 1) = some ⟨b, 0, p⟩ →
      (s.step clocksPerBaud iUartRx).chgCounter.toNat = p
        ∧ (s.step clocksPerBaud iUartRx).halfBaudTime
          = decide (clocksPerBaud.toNat / 2 ≤ p + 1) := by
    intro b p hframe
    have hlow : s.qqUart = false := by rw [hqq, hframe]; rfl
    cases p with
    | zero =>
        have hhigh : s.ckUart = true := by
          rw [hck]
          apply hcarries.level_before (sent_of_frames_start (by omega) hframe)
        constructor
        · simp [Rxuartlite.step, hlow, hhigh]
        · symm
          simp only [Rxuartlite.step, hhigh, Bool.not_true, Bool.false_and, decide_eq_false_iff_not]
          omega
    | succ p =>
        have hclock := (frame_bounds (by omega) hframe).2
        change p + 1 < clocksPerBaud.toNat at hclock
        have hbefore : frames clocksPerBaud.toNat sent n = some ⟨b, 0, p⟩ := by
          apply hcarries.frames_of_frames hframe (by omega) (by omega)
          omega
        have hlow' : s.ckUart = false := by rw [hck, hbefore]; rfl
        have hcount := h.chgCounter b p hbefore
        have hfull := clocksPerBaud.isLt
        constructor
        · have hnotfull : s.chgCounter ≠ BitVec.allOnes tb := by
            intro hones
            rw [hones, BitVec.toNat_allOnes] at hcount
            omega
          simp only [Rxuartlite.step, hlow, hlow', bne_self_eq_false, Bool.false_eq_true, if_false,
            if_pos hnotfull]
          rw [toNat_succ (by omega), hcount]
        · simp only [Rxuartlite.step, hlow', BitVec.le_def, hhalf, hcount, Bool.not_false,
            Bool.true_and, decide_eq_decide]
          omega
  constructor
  · intro b p hframe
    apply (key b p hframe).1
  · intro b p hframe
    apply (key b p hframe).2

end Step

section Runs

variable {clocksPerBaud : BitVec tb} {s₀ : Rxuartlite tb}

/-- The line after the two flip flops, and after the one that finds changes. -/
theorem run_sync (clocksPerBaud : BitVec tb) (hs₀ : s₀.Initial) (rx : ℕ → Bool) (n : ℕ) :
  (run (step clocksPerBaud) s₀ rx n).qUart = late 1 rx n
    ∧ (run (step clocksPerBaud) s₀ rx n).qqUart = late 3 rx (n + 1)
    ∧ (run (step clocksPerBaud) s₀ rx n).ckUart = late 3 rx n
  := by
  induction n with
  | zero => exact ⟨hs₀.qUart, hs₀.qqUart, hs₀.ckUart⟩
  | succ n ih =>
      obtain ⟨hq, hqq, -⟩ := ih
      refine ⟨?_, ?_, ?_⟩
      · rw [run_succ, late, if_neg (by omega)]
        rfl
      · rw [run_succ]
        change (run (step clocksPerBaud) s₀ rx n).qUart = _
        rw [hq]
        simp only [late]
        split_ifs with h₁ h₂ h₂
        · rfl
        · omega
        · omega
        · rfl
      · rw [run_succ]
        apply hqq

variable {sent : ℕ → Option (BitVec 8)} {line : ℕ → Bool}

/-- A frame that is over half a bit behind the line, or none. -/
def Over : Option Frame → Prop
  | none => True
  | some f => f.bit = 9 ∧ 0 < f.clock

theorem Reads.of_over {s : Rxuartlite tb} {f : Option Frame} (hover : Over f) :
  s.Reads clocksPerBaud f ↔ s.Waiting
  := by
  cases f with
  | none => rfl
  | some f =>
      obtain ⟨hbit, hclock⟩ := hover
      rw [Reads, if_neg (by omega), if_neg (by omega)]

/-- While the receiver waits, the middle of a start bit is found half a bit after it began. -/
theorem Over.trigger {c n : ℕ} (hc : 8 ≤ c) (hcarries : Carries c sent line)
    (hover : Over (frames c (lateSent (c / 2) sent) n)) {f : Frame} (hframe : frames c sent n = some f)
    (hlow : bitOf f.byte f.bit = false) (hhalf : f.bit = 0 → c / 2 ≤ f.clock + 1) :
  lateSent (c / 2) sent n = some f.byte
  := by
  obtain ⟨b, k, p⟩ := f
  have hk : k ≤ 8 := by
    by_contra hk
    rw [bitOf_of_ge b (by simp only; omega)] at hlow
    cases hlow
  obtain ⟨m, hm, hn⟩ := sent_of_frames (by omega) hframe
  have hp := (frame_bounds (by omega) hframe).2
  change n = m + 1 + c * k + p at hn
  change p < c at hp
  rcases Nat.lt_or_ge p (c / 2) with hfirst | hsecond
  · cases k with
    | zero =>
        have hmiddle : c / 2 ≤ p + 1 := hhalf rfl
        rw [lateSent, if_neg (by omega), show n - c / 2 = m by omega]
        apply hm
    | succ k =>
        -- the receiver would be half a bit behind, in the bit before
        rw [Nat.mul_succ] at hn
        have hbehind : frames c sent (n - c / 2) = some ⟨b, k, p + c - c / 2⟩ := by
          apply hcarries.frames_of_frames hframe (by omega) (by omega)
          rw [Nat.mul_succ]
          omega
        rw [frames_lateSent, if_neg (by omega), hbehind] at hover
        have hbit : k = 9 := hover.1
        omega
  · have hbehind : frames c sent (n - c / 2) = some ⟨b, k, p - c / 2⟩ := by
      apply hcarries.frames_of_frames hframe (by omega) (by omega)
      omega
    rw [frames_lateSent, if_neg (by omega), hbehind] at hover
    have hbit : k = 9 := hover.1
    omega

/-- What is half a bit behind is on the line half a bit ahead. -/
theorem near_of_far {c n k p k' p' : ℕ} (hcarries : Carries c sent line) {b : BitVec 8}
    (hfar : frames c (lateSent (c / 2) sent) n = some ⟨b, k, p⟩) (hk : k' ≤ 9) (hp : p' < c)
    {d : ℕ} (hd : c * k + p + c / 2 + d = c * k' + p') :
  frames c sent (n + d) = some ⟨b, k', p'⟩
  := by
  rw [frames_lateSent] at hfar
  split_ifs at hfar with hn
  apply hcarries.frames_of_frames hfar hk hp
  omega

section Follow

variable {s : Rxuartlite tb} {n : ℕ} {iUartRx : Bool}

/-- While no frame is half a bit behind, the receiver waits for one. -/
theorem Waiting.step (h : s.Waiting) (hc : 8 ≤ clocksPerBaud.toNat)
    (hover : Over (frames clocksPerBaud.toNat (lateSent (clocksPerBaud.toNat / 2) sent) n))
    (hwatches : s.Watches clocksPerBaud (frames clocksPerBaud.toNat sent n))
    (hcarries : Carries clocksPerBaud.toNat sent line) (hck : s.ckUart = line n) :
  (s.step clocksPerBaud iUartRx).Reads clocksPerBaud
    (frames clocksPerBaud.toNat (lateSent (clocksPerBaud.toNat / 2) sent) (n + 1))
  := by
  rw [hcarries.level] at hck
  cases hsent : lateSent (clocksPerBaud.toNat / 2) sent n with
  | some b =>
      have hnear : frames clocksPerBaud.toNat sent n
          = some ⟨b, 0, clocksPerBaud.toNat / 2 - 1⟩ := by
        rw [lateSent] at hsent
        split_ifs at hsent with hn
        rw [show n = n - clocksPerBaud.toNat / 2 + 1 + clocksPerBaud.toNat * 0
          + (clocksPerBaud.toNat / 2 - 1) by omega]
        apply hcarries.frames_of_sent hsent (by omega) (by omega)
      have hlow : s.ckUart = false := by rw [hck, hnear]; rfl
      have hhalf : s.halfBaudTime = true := by
        rw [hwatches.halfBaudTime b _ hnear, decide_eq_true_iff]
        omega
      rw [frames_succ_of_some hsent, Reads, if_pos (Nat.zero_le 8)]
      apply h.start hc hlow hhalf
  | none =>
      have hover' : Over (frames clocksPerBaud.toNat (lateSent (clocksPerBaud.toNat / 2) sent)
          (n + 1)) := by
        rw [frames_succ_of_none hsent]
        cases hfar : frames clocksPerBaud.toNat (lateSent (clocksPerBaud.toNat / 2) sent) n with
        | none => trivial
        | some f =>
            rw [hfar] at hover
            rw [Option.bind_some, Frame.next, if_neg (show ¬ f.bit < 9 by have := hover.1; omega)]
            split_ifs
            · exact ⟨hover.1, Nat.succ_pos _⟩
            · trivial
      rw [Reads.of_over hover']
      apply h.stay
      by_contra hstart
      rw [not_or, Bool.not_eq_true, Bool.not_eq_false] at hstart
      obtain ⟨hlow, hhalf⟩ := hstart
      rw [hck] at hlow
      cases hnear : frames clocksPerBaud.toNat sent n with
      | none =>
          rw [hnear] at hlow
          cases hlow
      | some f =>
          rw [hnear] at hlow
          have htrigger := hover.trigger hc hcarries hnear hlow (by
            intro hbit
            obtain ⟨b, k, p⟩ := f
            cases hbit
            simpa [hhalf] using hwatches.halfBaudTime b p hnear)
          rw [hsent] at htrigger
          cases htrigger

/-- A frame half a bit behind is read, and its byte put out. -/
theorem Reads.step_frame {f : Frame} (h : s.Reads clocksPerBaud (some f))
    (hc : 8 ≤ clocksPerBaud.toNat)
    (hfar : frames clocksPerBaud.toNat (lateSent (clocksPerBaud.toNat / 2) sent) n = some f)
    (hover : ¬ Over (some f)) (hcarries : Carries clocksPerBaud.toNat sent line)
    (hck : s.ckUart = line n) (hqq : s.qqUart = line (n + 1)) :
  (s.step clocksPerBaud iUartRx).Reads clocksPerBaud
    (frames clocksPerBaud.toNat (lateSent (clocksPerBaud.toNat / 2) sent) (n + 1))
  := by
  rw [hcarries.level] at hck hqq
  have hlate := hcarries.late (clocksPerBaud.toNat / 2)
  obtain ⟨hbit, hclock⟩ := frame_bounds (by omega) hfar
  obtain ⟨b, k, p⟩ := f
  simp only at hbit hclock
  rw [Reads] at h
  split_ifs at h with hreads hdone
  · rcases Nat.lt_or_ge (p + 1) clocksPerBaud.toNat with hlast | hlast
    · rw [hlate.frames_succ_clock hfar hlast, Reads, if_pos hreads]
      apply h.step_bit hreads hlast
    · simp only at hreads
      rw [hlate.frames_succ_bit hfar (by omega) (by omega), Reads]
      by_cases hstop : k = 8
      · subst hstop
        rw [if_neg (by simp only; omega), if_pos rfl]
        apply h.step_last (by simp only; omega) rfl
        have hnear : frames clocksPerBaud.toNat sent n
            = some ⟨b, 9, clocksPerBaud.toNat / 2 - 1⟩ := by
          apply near_of_far (d := 0) hcarries hfar (by omega) (by omega)
          omega
        rw [hck, hnear]
        rfl
      · rw [if_pos (by simp only; omega)]
        apply h.step_next hc (by simp only; omega) (by simp only; omega)
        have hnear : frames clocksPerBaud.toNat sent (n + 1)
            = some ⟨b, k + 1, clocksPerBaud.toNat / 2⟩ := by
          apply near_of_far hcarries hfar (by omega) (by omega)
          rw [Nat.mul_succ]
          omega
        rw [hqq, hnear]
        change bitOf b (k + 1) = _
        rw [bitOf, if_pos (by omega)]
  · simp only at hreads hdone
    obtain rfl : k = 9 := by omega
    subst hdone
    have hover' : Over (some ⟨b, 9, 0 + 1⟩) := ⟨rfl, Nat.succ_pos 0⟩
    rw [hlate.frames_succ_clock hfar (by omega), Reads.of_over hover']
    apply h.step
    have hnear : frames clocksPerBaud.toNat sent n = some ⟨b, 9, clocksPerBaud.toNat / 2⟩ := by
      apply near_of_far (d := 0) hcarries hfar (by omega) (by omega)
      omega
    rw [hck, hnear]
    rfl
  · simp only at hreads hdone
    exact absurd ⟨by simp only; omega, by simp only; omega⟩ hover

end Follow

/-- The receiver follows the frames half a bit behind. -/
theorem run_reads (hs₀ : s₀.Initial) (hc : 8 ≤ clocksPerBaud.toNat) {rx : ℕ → Bool}
    (hcarries : Carries clocksPerBaud.toNat sent rx) (n : ℕ) :
  (run (step clocksPerBaud) s₀ rx n).Watches clocksPerBaud
      (frames clocksPerBaud.toNat (lateSent 3 sent) n)
    ∧ (run (step clocksPerBaud) s₀ rx n).Reads clocksPerBaud
      (frames clocksPerBaud.toNat (lateSent (clocksPerBaud.toNat / 2) (lateSent 3 sent)) n)
  := by
  have hsync := hcarries.late 3
  induction n with
  | zero =>
      constructor
      · constructor <;> intro b p hframe <;> cases hframe
      · exact ⟨hs₀.state, hs₀.zeroBaudCounter, hs₀.oWr⟩
  | succ n ih =>
      obtain ⟨hwatches, hreads⟩ := ih
      obtain ⟨-, hqq, hck⟩ := run_sync clocksPerBaud hs₀ rx n
      constructor
      · apply hwatches.step hc hsync hck hqq
      · cases hfar : frames clocksPerBaud.toNat
            (lateSent (clocksPerBaud.toNat / 2) (lateSent 3 sent)) n with
        | none =>
            rw [hfar] at hreads
            apply Waiting.step hreads hc (by rw [hfar]; trivial) hwatches hsync hck
        | some f =>
            rw [hfar] at hreads
            by_cases hover : Over (some f)
            · rw [Reads.of_over hover] at hreads
              apply Waiting.step hreads hc (by rw [hfar]; apply hover) hwatches hsync hck
            · apply Reads.step_frame hreads hc hfar hover hsync hck hqq

/-- Each byte is put out once, half a bit into its stop bit. -/
theorem received_eq (hs₀ : s₀.Initial) (hc : 8 ≤ clocksPerBaud.toNat) {rx : ℕ → Bool}
    (hcarries : Carries clocksPerBaud.toNat sent rx) (n : ℕ) :
  (run (step clocksPerBaud) s₀ rx n).received
    = lateSent (3 + clocksPerBaud.toNat / 2 + (1 + clocksPerBaud.toNat * 9)) sent n
  := by
  have hlate := (hcarries.late 3).late (clocksPerBaud.toNat / 2)
  obtain ⟨-, hreads⟩ := run_reads hs₀ hc hcarries n
  rw [lateSent_lateSent] at hlate hreads
  apply Option.ext
  intro b
  have hbit : ∀ g, frames clocksPerBaud.toNat (lateSent (3 + clocksPerBaud.toNat / 2) sent) n
      = some g → g.bit ≤ 9 := fun g hg => (frame_bounds (by omega) hg).1
  rw [hreads.received_iff hbit, hlate.stop_iff (by omega), lateSent_lateSent]

end Runs

end Rxuartlite

end ZBasic
