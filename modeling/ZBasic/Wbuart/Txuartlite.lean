import ZBasic.Clocked.Counter
import ZBasic.Clocked.Run
import ZBasic.Clocked.Serial

/-!
# The serial transmitter

`txuartlite` sends a byte as a start bit, eight bits of data and a stop bit. The line carries
each byte that is accepted in a frame of its own.
-/

namespace ZBasic

open Clocked
open Serial

/-- The registers of `txuartlite`, with counters of `tb` bits. -/
structure Txuartlite (tb : ℕ) where
  baudCounter : BitVec tb
  state : BitVec 4
  lclData : BitVec 8
  rBusy : Bool
  zeroBaudCounter : Bool
  oUartTx : Bool

namespace Txuartlite

variable {tb : ℕ}

/-- `TXUL_BIT_ZERO`, the state of the start bit -/
def bitZero : BitVec 4 := 0

/-- `TXUL_STOP` -/
def stop : BitVec 4 := 8

/-- `TXUL_IDLE` -/
def idle : BitVec 4 := 15

/-- The inputs of `txuartlite` at a clock. -/
structure Input where
  iWr : Bool
  iData : BitVec 8

/-- The registers at power up. -/
def initial : Txuartlite tb where
  baudCounter := 0
  state := idle
  lclData := 0xff
  rBusy := true
  zeroBaudCounter := true
  oUartTx := true

def oBusy (s : Txuartlite tb) : Bool := s.rBusy

/-- One clock of `txuartlite`. -/
def step (clocksPerBaud : BitVec tb) (s : Txuartlite tb) (i : Input) : Txuartlite tb where
  rBusy :=
    if !s.zeroBaudCounter then true
    else if stop < s.state then i.iWr && !s.rBusy
    else true
  state :=
    if !s.zeroBaudCounter then s.state
    else if stop < s.state then (if i.iWr && !s.rBusy then bitZero else idle)
    else if s.state ≤ stop then s.state + 1
    else idle
  lclData :=
    if i.iWr && !s.rBusy then i.iData
    else if s.zeroBaudCounter then shiftIn true s.lclData
    else s.lclData
  oUartTx :=
    if i.iWr && !s.rBusy then false
    else if s.zeroBaudCounter then s.lclData.getLsbD 0
    else s.oUartTx
  baudCounter :=
    if s.state = idle then (if i.iWr && !s.rBusy then clocksPerBaud - 1 else 0)
    else if s.zeroBaudCounter && s.state == 9 then 0
    else if !s.zeroBaudCounter then s.baudCounter - 1
    else clocksPerBaud - 1
  zeroBaudCounter :=
    if s.state = idle then !(i.iWr && !s.rBusy)
    else if s.zeroBaudCounter && s.state == 9 then true
    else s.baudCounter == 1

/-- The byte that is accepted at a clock. -/
def accepts (s : Txuartlite tb) (i : Input) : Option (BitVec 8) :=
  if i.iWr && !s.oBusy then some i.iData else none

/-- A byte is accepted only while the transmitter is not busy: a busy one takes no notice. -/
theorem step_of_oBusy {clocksPerBaud : BitVec tb} {s : Txuartlite tb} (hbusy : s.oBusy = true)
    (i : Input) :
  s.step clocksPerBaud i = s.step clocksPerBaud ⟨false, 0⟩
  := by
  have hbusy' : s.rBusy = true := hbusy
  simp [step, hbusy']

/-! ### The frame that is being sent -/

/-- The data still to be sent once the bit `k` is on the line. -/
def Loaded (lclData : BitVec 8) (b : BitVec 8) (k : ℕ) : Prop :=
  ∀ i < 8, lclData.getLsbD i = bitOf b (k + 1 + i)

theorem Loaded.shift {lclData b : BitVec 8} {k : ℕ} (h : Loaded lclData b k) :
  Loaded (shiftIn true lclData) b (k + 1)
  := by
  intro i hi
  by_cases hlast : i = 7
  · rw [hlast, getLsbD_shiftIn_top, bitOf_of_ge b (by omega)]
  · rw [getLsbD_shiftIn _ _ (by omega), h (i + 1) (by omega)]
    congr 1
    omega

theorem loaded_start (b : BitVec 8) :
  Loaded b b 0
  := by
  intro i hi
  rw [Nat.add_comm, bitOf, if_pos hi]

/-- The registers while a frame is sent. -/
structure Sending (clocksPerBaud : BitVec tb) (s : Txuartlite tb) (f : Frame) : Prop where
  state : s.state.toNat = f.bit
  baudCounter : s.baudCounter.toNat + f.clock + 1 = clocksPerBaud.toNat
  zeroBaudCounter : s.zeroBaudCounter = (f.clock + 1 == clocksPerBaud.toNat)
  lclData : Loaded s.lclData f.byte f.bit
  oUartTx : s.oUartTx = bitOf f.byte f.bit
  rBusy : s.rBusy = true
  bit : f.bit ≤ 9

/-- The registers between frames. -/
structure Idle (s : Txuartlite tb) : Prop where
  state : s.state = idle
  zeroBaudCounter : s.zeroBaudCounter = true
  lclData : s.lclData = 0xff
  oUartTx : s.oUartTx = true

/-- What the registers say about the line. -/
def On (clocksPerBaud : BitVec tb) (s : Txuartlite tb) : Option Frame → Prop
  | none => s.Idle
  | some f => s.Sending clocksPerBaud f

section Step

variable {clocksPerBaud : BitVec tb} {s : Txuartlite tb} {i : Input}

/-- An accepted byte starts a frame. -/
theorem Idle.start (h : s.Idle) (hc : 2 ≤ clocksPerBaud.toNat) {b : BitVec 8}
    (haccepts : s.accepts i = some b) :
  (s.step clocksPerBaud i).Sending clocksPerBaud ⟨b, 0, 0⟩
  := by
  rw [accepts] at haccepts
  split_ifs at haccepts with hwr
  cases haccepts
  replace hwr : (i.iWr && !s.rBusy) = true := hwr
  have hstart : stop < s.state := by
    rw [h.state]
    decide
  have hpred := toNat_pred (v := clocksPerBaud) (by omega)
  constructor
  · simp only [step, h.zeroBaudCounter, hwr, if_pos hstart]
    rfl
  · simp only [step, if_pos h.state, hwr, if_true, hpred]
    omega
  · have hlong : (0 + 1 == clocksPerBaud.toNat) = false := by
      rw [beq_eq_false_iff_ne]
      omega
    simp only [step, if_pos h.state, hwr, hlong]
    rfl
  · simp only [step, hwr, if_true]
    apply loaded_start
  · simp only [step, hwr, if_true]
    rfl
  · simp only [step, h.zeroBaudCounter, hwr, if_pos hstart]
    rfl
  · apply Nat.zero_le

/-- Without one the transmitter stays idle. -/
theorem Idle.stay (h : s.Idle) (haccepts : s.accepts i = none) :
  (s.step clocksPerBaud i).Idle
  := by
  have hwr : (i.iWr && !s.rBusy) = false := by
    rw [accepts] at haccepts
    split_ifs at haccepts with hwr
    simpa [oBusy] using hwr
  have hstart : stop < s.state := by
    rw [h.state]
    decide
  constructor
  · simp [step, h.zeroBaudCounter, hwr, hstart]
  · simp [step, h.state, hwr]
  · have hones : shiftIn true 255#8 = 255#8 := by decide
    simp [step, h.zeroBaudCounter, hwr, h.lclData, hones]
  · simp [step, h.zeroBaudCounter, hwr, h.lclData]

/-- Once it is idle the transmitter is ready. -/
theorem Idle.oBusy_step (h : s.Idle) (haccepts : s.accepts i = none) :
  (s.step clocksPerBaud i).oBusy = false
  := by
  have hwr : (i.iWr && !s.rBusy) = false := by
    rw [accepts] at haccepts
    split_ifs at haccepts with hwr
    simpa [oBusy] using hwr
  have hstart : stop < s.state := by
    rw [h.state]
    decide
  simp [oBusy, step, h.zeroBaudCounter, hwr, hstart]

/-- Within a bit the counter counts down. -/
theorem Sending.step_bit {f : Frame} (h : s.Sending clocksPerBaud f)
    (hlast : f.clock + 1 < clocksPerBaud.toNat) :
  (s.step clocksPerBaud i).Sending clocksPerBaud { f with clock := f.clock + 1 }
  := by
  have hzero : s.zeroBaudCounter = false := by
    rw [h.zeroBaudCounter, beq_eq_false_iff_ne]
    omega
  have hstate : s.state ≠ idle := by
    intro hstate
    have hbit := h.bit
    rw [← h.state, hstate] at hbit
    simp [idle] at hbit
  have hcount := h.baudCounter
  have hpred := toNat_pred (v := s.baudCounter) (by omega)
  have hone := beq_one (v := s.baudCounter) (by have := clocksPerBaud.isLt; omega)
  constructor
  · simp [step, hzero, h.state]
  · simp only [step, hzero, if_neg hstate]
    simp only [Bool.false_and, Bool.false_eq_true, if_false, Bool.not_false, if_true, hpred]
    omega
  · simp only [step, hzero, if_neg hstate]
    simp only [Bool.false_and, Bool.false_eq_true, if_false, hone]
    rw [Bool.eq_iff_iff, beq_iff_eq, beq_iff_eq]
    omega
  · simpa [step, hzero, h.rBusy] using h.lclData
  · simpa [step, hzero, h.rBusy] using h.oUartTx
  · simp [step, hzero]
  · apply h.bit

/-- After a bit the next one is put on the line. -/
theorem Sending.step_next {f : Frame} (h : s.Sending clocksPerBaud f)
    (hc : 2 ≤ clocksPerBaud.toNat) (hlast : f.clock + 1 = clocksPerBaud.toNat)
    (hbit : f.bit < 9) :
  (s.step clocksPerBaud i).Sending clocksPerBaud { f with bit := f.bit + 1, clock := 0 }
  := by
  have hzero : s.zeroBaudCounter = true := by
    rw [h.zeroBaudCounter, beq_iff_eq, hlast]
  have hstate : s.state ≠ idle := by
    intro hstate
    rw [← h.state, hstate] at hbit
    simp [idle] at hbit
  have hnine : (s.state == 9) = false := by
    rw [beq_eq_false_iff_ne]
    intro hnine
    rw [← h.state, hnine] at hbit
    simp at hbit
  have hle : s.state ≤ stop := by
    rw [BitVec.le_def, h.state]
    change f.bit ≤ 8
    omega
  have hcount : s.baudCounter.toNat = 0 := by
    have := h.baudCounter
    omega
  have hpred := toNat_pred (v := clocksPerBaud) (by omega)
  have hone := beq_one (v := s.baudCounter) (by have := clocksPerBaud.isLt; omega)
  constructor
  · have hsucc : (s.state + 1).toNat = s.state.toNat + 1 := by
      apply toNat_succ
      rw [h.state]
      omega
    simp only [step, hzero, if_neg (BitVec.not_lt.mpr hle), if_pos hle]
    simp only [Bool.not_true, Bool.false_eq_true, if_false, hsucc, h.state]
  · simp only [step, hzero, if_neg hstate, hnine]
    simp only [Bool.and_false, Bool.false_eq_true, if_false, Bool.not_true, hpred]
    omega
  · simp only [step, hzero, if_neg hstate, hnine]
    simp only [Bool.and_false, Bool.false_eq_true, if_false, hone, hcount]
    rw [Bool.eq_iff_iff, beq_iff_eq, beq_iff_eq]
    omega
  · simpa [step, hzero, h.rBusy] using h.lclData.shift
  · simpa [step, hzero, h.rBusy] using h.lclData 0 (by omega)
  · simp [step, hzero, BitVec.not_lt.mpr hle]
  · apply hbit

/-- After the stop bit the transmitter is idle. -/
theorem Sending.step_last {f : Frame} (h : s.Sending clocksPerBaud f)
    (hlast : f.clock + 1 = clocksPerBaud.toNat) (hbit : f.bit = 9) :
  (s.step clocksPerBaud i).Idle
  := by
  have hzero : s.zeroBaudCounter = true := by
    rw [h.zeroBaudCounter, beq_iff_eq, hlast]
  have hstate : s.state = 9 := by
    rw [← BitVec.toNat_inj, h.state, hbit]
    rfl
  constructor
  · simp [step, hzero, hstate, h.rBusy, stop]
  · simp [step, hzero, hstate, idle]
  · have hones : shiftIn true s.lclData = 0xff := by
      apply BitVec.eq_of_getLsbD_eq
      intro j hj
      rw [h.lclData.shift j hj, bitOf_of_ge _ (by omega)]
      rw [show (0xff : BitVec 8) = BitVec.allOnes 8 from rfl, BitVec.getLsbD_allOnes,
        decide_eq_true hj]
    simpa [step, hzero, h.rBusy] using hones
  · have hone := h.lclData 0 (by omega)
    rw [bitOf_of_ge _ (by omega)] at hone
    simpa [step, hzero, h.rBusy] using hone

/-- At the last clock of the stop bit the transmitter gets ready. -/
theorem Sending.oBusy_step {f : Frame} (h : s.Sending clocksPerBaud f)
    (hlast : f.clock + 1 = clocksPerBaud.toNat) (hbit : f.bit = 9) :
  (s.step clocksPerBaud i).oBusy = false
  := by
  have hzero : s.zeroBaudCounter = true := by
    rw [h.zeroBaudCounter, beq_iff_eq, hlast]
  have hstate : s.state = 9 := by
    rw [← BitVec.toNat_inj, h.state, hbit]
    rfl
  simp [oBusy, step, hzero, hstate, h.rBusy, stop]

/-- A frame goes on to its end. -/
theorem Sending.step {f : Frame} (h : s.Sending clocksPerBaud f) (hc : 2 ≤ clocksPerBaud.toNat) :
  (s.step clocksPerBaud i).On clocksPerBaud (f.next clocksPerBaud.toNat)
  := by
  have hcount := h.baudCounter
  have hbit := h.bit
  rw [Frame.next]
  split_ifs with hlast hnext
  · apply h.step_bit hlast
  · apply h.step_next hc (by omega) hnext
  · apply h.step_last (by omega) (by omega)

end Step

section Runs

variable {clocksPerBaud : BitVec tb} (inp : ℕ → Input)

/-- The byte that is accepted at a clock of the run. -/
def sent (clocksPerBaud : BitVec tb) (inp : ℕ → Input) (n : ℕ) : Option (BitVec 8) :=
  (run (step clocksPerBaud) initial inp n).accepts (inp n)

/-- While a frame is sent no byte is accepted. -/
theorem Sending.accepts {s : Txuartlite tb} {f : Frame} (h : s.Sending clocksPerBaud f)
    (i : Input) :
  s.accepts i = none
  := by simp [Txuartlite.accepts, oBusy, h.rBusy]

/-- The registers follow the frames of the bytes that are accepted. -/
theorem run_on (hc : 2 ≤ clocksPerBaud.toNat) (n : ℕ) :
  (run (step clocksPerBaud) initial inp n).On clocksPerBaud
    (frames clocksPerBaud.toNat (sent clocksPerBaud inp) n)
  := by
  induction n with
  | zero => constructor <;> rfl
  | succ n ih =>
      cases hframe : frames clocksPerBaud.toNat (sent clocksPerBaud inp) n with
      | none =>
          rw [hframe] at ih
          cases hsent : sent clocksPerBaud inp n with
          | some b =>
              rw [frames_succ_of_some hsent]
              apply Idle.start ih hc hsent
          | none =>
              rw [frames_succ_of_none hsent, hframe]
              apply Idle.stay ih hsent
      | some f =>
          rw [hframe] at ih
          have hsent : sent clocksPerBaud inp n = none := Sending.accepts ih _
          rw [frames_succ_of_none hsent, hframe]
          apply Sending.step ih hc

/-- From the first clock on the transmitter is busy exactly while a frame is on the line. -/
theorem run_oBusy (hc : 2 ≤ clocksPerBaud.toNat) (n : ℕ) :
  (run (step clocksPerBaud) initial inp (n + 1)).oBusy
    = (frames clocksPerBaud.toNat (sent clocksPerBaud inp) (n + 1)).isSome
  := by
  cases hnext : frames clocksPerBaud.toNat (sent clocksPerBaud inp) (n + 1) with
  | some f =>
      have hon := run_on inp hc (n + 1)
      rw [hnext] at hon
      apply Sending.rBusy hon
  | none =>
      have hon := run_on inp hc n
      have hsent : sent clocksPerBaud inp n = none := by
        cases hsent : sent clocksPerBaud inp n with
        | some b =>
            rw [frames_succ_of_some hsent] at hnext
            contradiction
        | none => rfl
      rw [frames_succ_of_none hsent] at hnext
      cases hframe : frames clocksPerBaud.toNat (sent clocksPerBaud inp) n with
      | none =>
          rw [hframe] at hon
          apply Idle.oBusy_step hon hsent
      | some f =>
          rw [hframe] at hon hnext
          have hcount := Sending.baudCounter hon
          have hbit := Sending.bit hon
          rw [Option.bind_some, Frame.next] at hnext
          split_ifs at hnext with hlast hstop
          apply Sending.oBusy_step hon (by omega) (by omega)

/-- The line carries the bytes that are accepted. -/
theorem carries (hc : 2 ≤ clocksPerBaud.toNat) :
  Carries clocksPerBaud.toNat (sent clocksPerBaud inp)
    (fun n => (run (step clocksPerBaud) initial inp n).oUartTx)
  := by
  constructor
  · intro n hsent
    have hon := run_on inp hc n
    cases hframe : frames clocksPerBaud.toNat (sent clocksPerBaud inp) n with
    | none => rfl
    | some f =>
        rw [hframe] at hon
        cases hsent (Sending.accepts hon _)
  · intro n
    have hon := run_on inp hc n
    cases hframe : frames clocksPerBaud.toNat (sent clocksPerBaud inp) n with
    | none =>
        rw [hframe] at hon
        apply Idle.oUartTx hon
    | some f =>
        rw [hframe] at hon
        apply Sending.oUartTx hon

/-- The transmitter is ready again ten bits after it has accepted a byte. -/
theorem oBusy_of_sent (hc : 2 ≤ clocksPerBaud.toNat) {n : ℕ} {b : BitVec 8}
    (hsent : sent clocksPerBaud inp n = some b) :
  (run (step clocksPerBaud) initial inp (n + 10 * clocksPerBaud.toNat + 1)).oBusy = false
  := by
  have hcarries := carries inp hc
  have hlast := hcarries.frames_of_sent hsent (Nat.le_refl 9)
    (Nat.sub_one_lt_of_lt (by omega : 1 < clocksPerBaud.toNat))
  have hn : n + 1 + clocksPerBaud.toNat * 9 + (clocksPerBaud.toNat - 1)
      = n + 10 * clocksPerBaud.toNat := by omega
  have hon := run_on inp hc (n + 10 * clocksPerBaud.toNat)
  rw [hn] at hlast
  rw [hlast] at hon
  rw [run_oBusy inp hc, hcarries.frames_over (by omega) hsent (Sending.accepts hon _)]
  rfl

end Runs

end Txuartlite

end ZBasic
