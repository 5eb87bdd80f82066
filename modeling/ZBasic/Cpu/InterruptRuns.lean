import ZBasic.Clocked.Latch
import ZBasic.Clocked.Run
import ZBasic.Cpu.Peripherals

/-!
# Runs of the interrupt controller

`icontrol` collects interrupts until they are acknowledged over the bus, and interrupts the CPU
while one that is enabled is pending. The same write to the bus acknowledges interrupts and, as its bit 15
says, enables or disables them.
-/

namespace ZBasic

open Clocked

namespace Icontrol

/-- The inputs at a clock, without `i_ce`, which a controller does not have, and the interrupts. -/
structure Input extends PeripheralInput 32 where
  iBrdInts : BitVec 15

/-- Everything is zero at first. -/
def initial : Icontrol where
  rIntState := 0
  rIntEnable := 0
  rMie := false
  oInterrupt := false
  oWbData := 0

/-! ### What the inputs say -/

section Events

variable (inp : ℕ → Input)

/-- The interrupt `k` comes. -/
def raised (k n : ℕ) : Bool := !(inp n).iReset && (inp n).iBrdInts.getLsbD k

/-- It is acknowledged. -/
def acknowledged (k n : ℕ) : Bool := (inp n).iReset || (inp n).wbWrite && (inp n).iWbData.getLsbD k

/-- What bit `k` of the data stands for is switched on. -/
def switchedOn (k n : ℕ) : Bool :=
  !(inp n).iReset && enableInts (inp n).toPeripheralInput && (inp n).iWbData.getLsbD k

/-- It is switched off. -/
def switchedOff (k n : ℕ) : Bool :=
  (inp n).iReset || disableInts (inp n).toPeripheralInput && (inp n).iWbData.getLsbD k

/-- The registers before the clock `n`. -/
def state (n : ℕ) : Icontrol :=
  run (fun s i => s.step i.toPeripheralInput i.iBrdInts) initial inp n

end Events

variable {inp : ℕ → Input}

theorem state_succ (n : ℕ) :
  state inp (n + 1) = (state inp n).step (inp n).toPeripheralInput (inp n).iBrdInts
  := rfl

/-- Enabling and disabling exclude each other. -/
theorem disableInts_of_enableInts {i : PeripheralInput 32} (h : enableInts i = true) :
  disableInts i = false
  := by
  rw [enableInts, Bool.and_eq_true] at h
  rw [disableInts, h.2, Bool.not_true, Bool.and_false]

/-! ### The registers are latches -/

theorem latch_rIntState {k : ℕ} (hk : k < 15) :
  Latch (raised inp k) (acknowledged inp k) fun n => (state inp n).rIntState.getLsbD k
  := by
  constructor
  · exact BitVec.getLsbD_zero
  · intro n
    simp only [state_succ, step, raised, acknowledged]
    cases (inp n).iReset <;> cases (inp n).wbWrite <;> simp [hk, Bool.or_comm]

theorem latch_rIntEnable {k : ℕ} (hk : k < 15) :
  Latch (switchedOn inp (16 + k)) (switchedOff inp (16 + k))
    fun n => (state inp n).rIntEnable.getLsbD k
  := by
  constructor
  · exact BitVec.getLsbD_zero
  · intro n
    simp only [state_succ, step, switchedOn, switchedOff]
    have hexclude := @disableInts_of_enableInts (inp n).toPeripheralInput
    cases (inp n).iReset <;> cases henable : enableInts (inp n).toPeripheralInput <;>
      cases hdisable : disableInts (inp n).toPeripheralInput <;> simp_all [Bool.or_comm]

theorem latch_rMie :
  Latch (switchedOn inp 31) (switchedOff inp 31) fun n => (state inp n).rMie
  := by
  constructor
  · rfl
  · intro n
    simp only [state_succ, step, switchedOn, switchedOff]
    have hexclude := @disableInts_of_enableInts (inp n).toPeripheralInput
    cases (inp n).iReset <;> cases henable : enableInts (inp n).toPeripheralInput <;>
      cases hdisable : disableInts (inp n).toPeripheralInput <;>
      cases (inp n).iWbData.getLsbD 31 <;> simp_all

/-! ### The interrupt line -/

/-- Some interrupt is pending and enabled. -/
theorem wAny_eq_true {s : Icontrol} :
  s.wAny = true ↔ ∃ k < 15, s.rIntState.getLsbD k = true ∧ s.rIntEnable.getLsbD k = true
  := by
  rw [wAny, decide_eq_true_iff]
  constructor
  · intro hne
    by_contra hnone
    apply hne
    apply BitVec.eq_of_getLsbD_eq
    intro k hk
    rw [BitVec.getLsbD_and, BitVec.ofNat_eq_ofNat, BitVec.getLsbD_zero, ← Bool.not_eq_true,
      Bool.and_eq_true]
    intro hboth
    apply hnone ⟨k, hk, hboth⟩
  · rintro ⟨k, -, hstate, henable⟩ hzero
    have hbit := congrArg (fun v => v.getLsbD k) hzero
    simp [hstate, henable] at hbit

theorem oInterrupt_succ (n : ℕ) :
  (state inp (n + 1)).oInterrupt = true ↔ (inp n).iReset = false ∧ (state inp n).rMie = true
    ∧ ∃ k < 15, (state inp n).rIntState.getLsbD k = true
      ∧ (state inp n).rIntEnable.getLsbD k = true
  := by
  rw [← wAny_eq_true]
  simp only [state_succ, step]
  cases (inp n).iReset <;> simp

/-- What makes the run on `inp` that of an interrupt controller. -/
structure Controls (inp : ℕ → Input) : Prop where
  /-- An interrupt is pending from the clock at which it comes until it is acknowledged at a later
  one. -/
  pending : ∀ n, ∀ k < 15, (state inp n).rIntState.getLsbD k = true
    ↔ ∃ m < n, raised inp k m = true ∧ ∀ j, m < j → j < n → acknowledged inp k j = false
  /-- It is enabled as the last write says that names it. -/
  enabled : ∀ n, ∀ k < 15, (state inp n).rIntEnable.getLsbD k = true
    ↔ ∃ m < n, switchedOn inp (16 + k) m = true
      ∧ ∀ j, m < j → j < n → switchedOff inp (16 + k) j = false
  mie : ∀ n, (state inp n).rMie = true
    ↔ ∃ m < n, switchedOn inp 31 m = true ∧ ∀ j, m < j → j < n → switchedOff inp 31 j = false
  /-- As long as an enabled interrupt is not acknowledged, switched off or reset, the CPU is
  interrupted. -/
  insists : ∀ m n, ∀ k < 15, m < n → raised inp k m = true →
    (state inp (m + 1)).rIntEnable.getLsbD k = true → (state inp (m + 1)).rMie = true →
    (∀ j, m < j → j ≤ n → acknowledged inp k j = false ∧ switchedOff inp (16 + k) j = false
      ∧ switchedOff inp 31 j = false) →
    (state inp (n + 1)).oInterrupt = true
  /-- It is interrupted for nothing else. -/
  founded : ∀ n, (state inp (n + 1)).oInterrupt = true → (state inp n).rMie = true ∧ ∃ k < 15,
    (state inp n).rIntEnable.getLsbD k = true ∧ ∃ m < n,
      raised inp k m = true ∧ ∀ j, m < j → j < n → acknowledged inp k j = false
  /-- The bus is shown the interrupts that are pending, and those that are enabled. -/
  shown : ∀ n, ∀ k < 15,
    (state inp (n + 1)).oWbData.getLsbD k = (state inp n).rIntState.getLsbD k
      ∧ (state inp (n + 1)).oWbData.getLsbD (16 + k) = (state inp n).rIntEnable.getLsbD k
      ∧ (state inp (n + 1)).oWbData.getLsbD 31 = (state inp n).rMie

/-- The parts of what is read. -/
theorem getLsbD_status (s : Icontrol) {k : ℕ} (hk : k < 15) :
  s.status.getLsbD k = s.rIntState.getLsbD k
    ∧ s.status.getLsbD (16 + k) = s.rIntEnable.getLsbD k
    ∧ s.status.getLsbD 31 = s.rMie
  := by
  simp only [status, BitVec.getLsbD_append]
  refine ⟨?_, ?_, ?_⟩
  · rw [if_pos hk]
  · rw [if_neg (by omega), if_neg (by omega), if_pos (by omega), show 16 + k - 15 - 1 = k by omega]
  · rw [if_neg (by omega), if_neg (by omega), if_neg (by omega)]
    simp

/-- The controller loses no interrupt. -/
theorem controls (inp : ℕ → Input) :
  Controls inp
  := by
  constructor
  case pending =>
      intro n k hk
      apply (latch_rIntState hk).eq_true_iff
  case enabled =>
      intro n k hk
      apply (latch_rIntEnable hk).eq_true_iff
  case mie => apply latch_rMie.eq_true_iff
  case insists =>
      intro m n k hk hlt hraised henabled hmie hkept
      rw [oInterrupt_succ]
      have hstays : (state inp n).rIntEnable.getLsbD k = true ∧ (state inp n).rMie = true := by
        constructor
        · apply (latch_rIntEnable hk).stays henabled hlt
          intro j hj hj'
          apply (hkept j hj (Nat.le_of_lt hj')).2.1
        · apply latch_rMie.stays hmie hlt
          intro j hj hj'
          apply (hkept j hj (Nat.le_of_lt hj')).2.2
      constructor
      · have hnow := (hkept n hlt (Nat.le_refl n)).1
        rw [acknowledged, Bool.or_eq_false_iff] at hnow
        apply hnow.1
      · use hstays.2, k, hk
        constructor
        · rw [(latch_rIntState hk).eq_true_iff]
          use m, hlt, hraised
          intro j hj hj'
          apply (hkept j hj (Nat.le_of_lt hj')).1
        · apply hstays.1
  case founded =>
      intro n hinterrupt
      obtain ⟨-, hmie, k, hk, hpending, henabled⟩ := (oInterrupt_succ n).mp hinterrupt
      use hmie, k, hk, henabled
      apply ((latch_rIntState hk).eq_true_iff n).mp hpending
  case shown =>
      intro n k hk
      apply getLsbD_status _ hk

/-- At clock 0 the highest of 15 interrupts is enabled. It comes at clock 2, where it is
acknowledged, too. -/
def acknowledgedAsItComes (n : ℕ) : Input where
  iReset := false
  iCe := false
  iWbStb := true
  iWbWe := n == 0 || n == 2
  iWbData := if n = 0 then 0xc0008000 else 0x4000
  iBrdInts := if n = 2 then 0x4000 else 0

theorem controls_acknowledgedAsItComes :
  (state acknowledgedAsItComes 4).oInterrupt = true
  := by
  apply (controls acknowledgedAsItComes).insists 2 3 14 (by decide) (by decide)
    (by decide) (by decide) (by decide)
  intro j hj hj'
  obtain rfl : j = 3 := by omega
  decide

end Icontrol

end ZBasic
