import ZBasic.Clocked.Counter
import ZBasic.Clocked.Run
import ZBasic.Sdspi.Llsdspi

/-!
# Transfers of bytes to and from the SD card

While `i_cs` is held high, `llsdspi` sends each byte that it accepts with eight pulses of the
clock of the card, and shows the byte that it has received meanwhile.
-/

namespace ZBasic

open Clocked

namespace Llsdspi

/-- The registers at power up. The counters, which say only how long the holds last, and the
registers that have no initial value may hold anything. -/
structure Initial (s : Llsdspi) : Prop where
  powerupHold : s.powerupHold = true
  startupHold : s.startupHold = true
  rClkCounter : s.rClkCounter = 0
  rZCounter : s.rZCounter = true
  oCsN : s.oCsN = true
  rState : s.rState = idle
  rIdle : s.rIdle = false
  oSclk : s.oSclk = true
  rByte : s.rByte = 0xff
  oMosi : s.oMosi = true
  oStb : s.oStb = false

/-! ### Phases of a transfer -/

/-- `r_state` in the half bit `q` of a byte. -/
def bitState (q : ℕ) : BitVec 4 := start + 1 + BitVec.ofNat 4 (q / 2)

theorem bitState_spec {q : ℕ} (hq : q < 16) :
  bitState q ≠ idle ∧ bitState q ≠ wait ∧ bitState q ≠ hotIdle ∧ start ≤ bitState q
    ∧ (stateEnd ≤ bitState q ↔ 14 ≤ q) ∧ (bitState q = stateEnd ↔ 14 ≤ q)
    ∧ (bitState q < stateEnd ↔ q < 14)
  := by
  revert q
  decide

theorem bitState_succ {q : ℕ} :
  bitState (q + 1) = if q % 2 = 1 then bitState q + 1 else bitState q
  := by
  rw [bitState, bitState]
  split_ifs with hodd
  · rw [show (q + 1) / 2 = q / 2 + 1 by omega, BitVec.ofNat_add, ← BitVec.add_assoc]
    rfl
  · rw [show (q + 1) / 2 = q / 2 by omega]

/-- What is left of the byte `b` once its `k` highest bits have been taken. -/
def Left (rByte b : BitVec 8) (k : ℕ) : Prop :=
  ∀ j, k + j < 8 → rByte.getLsbD (7 - j) = b.getLsbD (7 - k - j)

/-- The first `k` bits of the line `x` have been shifted in. -/
def Shifted (rIreg : BitVec 8) (x : ℕ → Bool) (k : ℕ) : Prop :=
  ∀ j < k, rIreg.getLsbD (k - 1 - j) = x j

/-- The registers before the first byte. -/
structure Cold (s : Llsdspi) : Prop where
  rState : s.rState = idle
  oSclk : s.oSclk = true
  oCsN : s.oCsN = true

/-- The registers between two bytes. -/
structure Hot (s : Llsdspi) : Prop where
  rState : s.rState = hotIdle
  oSclk : s.oSclk = true
  oCsN : s.oCsN = false
  rIdle : s.rIdle = true

/-- The registers before the first bit of the first byte. -/
structure Starting (b : BitVec 8) (s : Llsdspi) : Prop where
  rState : s.rState = start
  oSclk : s.oSclk = true
  oCsN : s.oCsN = false
  rIdle : s.rIdle = false
  rByte : s.rByte = b

/-- The registers in the half bit `q` of the byte `b`, while the bits `x` come in. -/
structure Bits (b : BitVec 8) (x : ℕ → Bool) (q : ℕ) (s : Llsdspi) : Prop where
  lt : q < 16
  rState : s.rState = bitState q
  oSclk : s.oSclk = decide (q % 2 = 1)
  oCsN : s.oCsN = false
  rIdle : s.rIdle = decide (q = 15)
  oMosi : s.oMosi = b.getLsbD (7 - q / 2)
  rByte : Left s.rByte b (q / 2 + 1)
  rIreg : Shifted s.rIreg x ((q + 1) / 2)

/-- Neither hold is on. -/
structure Released (P : Params) (s : Llsdspi) : Prop where
  powerup : s.heldAtPowerup P = false
  startup : s.heldAtStartup P = false

/-- There is no reset and `i_cs` is high. -/
structure Input.Selected (i : Input) : Prop where
  iReset : i.iReset = false
  iCs : i.iCs = true

theorem getLsbD_shift (v : BitVec 8) (x : Bool) {j : ℕ} (hj : j < 8) :
  (v.extractLsb' 0 7 ++ BitVec.ofBool x).getLsbD j = if j = 0 then x else v.getLsbD (j - 1)
  := by
  rw [BitVec.getLsbD_append, BitVec.getLsbD_ofBool]
  split_ifs with h₁ h₂ h₂
  · simp [h₂]
  · omega
  · omega
  · simp [show j - 1 < 7 by omega]

theorem left_zero (b : BitVec 8) :
  Left b b 0
  := by
  intro j _
  rfl

/-- The highest bit that is left is shifted out. -/
theorem Left.shift {rByte b : BitVec 8} {k : ℕ} (h : Left rByte b k) :
  Left (rByte.extractLsb' 0 7 ++ 1#1) b (k + 1)
  := by
  intro j hj
  have hone : (1#1 : BitVec 1) = BitVec.ofBool true := rfl
  rw [hone, getLsbD_shift _ _ (by omega), if_neg (by omega),
    show 7 - j - 1 = 7 - (j + 1) by omega, h (j + 1) (by omega)]
  congr 1
  omega

/-- The next bit is shifted in. -/
theorem Shifted.shift {rIreg : BitVec 8} {x : ℕ → Bool} {k : ℕ} (h : Shifted rIreg x k)
    (hk : k < 8) :
  Shifted (rIreg.extractLsb' 0 7 ++ BitVec.ofBool (x k)) x (k + 1)
  := by
  intro j hj
  rw [getLsbD_shift _ _ (by omega)]
  split_ifs with hlast
  · rw [show j = k by omega]
  · rw [show k + 1 - 1 - j - 1 = k - 1 - j by omega, h j (by omega)]

section Step

variable {P : Params} {s : Llsdspi} {i : Input}

/-- The holds do not come back. -/
theorem Released.step (h : s.Released P) (hreset : i.iReset = false) :
  (s.step P i).Released P
  := by
  have hp := h.powerup
  have hs := h.startup
  constructor
  · rw [heldAtPowerup, Bool.and_eq_false_iff] at hp ⊢
    rcases hp with hp | hp
    · exact .inl hp
    · right
      simp [Llsdspi.step, hreset, hp]
  · rw [heldAtStartup, Bool.and_eq_false_iff] at hs ⊢
    rcases hs with hs | hs
    · exact .inl hs
    · right
      simp [Llsdspi.step, hreset, h.powerup, hs]

section Counting

variable (hz : s.rZCounter = false) (hs : s.heldAtStartup P = false) (hreset : i.iReset = false)
include hz

/-- Between the clocks at which the divider is at its end, the divider counts. -/
theorem count :
  (s.step P i).rClkCounter = s.rClkCounter - 1
    ∧ (s.step P i).rZCounter = decide (s.rClkCounter = 1)
  := by simp [step, hz]

include hs hreset

omit hs in
/-- The phase stays meanwhile. -/
theorem Cold.counting (h : s.Cold) :
  (s.step P i).Cold
  := by constructor <;> simp [step, nextState, hz, hreset, h.rState, h.oSclk, h.oCsN]

theorem Hot.counting (h : s.Hot) :
  (s.step P i).Hot
  := by constructor <;> simp [step, nextState, hz, hs, hreset, h.rState, h.oSclk, h.oCsN, h.rIdle]

theorem Starting.counting {b : BitVec 8} (h : s.Starting b) :
  (s.step P i).Starting b
  := by
  constructor <;>
    simp [step, nextState, hz, hs, hreset, h.rState, h.oSclk, h.oCsN, h.rIdle, h.rByte]

theorem Bits.counting {b : BitVec 8} {x : ℕ → Bool} {q : ℕ} (h : s.Bits b x q) :
  (s.step P i).Bits b x q
  := by
  constructor
  · apply h.lt
  · simp [step, nextState, hz, hreset, h.rState]
  · simp [step, hz, hreset, h.oSclk]
  · simp [step, hz, hreset, h.oCsN]
  · simp [step, hz, hs, hreset, h.rIdle]
  · simp [step, hz, hreset, h.oMosi]
  · simpa [step, hz, hreset] using h.rByte
  · simpa [step, hz] using h.rIreg

end Counting

theorem byteAccepted_of_not_rIdle (h : s.rIdle = false) :
  s.byteAccepted i = false
  := by simp [byteAccepted, oIdle, h]

variable (hrel : s.Released P) (hsel : i.Selected) (hz : s.rZCounter = true)
include hrel hsel hz

/-- The divider starts again for every half bit. -/
theorem restart (hgo : s.byteAccepted i = true ∨ s.rIdle = false) :
  (s.step P i).rClkCounter = i.iSpeed ∧ (s.step P i).rZCounter = decide (i.iSpeed = 0)
  := by
  have hrestart : s.restartCounter P i = true := by
    rcases hgo with hgo | hgo <;>
      simp [restartCounter, hrel.powerup, hrel.startup, hsel.iCs, hgo]
  simp [step, hz, hrestart]

/-- The divider stays at its end while there is nothing to do. -/
theorem rest (hb : s.byteAccepted i = false) (hidle : s.rIdle = true) :
  (s.step P i).rClkCounter = s.rClkCounter ∧ (s.step P i).rZCounter = true
  := by
  have hrestart : s.restartCounter P i = false := by
    simp [restartCounter, hrel.powerup, hrel.startup, hsel.iCs, hb, hidle]
  simp [step, hz, hrestart]

/-- A byte is shown after its last half bit. -/
theorem oStb_tick :
  (s.step P i).oStb = (s.oSclk && decide (stateEnd ≤ s.rState))
  := by
  cases hsclk : s.oSclk <;>
    simp [step, hz, hrel.startup, hsel.iReset, hsel.iCs, hsclk]

theorem Cold.tick (h : s.Cold) (hb : s.byteAccepted i = false) :
  (s.step P i).Cold
  := by
  constructor <;>
    simp [step, nextState, restartCounter, hz, hrel.powerup, hrel.startup, hsel.iReset, hsel.iCs,
      hb, h.rState, h.oSclk, h.oCsN]

/-- Chip select is asserted before the first byte of a run. -/
theorem Cold.accept (h : s.Cold) (hb : s.byteAccepted i = true) :
  (s.step P i).Starting i.iByte
  := by
  constructor <;>
    simp [step, nextState, restartCounter, hz, hrel.powerup, hrel.startup, hsel.iReset, hsel.iCs,
      hb, h.rState, h.oSclk, h.oCsN]

theorem Hot.tick (h : s.Hot) (hb : s.byteAccepted i = false) :
  (s.step P i).Hot
  := by
  have hstate : hotIdle ≠ idle ∧ hotIdle ≠ wait ∧ ¬ start ≤ hotIdle := by decide
  constructor <;>
    simp [step, nextState, restartCounter, hz, hrel.powerup, hrel.startup, hsel.iReset, hsel.iCs,
      hb, h.rState, h.oSclk, h.oCsN, h.rIdle, hstate]

/-- A byte that is accepted with chip select asserted starts at once. -/
theorem bits_of_accept (x : ℕ → Bool) (hb : s.byteAccepted i = true) (hsclk : s.oSclk = true)
    (hcs : s.oCsN = false) (hidle : s.rState ≠ idle) (hwait : s.rState ≠ wait) :
  (s.step P i).Bits i.iByte x 0
  := by
  have hrestart : s.restartCounter P i = true := by
    simp [restartCounter, hrel.powerup, hrel.startup, hsel.iCs, hb]
  constructor
  · decide
  · simp [step, nextState, hz, hsel.iReset, hsel.iCs, hb, hidle, hwait, bitState]
  · simp [step, hz, hsel.iReset, hsel.iCs, hrel.startup, hrestart, hsclk, hcs, hwait]
  · simp [step, hz, hsel.iReset, hsel.iCs, hrel.startup, hcs]
  · simp [step, hz, hsel.iReset, hrel.startup, hb]
  · simp [step, hz, hsel.iReset, hb, hcs]
  · have hleft := (left_zero i.iByte).shift
    simpa [step, hz, hsel.iReset, hb, hcs] using hleft
  · intro j hj
    simp at hj

theorem Starting.tick {b : BitVec 8} (h : s.Starting b) (x : ℕ → Bool) :
  (s.step P i).Bits b x 0
  := by
  have hb : s.byteAccepted i = false := byteAccepted_of_not_rIdle h.rIdle
  have hrestart : s.restartCounter P i = true := by
    simp [restartCounter, hrel.powerup, hrel.startup, h.rIdle]
  have hstate : start ≠ idle ∧ start ≠ wait ∧ start ≠ hotIdle ∧ start ≠ stateEnd
      ∧ ¬ stateEnd ≤ start ∧ start < stateEnd := by decide
  constructor
  · decide
  · simp [step, nextState, hz, hsel.iReset, hsel.iCs, hb, h.rState, h.oSclk, hstate, bitState]
  · simp [step, hz, hsel.iReset, hsel.iCs, hrel.startup, hrestart, h.rState, h.oSclk, h.oCsN,
      hstate]
  · simp [step, hz, hsel.iReset, hsel.iCs, hrel.startup, h.rState, h.oCsN, hstate]
  · simp [step, hz, hsel.iReset, hrel.startup, hb, h.rState, hstate]
  · simp [step, hz, hsel.iReset, hb, h.rState, h.oSclk, h.rByte, hstate]
  · have hleft := (left_zero b).shift
    simpa [step, hz, hsel.iReset, hb, h.oSclk, h.rByte] using hleft
  · intro j hj
    simp at hj

/-- The half bits of a byte follow each other. The line is looked at where the clock of the
card rises. -/
theorem Bits.tick {b : BitVec 8} {x : ℕ → Bool} {q : ℕ} (h : s.Bits b x q) (hq : q < 15)
    (hx : q % 2 = 0 → x (q / 2) = i.iMiso) :
  (s.step P i).Bits b x (q + 1)
  := by
  obtain ⟨hidle, hwait, hhot, hstart, hend, heq, hlt⟩ := bitState_spec h.lt
  have hrIdle : s.rIdle = false := by simp [h.rIdle, show q ≠ 15 by omega]
  have hb : s.byteAccepted i = false := byteAccepted_of_not_rIdle hrIdle
  have hrestart : s.restartCounter P i = true := by
    simp [restartCounter, hrel.powerup, hrel.startup, hrIdle]
  have hstate := bitState_succ (q := q)
  have hsclk := h.oSclk
  have hnext := h.rByte.shift
  rcases Nat.mod_two_eq_zero_or_one q with hpar | hpar
  · have hhalf : (q + 1) / 2 = q / 2 := by omega
    have hshift := h.rIreg
    rw [hhalf] at hshift
    replace hshift := hshift.shift (by omega)
    rw [hx hpar] at hshift
    simp only [hpar, Nat.zero_ne_one, if_false, decide_false] at hstate hsclk
    constructor
    · omega
    · simp [step, nextState, hz, hsel.iReset, hsel.iCs, hb, h.rState, hsclk, hstate, hidle, hwait]
    · have hodd : (q + 1) % 2 = 1 := by omega
      simp [step, hz, hsel.iReset, hsel.iCs, hrel.startup, hrestart, hsclk, h.rState, hwait, hodd]
    · simp [step, hz, hsel.iReset, hsel.iCs, hrel.startup, h.rState, h.oCsN, hidle]
    · simp [step, hz, hsel.iReset, hrel.startup, hb, h.rState, heq, hhot, hidle]
      omega
    · simp [step, hz, hsel.iReset, hb, hsclk, h.oMosi, hhalf]
    · simpa [step, hz, hsel.iReset, hb, hsclk, hhalf] using h.rByte
    · simpa [step, hz, hsclk, show (q + 1 + 1) / 2 = q / 2 + 1 by omega] using hshift
  · have hhalf : (q + 1) / 2 = q / 2 + 1 := by omega
    have hbefore : q < 14 := by omega
    simp only [hpar, if_true, decide_true] at hstate hsclk
    constructor
    · omega
    · simp [step, nextState, hz, hsel.iReset, hsel.iCs, hb, h.rState, hsclk, hstate, hidle, hwait,
        hstart, hend, hbefore, Nat.not_le.mpr]
    · have heven : (q + 1) % 2 = 0 := by omega
      simp [step, hz, hsel.iReset, hsel.iCs, hrel.startup, hrestart, hsclk, h.rState, hwait, heven,
        h.oCsN]
    · simp [step, hz, hsel.iReset, hsel.iCs, hrel.startup, h.rState, h.oCsN, hidle]
    · simp [step, hz, hsel.iReset, hrel.startup, hb, h.rState, heq, hhot, hidle]
      omega
    · have hbit := h.rByte 0 (by omega)
      simpa [step, hz, hsel.iReset, hb, hsclk, h.rState, hstart, hlt, hbefore, hhalf] using hbit
    · simpa [step, hz, hsel.iReset, hb, hsclk, hhalf] using hnext
    · simpa [step, hz, hsclk, show (q + 1 + 1) / 2 = (q + 1) / 2 by omega] using h.rIreg

/-- After the last half bit the card stays selected. -/
theorem Bits.end {b : BitVec 8} {x : ℕ → Bool} (h : s.Bits b x 15)
    (hb : s.byteAccepted i = false) :
  (s.step P i).Hot
  := by
  obtain ⟨hidle, hwait, -, hstart, hend, heq, -⟩ := bitState_spec h.lt
  have hlast : bitState 15 = stateEnd := heq.mpr (by omega)
  have hrIdle : s.rIdle = true := h.rIdle
  have hsclk : s.oSclk = true := h.oSclk
  constructor
  · simp [step, nextState, hz, hsel.iReset, hsel.iCs, hb, h.rState, hsclk, hidle, hwait, hstart,
      hend]
  · simp [step, restartCounter, hz, hsel.iReset, hsel.iCs, hrel.powerup, hrel.startup, hb, hrIdle,
      hsclk]
  · simp [step, hz, hsel.iReset, hsel.iCs, hrel.startup, h.rState, h.oCsN, hidle]
  · simp [step, hz, hsel.iReset, hrel.startup, hb, h.rState, hlast]

omit hrel hsel in
/-- What is shown after the last half bit is what has been shifted in. -/
theorem Bits.oByte {b : BitVec 8} {x : ℕ → Bool} (h : s.Bits b x 15) {k : ℕ} (hk : k < 8) :
  (s.step P i).oByte.getLsbD (7 - k) = x k
  := by
  have hlast : bitState 15 = stateEnd := (bitState_spec h.lt).2.2.2.2.2.1.mpr (by omega)
  have hsclk : s.oSclk = true := h.oSclk
  have hbyte : (s.step P i).oByte = s.rIreg := by simp [step, hz, hsclk, h.rState, hlast]
  rw [hbyte]
  apply h.rIreg k hk

end Step

/-! ### What is reached from power up -/

/-- The registers are those of some phase. -/
def Phased (s : Llsdspi) : Prop :=
  s.Cold ∨ s.Hot ∨ (∃ b, s.Starting b) ∨ ∃ b x q, s.Bits b x q

/-- What holds of the registers whatever the inputs have been. -/
structure Reached (P : Params) (s : Llsdspi) : Prop where
  counter : s.rZCounter = decide (s.rClkCounter = 0)
  powerup : s.heldAtPowerup P = true → s.heldAtStartup P = true ∧ s.oSclk = true
  startup : s.heldAtStartup P = true → s.rState = idle ∧ s.oCsN = true ∧ s.rIdle = false
  phased : s.heldAtStartup P = false → s.Phased

/-- A byte is accepted in the last half bit of a byte or between bytes only. -/
theorem Phased.accepts {s : Llsdspi} {i : Input} (h : s.Phased) (hb : s.byteAccepted i = true) :
  s.Cold ∨ (s.oSclk = true ∧ s.oCsN = false ∧ s.rState ≠ idle ∧ s.rState ≠ wait)
  := by
  have hidle : s.rIdle = true := by
    simp only [byteAccepted, oIdle, Bool.and_eq_true] at hb
    apply hb.2.1
  rcases h with h | h | ⟨b, h⟩ | ⟨b, x, q, h⟩
  · exact .inl h
  · right
    rw [h.rState]
    exact ⟨h.oSclk, h.oCsN, by decide, by decide⟩
  · rw [h.rIdle] at hidle
    cases hidle
  · right
    rw [h.rIdle, decide_eq_true_eq] at hidle
    obtain ⟨hnidle, hnwait, -⟩ := bitState_spec h.lt
    rw [h.rState, h.oSclk, hidle]
    rw [hidle] at hnidle hnwait
    exact ⟨rfl, h.oCsN, hnidle, hnwait⟩

/-- The bits that are still to come do not matter yet. -/
theorem Bits.update {s : Llsdspi} {b : BitVec 8} {x : ℕ → Bool} {q : ℕ} (h : s.Bits b x q)
    (y : Bool) :
  s.Bits b (Function.update x ((q + 1) / 2) y) q
  := by
  constructor
  case rIreg =>
    intro j hj
    rw [Function.update_of_ne (by omega), h.rIreg j hj]
  all_goals apply_rules [h.lt, h.rState, h.oSclk, h.oCsN, h.rIdle, h.oMosi, h.rByte]

section Reach

variable {P : Params} {s : Llsdspi} {i : Input}

/-- Between the clocks at which the divider is at its end, the phase stays. -/
theorem Phased.counting (h : s.Phased) (hz : s.rZCounter = false)
    (hs : s.heldAtStartup P = false) (hreset : i.iReset = false) :
  (s.step P i).Phased
  := by
  rcases h with h | h | ⟨b, h⟩ | ⟨b, x, q, h⟩
  · exact .inl (h.counting hz hreset)
  · exact .inr (.inl (h.counting hz hs hreset))
  · exact .inr (.inr (.inl ⟨b, h.counting hz hs hreset⟩))
  · exact .inr (.inr (.inr ⟨b, x, q, h.counting hz hs hreset⟩))

/-- A phase that goes on at a clock. -/
theorem Phased.tick (h : s.Phased) (hrel : s.Released P) (hsel : i.Selected)
    (hz : s.rZCounter = true) :
  (s.step P i).Phased
  := by
  cases hb : s.byteAccepted i with
  | true =>
      rcases h.accepts hb with hcold | ⟨hsclk, hcs, hidle, hwait⟩
      · exact .inr (.inr (.inl ⟨_, hcold.accept hrel hsel hz hb⟩))
      · have hbits := bits_of_accept hrel hsel hz (fun _ => false) hb hsclk hcs hidle hwait
        exact .inr (.inr (.inr ⟨_, _, _, hbits⟩))
  | false =>
      rcases h with h | h | ⟨b, h⟩ | ⟨b, x, q, h⟩
      · exact .inl (h.tick hrel hsel hz hb)
      · exact .inr (.inl (h.tick hrel hsel hz hb))
      · exact .inr (.inr (.inr ⟨_, _, _, h.tick hrel hsel hz (fun _ => false)⟩))
      · by_cases hq : q = 15
        · rw [hq] at h
          exact .inr (.inl (h.end hrel hsel hz hb))
        · have hlt := h.lt
          have hnext := (h.update i.iMiso).tick hrel hsel hz (by omega) (fun heven => by
            rw [show (q + 1) / 2 = q / 2 by omega, Function.update_self])
          exact .inr (.inr (.inr ⟨_, _, _, hnext⟩))

theorem step_counter (h : s.rZCounter = decide (s.rClkCounter = 0)) :
  (s.step P i).rZCounter = decide ((s.step P i).rClkCounter = 0)
  := by
  cases hz : s.rZCounter with
  | false =>
      have hone : s.rClkCounter = 1#8 ↔ s.rClkCounter - 1#8 = 0#8 := by
        rw [BitVec.sub_eq_iff_eq_add, BitVec.zero_add]
      simp [step, hz, hone]
  | true =>
      rw [hz, eq_comm, decide_eq_true_eq] at h
      by_cases hrestart : s.restartCounter P i = true
      · simp [step, hz, hrestart]
      · simp [step, hz, hrestart, h]

/-- What is reached stays so, whatever comes in. -/
theorem Reached.step (hP : 0 < P.powerupIdle → 0 < P.startupClocks) (h : s.Reached P) :
  (s.step P i).Reached P
  := by
  have hcounter := step_counter (P := P) (i := i) h.counter
  by_cases hreset : i.iReset = true
  · -- A reset starts the holds again, and the registers are those before the first byte.
    constructor
    · apply hcounter
    · intro hp
      have hpos : 0 < P.powerupIdle := by
        simp only [heldAtPowerup, Bool.and_eq_true, decide_eq_true_eq] at hp
        apply hp.1
      simp [heldAtStartup, Llsdspi.step, hreset, hP hpos]
    · intro _
      simp [Llsdspi.step, nextState, hreset]
    · intro _
      left
      constructor <;> simp [Llsdspi.step, nextState, hreset]
  rw [Bool.not_eq_true] at hreset
  cases hs : s.heldAtStartup P with
  | true =>
      obtain ⟨hstate, hcs, hidle⟩ := h.startup hs
      have hb : s.byteAccepted i = false := byteAccepted_of_not_rIdle hidle
      obtain ⟨hpos, hhold⟩ : 0 < P.startupClocks ∧ s.startupHold = true := by
        simpa [heldAtStartup] using hs
      have hnext : (s.step P i).rState = idle := by
        simp [Llsdspi.step, nextState, hreset, hstate, hb]
      have hnextCs : (s.step P i).oCsN = true := by
        simp [Llsdspi.step, hreset, hs, hcs]
      constructor
      · apply hcounter
      · intro hp
        obtain ⟨hlong, hold⟩ : 0 < P.powerupIdle ∧ (s.step P i).powerupHold = true := by
          simpa [heldAtPowerup] using hp
        have hp' : s.heldAtPowerup P = true := by
          rw [← Bool.not_eq_false]
          intro hp'
          have hoff : s.powerupHold = false := by
            simpa [heldAtPowerup, hlong] using hp'
          simp [Llsdspi.step, hreset, hoff] at hold
        have hsclk := (h.powerup hp').2
        constructor
        · simp [heldAtStartup, Llsdspi.step, hp', hpos]
        · simp [Llsdspi.step, hreset, restartCounter, hp', hsclk]
      · intro _
        exact ⟨hnext, hnextCs, by simp [Llsdspi.step, hs]⟩
      · intro hover
        left
        constructor
        · apply hnext
        · -- The last clock of the hold is one at which the clock of the card rises.
          have hp : s.heldAtPowerup P = false := by
            rw [← Bool.not_eq_true]
            intro hp
            simp [heldAtStartup, Llsdspi.step, hp, hpos] at hover
          have hlast : s.rZCounter = true ∧ s.oSclk = false := by
            by_contra hlast
            simp [heldAtStartup, Llsdspi.step, hp, hreset, hpos, hhold] at hover
            grind
          simp [Llsdspi.step, hreset, restartCounter, hp, hs, hlast]
        · apply hnextCs
  | false =>
      have hp : s.heldAtPowerup P = false := by
        rw [← Bool.not_eq_true]
        intro hp
        rw [(h.powerup hp).1] at hs
        cases hs
      have hrel : s.Released P := ⟨hp, hs⟩
      have hrel' : (s.step P i).Released P := hrel.step hreset
      constructor
      · apply hcounter
      · intro hp'
        rw [hrel'.powerup] at hp'
        cases hp'
      · intro hs'
        rw [hrel'.startup] at hs'
        cases hs'
      · intro _
        cases hz : s.rZCounter with
        | false => apply (h.phased hs).counting hz hs hreset
        | true =>
            cases hcs : i.iCs with
            | true => apply (h.phased hs).tick hrel ⟨hreset, hcs⟩ hz
            | false =>
                left
                constructor
                · simp [Llsdspi.step, nextState, hreset, hz, hcs]
                · cases hsclk : s.oSclk <;>
                    simp [Llsdspi.step, restartCounter, hreset, hz, hcs, hp, hs, hsclk]
                · simp [Llsdspi.step, hreset, hz, hcs]

end Reach

section Runs

variable (P : Params) (s₀ : Llsdspi) (inp : ℕ → Input)

/-- A byte is accepted at a clock. -/
def accepts (m : ℕ) : Bool := (run (step P) s₀ inp m).byteAccepted (inp m)

/-- The clocks of half a bit of the byte that is accepted at clock `m`. -/
def halfBit (m : ℕ) : ℕ := (inp m).iSpeed.toNat + 1

/-- Before the first byte of a run there is half a bit more, for chip select. -/
def lead (m : ℕ) : ℕ := (run (step P) s₀ inp m).oCsN.toNat

/-- The clocks that the byte accepted at clock `m` takes. -/
def duration (m : ℕ) : ℕ := halfBit inp m * (lead P s₀ inp m + 16)

/-- The clock at which the clock of the card rises in the bit `k` of the byte accepted at
clock `m`. -/
def riseAt (m k : ℕ) : ℕ := m + halfBit inp m * (lead P s₀ inp m + 2 * k + 1)

/-- The clock of the card rises. -/
def rises (n : ℕ) : Prop :=
  (run (step P) s₀ inp n).oSclk = false ∧ (run (step P) s₀ inp (n + 1)).oSclk = true

/-- From clock `a` to clock `b` both holds have ended, `i_cs` is high, there is no reset, and the
divider is constant during each transfer. -/
structure Window (a b : ℕ) : Prop where
  released : (run (step P) s₀ inp a).Released P
  selected : ∀ n, a ≤ n → n < b → (inp n).Selected
  steady : ∀ m, a ≤ m → accepts P s₀ inp m = true →
    ∀ n, m ≤ n → n < m + duration P s₀ inp m → n < b → (inp n).iSpeed = (inp m).iSpeed

/-- What goes on at clock `n` belongs to the bytes accepted from clock `a` on: one has been
accepted, or none was being sent at clock `a`. -/
def Begun (a n : ℕ) : Prop :=
  (run (step P) s₀ inp a).oCsN = true ∨ ∃ m, a ≤ m ∧ m < n ∧ accepts P s₀ inp m = true

/-- The bytes that are accepted from clock `a` on are sent and received by clock `b`. -/
structure Transfers (a b : ℕ) : Prop where
  /-- No byte is accepted while another one is sent. -/
  apart : ∀ m m', a ≤ m → m < m' → m' < b → accepts P s₀ inp m = true →
    accepts P s₀ inp m' = true → m + duration P s₀ inp m ≤ m'
  /-- The next byte may be offered just as the last one ends, or at any time later. -/
  ready : ∀ m n, a ≤ m → m < n → n ≤ b → accepts P s₀ inp m = true →
    (∀ j, m < j → j < n → accepts P s₀ inp j = false) →
    ((run (step P) s₀ inp n).oIdle = true ↔ m + duration P s₀ inp m ≤ n)
  /-- The clock of the card rises eight times for each byte, and at no other clock. -/
  pulses : ∀ n, a ≤ n → n < b → Begun P s₀ inp a n →
    (rises P s₀ inp n ↔
      ∃ m k, a ≤ m ∧ accepts P s₀ inp m = true ∧ k < 8 ∧ n = riseAt P s₀ inp m k)
  /-- Around each rising edge MOSI holds the bit that is due, the highest one first. -/
  mosi : ∀ m k n, a ≤ m → accepts P s₀ inp m = true → k < 8 → n ≤ b →
    riseAt P s₀ inp m k < n + halfBit inp m → n ≤ riseAt P s₀ inp m k + halfBit inp m →
    (run (step P) s₀ inp n).oMosi = (inp m).iByte.getLsbD (7 - k)
  /-- A byte is shown at the end of each transfer, and at no other clock. -/
  shown : ∀ n, a ≤ n → n < b → Begun P s₀ inp a n →
    ((run (step P) s₀ inp (n + 1)).oStb = true ↔
      ∃ m, a ≤ m ∧ accepts P s₀ inp m = true ∧ n = m + duration P s₀ inp m)
  /-- It is made of what MISO was at the rising edges. -/
  byte : ∀ m k, a ≤ m → accepts P s₀ inp m = true → m + duration P s₀ inp m < b → k < 8 →
    (run (step P) s₀ inp (m + duration P s₀ inp m + 1)).oByte.getLsbD (7 - k)
      = (inp (riseAt P s₀ inp m k)).iMiso
  /-- Chip select is asserted from the first byte on. -/
  select : ∀ n, a ≤ n → n ≤ b → Begun P s₀ inp a n →
    ((run (step P) s₀ inp n).oCsN = false ↔ ∃ m, a ≤ m ∧ m < n ∧ accepts P s₀ inp m = true)

/-- The phase of the registers in the half bit `p` of the byte accepted at clock `m`. -/
def Sending (m p : ℕ) (s : Llsdspi) : Prop :=
  if p < lead P s₀ inp m then s.Starting (inp m).iByte
  else s.Bits (inp m).iByte (fun k => (inp (riseAt P s₀ inp m k)).iMiso) (p - lead P s₀ inp m)

variable {P s₀ inp}

theorem Initial.reached (h : s₀.Initial) (hP : 0 < P.powerupIdle → 0 < P.startupClocks) :
  s₀.Reached P
  := by
  constructor
  · rw [h.rZCounter, h.rClkCounter]
    rfl
  · intro hp
    have hlong : 0 < P.powerupIdle := by
      simp only [heldAtPowerup, Bool.and_eq_true, decide_eq_true_eq] at hp
      apply hp.1
    simp [heldAtStartup, hP hlong, h.startupHold, h.oSclk]
  · intro _
    exact ⟨h.rState, h.oCsN, h.rIdle⟩
  · intro _
    exact .inl ⟨h.rState, h.oSclk, h.oCsN⟩

theorem lead_le {m : ℕ} :
  lead P s₀ inp m ≤ 1
  := Bool.toNat_le _

variable (hP : 0 < P.powerupIdle → 0 < P.startupClocks) (h₀ : s₀.Initial)
include hP h₀

theorem reached_run (n : ℕ) :
  (run (step P) s₀ inp n).Reached P
  := by
  apply run_induction
  · apply h₀.reached hP
  · intro n s h
    apply h.step hP

variable {a b : ℕ} (W : Window P s₀ inp a b)
include W

omit hP h₀ in
theorem Window.released_of_le {n : ℕ} (han : a ≤ n) (hnb : n ≤ b) :
  (run (step P) s₀ inp n).Released P
  := by
  induction han with
  | refl => apply W.released
  | @step n han ih => apply (ih (Nat.le_of_lt hnb)).step (W.selected n han hnb).iReset

/-- An accepted byte starts to be sent at the next clock. -/
theorem sending_start {m : ℕ} (ham : a ≤ m) (hmb : m < b) (hm : accepts P s₀ inp m = true) :
  Sending P s₀ inp m 0 (run (step P) s₀ inp (m + 1))
    ∧ (run (step P) s₀ inp (m + 1)).rClkCounter = (inp m).iSpeed
  := by
  have hrel := W.released_of_le ham (Nat.le_of_lt hmb)
  have hsel := W.selected m ham hmb
  have hz : (run (step P) s₀ inp m).rZCounter = true := by
    simp only [accepts, byteAccepted, oIdle, Bool.and_eq_true] at hm
    apply hm.2.2
  constructor
  · rw [run_succ, Sending]
    rcases ((reached_run hP h₀ m).phased hrel.startup).accepts hm with
      hcold | ⟨hsclk, hcs, hidle, hwait⟩
    · rw [if_pos (by simp [lead, hcold.oCsN])]
      apply hcold.accept hrel hsel hz hm
    · have hlead : lead P s₀ inp m = 0 := by simp [lead, hcs]
      rw [if_neg (by omega), hlead]
      apply bits_of_accept hrel hsel hz _ hm hsclk hcs hidle hwait
  · apply (restart hrel hsel hz (.inl hm)).1

/-- Within a half bit the divider counts down. -/
theorem sending_count {m p n : ℕ} (han : a ≤ n) (hnb : n < b)
    (hsend : Sending P s₀ inp m p (run (step P) s₀ inp n))
    (hpos : 0 < (run (step P) s₀ inp n).rClkCounter.toNat) :
  Sending P s₀ inp m p (run (step P) s₀ inp (n + 1))
    ∧ (run (step P) s₀ inp (n + 1)).rClkCounter.toNat
      = (run (step P) s₀ inp n).rClkCounter.toNat - 1
  := by
  have hrel := W.released_of_le han (Nat.le_of_lt hnb)
  have hsel := W.selected n han hnb
  have hz : (run (step P) s₀ inp n).rZCounter = false := by
    rw [(reached_run hP h₀ n).counter, decide_eq_false_iff_not, ← BitVec.toNat_inj]
    apply Nat.ne_of_gt hpos
  constructor
  · rw [Sending] at hsend ⊢
    rw [run_succ]
    split_ifs at hsend ⊢
    · apply hsend.counting hz hrel.startup hsel.iReset
    · apply hsend.counting hz hrel.startup hsel.iReset
  · rw [run_succ, (count hz).1, toNat_pred hpos]

/-- At its end the next half bit starts. -/
theorem sending_tick {m p n : ℕ} (han : a ≤ n) (hnb : n < b)
    (hsend : Sending P s₀ inp m p (run (step P) s₀ inp n))
    (hzero : (run (step P) s₀ inp n).rClkCounter = 0) (hp : p < lead P s₀ inp m + 15)
    (hn : n = m + halfBit inp m * (p + 1)) :
  Sending P s₀ inp m (p + 1) (run (step P) s₀ inp (n + 1))
    ∧ (run (step P) s₀ inp (n + 1)).rClkCounter = (inp n).iSpeed
  := by
  have hrel := W.released_of_le han (Nat.le_of_lt hnb)
  have hsel := W.selected n han hnb
  have hz : (run (step P) s₀ inp n).rZCounter = true := by
    rw [(reached_run hP h₀ n).counter, hzero]
    rfl
  have hlead : lead P s₀ inp m ≤ 1 := lead_le
  rw [Sending] at hsend
  rw [run_succ, Sending]
  split_ifs at hsend with hfirst
  · rw [if_neg (by omega), show p + 1 - lead P s₀ inp m = 0 by omega]
    constructor
    · apply hsend.tick hrel hsel hz
    · apply (restart hrel hsel hz (.inr hsend.rIdle)).1
  · rw [if_neg (by omega), show p + 1 - lead P s₀ inp m = p - lead P s₀ inp m + 1 by omega]
    constructor
    · apply hsend.tick hrel hsel hz (by omega)
      intro heven
      have hrise : riseAt P s₀ inp m ((p - lead P s₀ inp m) / 2) = n := by
        rw [hn, riseAt, show lead P s₀ inp m + 2 * ((p - lead P s₀ inp m) / 2) + 1 = p + 1 by omega]
      rw [hrise]
    · have hidle : (run (step P) s₀ inp n).rIdle = false := by
        rw [hsend.rIdle, decide_eq_false_iff_not]
        omega
      apply (restart hrel hsel hz (.inr hidle)).1

/-- The half bits of the byte that is sent follow each other. -/
theorem sending {m p : ℕ} (ham : a ≤ m) (hm : accepts P s₀ inp m = true)
    (hp : p < lead P s₀ inp m + 16) {r : ℕ} (hr : r < halfBit inp m)
    (hb : m + 1 + halfBit inp m * p + r ≤ b) :
  Sending P s₀ inp m p (run (step P) s₀ inp (m + 1 + halfBit inp m * p + r))
    ∧ (run (step P) s₀ inp (m + 1 + halfBit inp m * p + r)).rClkCounter.toNat + r
      = (inp m).iSpeed.toNat
  := by
  have hhalf : halfBit inp m = (inp m).iSpeed.toNat + 1 := rfl
  induction p generalizing r with
  | zero =>
      induction r with
      | zero =>
          obtain ⟨hsend, hcount⟩ := sending_start hP h₀ W ham (by omega) hm
          use hsend
          rw [Nat.mul_zero, Nat.add_zero, Nat.add_zero, hcount]
      | succ r ihr =>
          obtain ⟨hsend, hcount⟩ := ihr (by omega) (by omega)
          obtain ⟨hnext, hless⟩ := sending_count hP h₀ W (by omega) (by omega) hsend (by omega)
          rw [← Nat.add_assoc]
          use hnext
          omega
  | succ p ih =>
      have hmul : halfBit inp m * (p + 1) = halfBit inp m * p + halfBit inp m := Nat.mul_succ _ _
      induction r with
      | zero =>
          obtain ⟨hsend, hcount⟩ := ih (by omega) (r := halfBit inp m - 1) (by omega) (by omega)
          have hn : m + 1 + halfBit inp m * p + (halfBit inp m - 1) = m + halfBit inp m * (p + 1) := by
            omega
          have hlast : halfBit inp m * (p + 1) < duration P s₀ inp m := by
            apply Nat.mul_lt_mul_of_pos_left (by omega) (by omega)
          rw [hn] at hsend hcount
          have hzero : (run (step P) s₀ inp (m + halfBit inp m * (p + 1))).rClkCounter = 0 := by
            rw [← BitVec.toNat_inj]
            change _ = 0
            omega
          obtain ⟨hnext, hspeed⟩ :=
            sending_tick hP h₀ W (by omega) (by omega) hsend hzero (by omega) rfl
          rw [Nat.add_zero, Nat.add_zero, Nat.add_right_comm m 1]
          use hnext
          rw [hspeed, W.steady m ham hm _ (by omega) (by omega) (by omega), Nat.add_zero]
      | succ r ihr =>
          obtain ⟨hsend, hcount⟩ := ihr (by omega) (by omega)
          obtain ⟨hnext, hless⟩ := sending_count hP h₀ W (by omega) (by omega) hsend (by omega)
          rw [← Nat.add_assoc]
          use hnext
          omega

/-- What half bit is sent at a clock, and when it ends. -/
theorem sending_at {m n : ℕ} (ham : a ≤ m) (hm : accepts P s₀ inp m = true) (hmn : m < n)
    (hn : n ≤ m + duration P s₀ inp m) (hnb : n ≤ b) :
  ∃ p < lead P s₀ inp m + 16, m + halfBit inp m * p < n ∧ n ≤ m + halfBit inp m * (p + 1)
    ∧ Sending P s₀ inp m p (run (step P) s₀ inp n)
    ∧ ((run (step P) s₀ inp n).rZCounter = true ↔ n = m + halfBit inp m * (p + 1))
  := by
  have hhalf : halfBit inp m = (inp m).iSpeed.toNat + 1 := rfl
  have hdiv := Nat.div_add_mod (n - m - 1) (halfBit inp m)
  have hmod := Nat.mod_lt (n - m - 1) (y := halfBit inp m) (by omega)
  have hp : (n - m - 1) / halfBit inp m < lead P s₀ inp m + 16 := by
    apply Nat.div_lt_of_lt_mul
    rw [duration] at hn
    omega
  have hmul := Nat.mul_succ (halfBit inp m) ((n - m - 1) / halfBit inp m)
  rw [Nat.succ_eq_add_one] at hmul
  have hplace : m + 1 + halfBit inp m * ((n - m - 1) / halfBit inp m)
      + (n - m - 1) % halfBit inp m = n := by omega
  obtain ⟨hsend, hcount⟩ := sending hP h₀ W ham hm hp hmod (by omega)
  rw [hplace] at hsend hcount
  use (n - m - 1) / halfBit inp m, hp
  refine ⟨by omega, by omega, hsend, ?_⟩
  rw [(reached_run hP h₀ n).counter, decide_eq_true_eq, ← BitVec.toNat_inj]
  change _ = 0 ↔ _
  omega

/-- A transfer ends with its last half bit. -/
theorem sending_end {m : ℕ} (ham : a ≤ m) (hm : accepts P s₀ inp m = true)
    (hb : m + duration P s₀ inp m ≤ b) :
  (run (step P) s₀ inp (m + duration P s₀ inp m)).Bits (inp m).iByte
      (fun k => (inp (riseAt P s₀ inp m k)).iMiso) 15
    ∧ (run (step P) s₀ inp (m + duration P s₀ inp m)).rZCounter = true
  := by
  have hpos : 0 < duration P s₀ inp m := Nat.mul_pos (Nat.succ_pos _) (Nat.succ_pos _)
  obtain ⟨p, hp, -, hle, hsend, hz⟩ :=
    sending_at hP h₀ W ham hm (Nat.lt_add_of_pos_right hpos) (Nat.le_refl _) hb
  have hlast : p = lead P s₀ inp m + 15 := by
    have : lead P s₀ inp m + 16 ≤ p + 1 := by
      apply Nat.le_of_mul_le_mul_left (Nat.le_of_add_le_add_left hle) (Nat.succ_pos _)
    omega
  rw [Sending, hlast, if_neg (by omega), Nat.add_sub_cancel_left] at hsend
  use hsend
  rw [hz, hlast, duration]

/-- While a byte is sent no other one is accepted. -/
theorem oIdle_of_sending {m n : ℕ} (ham : a ≤ m) (hm : accepts P s₀ inp m = true)
    (hmn : m < n) (hnb : n ≤ b) (hn : n < m + duration P s₀ inp m) :
  (run (step P) s₀ inp n).oIdle = false
  := by
  obtain ⟨p, hp, hlt, hle, hsend, hz⟩ := sending_at hP h₀ W ham hm hmn (Nat.le_of_lt hn) hnb
  rw [oIdle, Bool.and_eq_false_iff]
  by_cases hend : n = m + halfBit inp m * (p + 1)
  · left
    have hlast : p ≠ lead P s₀ inp m + 15 := by
      rintro rfl
      rw [hend] at hn
      cases Nat.lt_irrefl _ hn
    rw [Sending] at hsend
    split_ifs at hsend with hfirst
    · apply hsend.rIdle
    · rw [hsend.rIdle, decide_eq_false_iff_not]
      omega
  · right
    rwa [← Bool.not_eq_true, hz]

/-- After a transfer the card stays selected until the next byte. -/
theorem hot_of_between {m n : ℕ} (ham : a ≤ m) (hm : accepts P s₀ inp m = true)
    (hn : m + duration P s₀ inp m < n) (hnb : n ≤ b)
    (hnone : ∀ j, m < j → j < n → accepts P s₀ inp j = false) :
  (run (step P) s₀ inp n).Hot ∧ (run (step P) s₀ inp n).rZCounter = true
  := by
  have hpos : 0 < duration P s₀ inp m := Nat.mul_pos (Nat.succ_pos _) (Nat.succ_pos _)
  obtain ⟨k, rfl⟩ := Nat.exists_eq_add_of_lt hn
  clear hn
  induction k with
  | zero =>
      obtain ⟨hbits, hz⟩ := sending_end hP h₀ W ham hm (by omega)
      have hrel := W.released_of_le (n := m + duration P s₀ inp m) (by omega) (by omega)
      have hsel := W.selected (m + duration P s₀ inp m) (by omega) (by omega)
      have hb := hnone (m + duration P s₀ inp m) (by omega) (by omega)
      constructor
      · apply hbits.end hrel hsel hz hb
      · apply (rest hrel hsel hz hb hbits.rIdle).2
  | succ k ih =>
      obtain ⟨hhot, hz⟩ := ih (by omega) (fun j hj hj' => hnone j hj (by omega))
      have hrel := W.released_of_le (n := m + duration P s₀ inp m + k + 1) (by omega) (by omega)
      have hsel := W.selected (m + duration P s₀ inp m + k + 1) (by omega) (by omega)
      have hb := hnone (m + duration P s₀ inp m + k + 1) (by omega) (by omega)
      constructor
      · apply hhot.tick hrel hsel hz hb
      · apply (rest hrel hsel hz hb hhot.rIdle).2

/-- Until the first byte nothing happens. -/
theorem cold_of_none (hcs : (run (step P) s₀ inp a).oCsN = true) {n : ℕ} (han : a ≤ n)
    (hnb : n ≤ b) (hnone : ∀ j, a ≤ j → j < n → accepts P s₀ inp j = false) :
  (run (step P) s₀ inp n).Cold
  := by
  induction han with
  | refl =>
      rcases (reached_run hP h₀ a).phased W.released.startup with h | h | ⟨c, h⟩ | ⟨c, x, q, h⟩
      · apply h
      all_goals
        rw [h.oCsN] at hcs
        cases hcs
  | @step n han ih =>
      have hcold := ih (Nat.le_of_lt hnb) (fun j hj hj' => hnone j hj (Nat.lt_succ_of_lt hj'))
      have hsel := W.selected n han hnb
      have hb := hnone n han (Nat.lt_succ_self n)
      cases hz : (run (step P) s₀ inp n).rZCounter with
      | true => apply hcold.tick (W.released_of_le han (Nat.le_of_lt hnb)) hsel hz hb
      | false => apply hcold.counting hz hsel.iReset

omit hP h₀ W in
/-- The clock of the card rises between the clock that accepts the byte and the end of its
transfer. -/
theorem riseAt_bounds {m k : ℕ} (hk : k < 8) :
  m < riseAt P s₀ inp m k ∧ riseAt P s₀ inp m k < m + duration P s₀ inp m
  := by
  have hhalf : 0 < halfBit inp m := Nat.succ_pos _
  rw [riseAt, duration]
  constructor
  · apply Nat.lt_add_of_pos_right (Nat.mul_pos hhalf (Nat.succ_pos _))
  · apply Nat.add_lt_add_left
    apply Nat.mul_lt_mul_of_pos_left (by omega) hhalf

theorem apart {m m' : ℕ} (ham : a ≤ m) (hmm : m < m') (hmb : m' < b)
    (hm : accepts P s₀ inp m = true) (hm' : accepts P s₀ inp m' = true) :
  m + duration P s₀ inp m ≤ m'
  := by
  by_contra hlt
  have hidle := oIdle_of_sending hP h₀ W ham hm hmm (Nat.le_of_lt hmb) (Nat.not_le.mp hlt)
  simp [accepts, byteAccepted, hidle] at hm'

/-- What is found at a clock: the registers before the first byte, or a last byte that has been
accepted. -/
theorem cold_or_last {n : ℕ} (han : a ≤ n) (hnb : n ≤ b) (hbegun : Begun P s₀ inp a n) :
  ((run (step P) s₀ inp n).Cold ∧ ∀ j, a ≤ j → j < n → accepts P s₀ inp j = false)
    ∨ ∃ m, a ≤ m ∧ m < n ∧ accepts P s₀ inp m = true
      ∧ ∀ j, m < j → j < n → accepts P s₀ inp j = false
  := by
  by_cases hsome : ∃ m < n, a ≤ m ∧ accepts P s₀ inp m = true
  · right
    obtain ⟨m, hmn, ⟨ham, hm⟩, hlast⟩ := exists_last hsome
    use m, ham, hmn, hm
    intro j hj hj'
    rw [← Bool.not_eq_true]
    intro hacc
    apply hlast j hj hj' ⟨by omega, hacc⟩
  · left
    have hnone : ∀ j, a ≤ j → j < n → accepts P s₀ inp j = false := by
      intro j hj hj'
      rw [← Bool.not_eq_true]
      intro hacc
      apply hsome ⟨j, hj', hj, hacc⟩
    rcases hbegun with hcs | ⟨m, ham, hmn, hm⟩
    · exact ⟨cold_of_none hP h₀ W hcs han hnb hnone, hnone⟩
    · cases hsome ⟨m, hmn, ham, hm⟩

/-- A byte whose transfer is not over yet is the last one that has been accepted. -/
theorem eq_of_last {m m' n : ℕ} (hnb : n ≤ b) (ham' : a ≤ m') (hmn : m < n)
    (hmn' : m' < n) (hm : accepts P s₀ inp m = true) (hm' : accepts P s₀ inp m' = true)
    (hlast : ∀ j, m < j → j < n → accepts P s₀ inp j = false)
    (hn : n ≤ m' + duration P s₀ inp m') :
  m' = m
  := by
  rcases Nat.lt_trichotomy m' m with hlt | heq | hgt
  · have := apart hP h₀ W ham' hlt (by omega) hm' hm
    omega
  · apply heq
  · rw [hlast m' hgt hmn'] at hm'
    cases hm'

/-- The pulses of the byte that is sent. -/
theorem sending_rises {m n : ℕ} (ham : a ≤ m) (hm : accepts P s₀ inp m = true) (hmn : m < n)
    (hn : n ≤ m + duration P s₀ inp m) (hnb : n < b) :
  rises P s₀ inp n ↔ ∃ k < 8, n = riseAt P s₀ inp m k
  := by
  have hhalf : 0 < halfBit inp m := Nat.succ_pos _
  have hrel := W.released_of_le (n := n) (by omega) (Nat.le_of_lt hnb)
  have hsel := W.selected n (by omega) hnb
  obtain ⟨p, hp, hlt, hle, hsend, hz⟩ := sending_at hP h₀ W ham hm hmn hn (Nat.le_of_lt hnb)
  rw [Sending] at hsend
  constructor
  · rintro ⟨hlow, hhigh⟩
    have hend : n = m + halfBit inp m * (p + 1) := by
      rw [← hz, ← Bool.not_eq_false]
      intro hcount
      rw [run_succ] at hhigh
      simp [step, hcount, hsel.iReset, hlow] at hhigh
    split_ifs at hsend with hfirst
    · rw [hsend.oSclk] at hlow
      cases hlow
    · rw [hsend.oSclk, decide_eq_false_iff_not] at hlow
      use (p - lead P s₀ inp m) / 2, by omega
      rw [hend, riseAt]
      congr 2
      omega
  · rintro ⟨k, hk, hrise⟩
    rw [riseAt] at hrise
    have hple : p ≤ lead P s₀ inp m + 2 * k := by
      apply Nat.le_of_lt_succ
      apply Nat.lt_of_mul_lt_mul_left (a := halfBit inp m)
      change halfBit inp m * p < halfBit inp m * (lead P s₀ inp m + 2 * k + 1)
      omega
    have hpge : lead P s₀ inp m + 2 * k + 1 ≤ p + 1 := by
      apply Nat.le_of_mul_le_mul_left (c := halfBit inp m) (by omega) hhalf
    have hq : p - lead P s₀ inp m = 2 * k := by omega
    have hend : (run (step P) s₀ inp n).rZCounter = true := by
      rw [hz, hrise, show p = lead P s₀ inp m + 2 * k by omega]
    rw [if_neg (by omega), hq] at hsend
    have hnext := hsend.tick hrel hsel hend (by omega) (by
      intro _
      rw [show 2 * k / 2 = k by omega, riseAt, ← hrise])
    constructor
    · rw [hsend.oSclk, decide_eq_false_iff_not]
      omega
    · rw [run_succ, hnext.oSclk, decide_eq_true_eq]
      omega

/-- A byte is shown after the last half bit only. -/
theorem sending_shows {m n : ℕ} (ham : a ≤ m) (hm : accepts P s₀ inp m = true) (hmn : m < n)
    (hn : n ≤ m + duration P s₀ inp m) (hnb : n < b) :
  (run (step P) s₀ inp (n + 1)).oStb = true ↔ n = m + duration P s₀ inp m
  := by
  have hrel := W.released_of_le (n := n) (by omega) (Nat.le_of_lt hnb)
  have hsel := W.selected n (by omega) hnb
  rw [run_succ]
  constructor
  · intro hstb
    obtain ⟨-, -, hend, hsclk, hlast⟩ := oStb_step hstb
    obtain ⟨p, hp, hlt, hle, hsend, hz⟩ := sending_at hP h₀ W ham hm hmn hn (Nat.le_of_lt hnb)
    rw [Sending] at hsend
    split_ifs at hsend with hfirst
    · rw [hsend.rState] at hlast
      cases (by decide : ¬ stateEnd ≤ start) hlast
    · obtain ⟨-, -, -, -, hstate, -⟩ := bitState_spec hsend.lt
      rw [hsend.rState, hstate] at hlast
      rw [hsend.oSclk, decide_eq_true_eq] at hsclk
      rw [hz.mp hend, duration, show p + 1 = lead P s₀ inp m + 16 by omega]
  · intro hend
    obtain ⟨hbits, hz⟩ := sending_end hP h₀ W ham hm (by omega)
    rw [← hend] at hbits hz
    obtain ⟨-, -, -, -, hstate, -⟩ := bitState_spec hbits.lt
    rw [oStb_tick hrel hsel hz, hbits.oSclk, hbits.rState, Bool.and_eq_true, decide_eq_true_eq,
      decide_eq_true_eq, hstate]
    omega

/-- The engine is ready for the next byte just as the last one ends. -/
theorem oIdle_iff {m n : ℕ} (ham : a ≤ m) (hmn : m < n) (hnb : n ≤ b)
    (hm : accepts P s₀ inp m = true)
    (hlast : ∀ j, m < j → j < n → accepts P s₀ inp j = false) :
  (run (step P) s₀ inp n).oIdle = true ↔ m + duration P s₀ inp m ≤ n
  := by
  constructor
  · intro hidle
    by_contra hlt
    rw [oIdle_of_sending hP h₀ W ham hm hmn hnb (Nat.not_le.mp hlt)] at hidle
    cases hidle
  · intro hle
    rcases Nat.eq_or_lt_of_le hle with rfl | hlt
    · obtain ⟨hbits, hz⟩ := sending_end hP h₀ W ham hm hnb
      simp [oIdle, hbits.rIdle, hz]
    · obtain ⟨hhot, hz⟩ := hot_of_between hP h₀ W ham hm hlt hnb hlast
      simp [oIdle, hhot.rIdle, hz]

/-- Every rising edge belongs to a byte. -/
theorem rises_iff {n : ℕ} (han : a ≤ n) (hnb : n < b) (hbegun : Begun P s₀ inp a n) :
  rises P s₀ inp n ↔ ∃ m k, a ≤ m ∧ accepts P s₀ inp m = true ∧ k < 8 ∧ n = riseAt P s₀ inp m k
  := by
  rcases cold_or_last hP h₀ W han (Nat.le_of_lt hnb) hbegun with
    ⟨hcold, hnone⟩ | ⟨m, ham, hmn, hm, hlast⟩
  · constructor
    · rintro ⟨hlow, -⟩
      rw [hcold.oSclk] at hlow
      cases hlow
    · rintro ⟨m, k, ham, hm, hk, rfl⟩
      rw [hnone m ham (riseAt_bounds hk).1] at hm
      cases hm
  · have huniq : ∀ m' k, a ≤ m' → accepts P s₀ inp m' = true → k < 8 →
        n = riseAt P s₀ inp m' k → m' = m := by
      intro m' k ham' hm' hk hrise
      have hbounds : m' < riseAt P s₀ inp m' k ∧ _ := riseAt_bounds hk
      rw [← hrise] at hbounds
      apply eq_of_last hP h₀ W (Nat.le_of_lt hnb) ham' hmn hbounds.1 hm hm' hlast
        (Nat.le_of_lt hbounds.2)
    rcases Nat.lt_or_ge (m + duration P s₀ inp m) n with hover | hle
    · have hhot := (hot_of_between hP h₀ W ham hm hover (Nat.le_of_lt hnb) hlast).1
      constructor
      · rintro ⟨hlow, -⟩
        rw [hhot.oSclk] at hlow
        cases hlow
      · rintro ⟨m', k, ham', hm', hk, hrise⟩
        rw [huniq m' k ham' hm' hk hrise] at hrise
        have hbounds : m < riseAt P s₀ inp m k ∧ _ := riseAt_bounds hk
        omega
    · rw [sending_rises hP h₀ W ham hm hmn hle hnb]
      constructor
      · rintro ⟨k, hk, hrise⟩
        use m, k
      · rintro ⟨m', k, ham', hm', hk, hrise⟩
        rw [huniq m' k ham' hm' hk hrise] at hrise
        use k

/-- Every byte that is shown belongs to one that was sent. -/
theorem oStb_iff {n : ℕ} (han : a ≤ n) (hnb : n < b) (hbegun : Begun P s₀ inp a n) :
  (run (step P) s₀ inp (n + 1)).oStb = true
    ↔ ∃ m, a ≤ m ∧ accepts P s₀ inp m = true ∧ n = m + duration P s₀ inp m
  := by
  have hpos : ∀ m, 0 < duration P s₀ inp m :=
    fun m => Nat.mul_pos (Nat.succ_pos _) (Nat.succ_pos _)
  have hsilent : (run (step P) s₀ inp n).rState = idle ∨ (run (step P) s₀ inp n).rState = hotIdle →
      (run (step P) s₀ inp (n + 1)).oStb ≠ true := by
    intro hstate hstb
    obtain ⟨-, -, -, -, hlast⟩ := oStb_step hstb
    rcases hstate with hstate | hstate
    · rw [hstate] at hlast
      cases (by decide : ¬ stateEnd ≤ idle) hlast
    · rw [hstate] at hlast
      cases (by decide : ¬ stateEnd ≤ hotIdle) hlast
  rcases cold_or_last hP h₀ W han (Nat.le_of_lt hnb) hbegun with
    ⟨hcold, hnone⟩ | ⟨m, ham, hmn, hm, hlast⟩
  · constructor
    · intro hstb
      cases hsilent (.inl hcold.rState) hstb
    · rintro ⟨m, ham, hm, rfl⟩
      rw [hnone m ham (Nat.lt_add_of_pos_right (hpos m))] at hm
      cases hm
  · have huniq : ∀ m', a ≤ m' → accepts P s₀ inp m' = true → n = m' + duration P s₀ inp m' →
        m' = m := by
      intro m' ham' hm' hend
      have := hpos m'
      apply eq_of_last hP h₀ W (Nat.le_of_lt hnb) ham' hmn (by omega) hm hm' hlast (by omega)
    rcases Nat.lt_or_ge (m + duration P s₀ inp m) n with hover | hle
    · have hhot := (hot_of_between hP h₀ W ham hm hover (Nat.le_of_lt hnb) hlast).1
      constructor
      · intro hstb
        cases hsilent (.inr hhot.rState) hstb
      · rintro ⟨m', ham', hm', hend⟩
        rw [huniq m' ham' hm' hend] at hend
        omega
    · rw [sending_shows hP h₀ W ham hm hmn hle hnb]
      constructor
      · intro hend
        use m
      · rintro ⟨m', ham', hm', hend⟩
        rwa [huniq m' ham' hm' hend] at hend

/-- A bit of the byte is on MOSI for half a bit before and half a bit after the rising edge. -/
theorem oMosi_eq {m k n : ℕ} (ham : a ≤ m) (hm : accepts P s₀ inp m = true) (hk : k < 8)
    (hnb : n ≤ b) (hfrom : riseAt P s₀ inp m k < n + halfBit inp m)
    (hto : n ≤ riseAt P s₀ inp m k + halfBit inp m) :
  (run (step P) s₀ inp n).oMosi = (inp m).iByte.getLsbD (7 - k)
  := by
  have hhalf : 0 < halfBit inp m := Nat.succ_pos _
  have hsucc : halfBit inp m * (lead P s₀ inp m + 2 * k + 1)
      = halfBit inp m * (lead P s₀ inp m + 2 * k) + halfBit inp m := Nat.mul_succ _ _
  have hsucc' : halfBit inp m * (lead P s₀ inp m + 2 * k + 2)
      = halfBit inp m * (lead P s₀ inp m + 2 * k + 1) + halfBit inp m := Nat.mul_succ _ _
  rw [riseAt] at hfrom hto
  have hdur : halfBit inp m * (lead P s₀ inp m + 2 * k + 2) ≤ duration P s₀ inp m := by
    apply Nat.mul_le_mul_left
    omega
  obtain ⟨p, hp, hlt, hle, hsend, -⟩ :=
    sending_at (n := n) hP h₀ W ham hm (by omega) (by omega) hnb
  have hple : p < lead P s₀ inp m + 2 * k + 2 := by
    apply Nat.lt_of_mul_lt_mul_left (a := halfBit inp m)
    omega
  have hpge : lead P s₀ inp m + 2 * k < p + 1 := by
    apply Nat.lt_of_mul_lt_mul_left (a := halfBit inp m)
    omega
  rw [Sending, if_neg (by omega)] at hsend
  rw [hsend.oMosi, show (p - lead P s₀ inp m) / 2 = k by omega]

/-- Chip select is asserted once a byte has been accepted. -/
theorem oCsN_iff {n : ℕ} (han : a ≤ n) (hnb : n ≤ b) (hbegun : Begun P s₀ inp a n) :
  (run (step P) s₀ inp n).oCsN = false ↔ ∃ m, a ≤ m ∧ m < n ∧ accepts P s₀ inp m = true
  := by
  rcases cold_or_last hP h₀ W han hnb hbegun with ⟨hcold, hnone⟩ | ⟨m, ham, hmn, hm, hlast⟩
  · constructor
    · intro hcs
      rw [hcold.oCsN] at hcs
      cases hcs
    · rintro ⟨m, ham, hmn, hm⟩
      rw [hnone m ham hmn] at hm
      cases hm
  · constructor
    · intro _
      use m
    · intro _
      rcases Nat.lt_or_ge (m + duration P s₀ inp m) n with hover | hle
      · apply (hot_of_between hP h₀ W ham hm hover hnb hlast).1.oCsN
      · obtain ⟨p, -, -, -, hsend, -⟩ := sending_at hP h₀ W ham hm hmn hle hnb
        rw [Sending] at hsend
        split_ifs at hsend
        · apply hsend.oCsN
        · apply hsend.oCsN

/-- The bytes that are accepted while `i_cs` is held high, once the holds have ended, are sent
and received. -/
theorem transfers :
  Transfers P s₀ inp a b
  := by
  constructor
  case apart =>
    intro m m' ham hmm hmb hm hm'
    apply apart hP h₀ W ham hmm hmb hm hm'
  case ready =>
    intro m n ham hmn hnb hm hlast
    apply oIdle_iff hP h₀ W ham hmn hnb hm hlast
  case pulses =>
    intro n han hnb hbegun
    apply rises_iff hP h₀ W han hnb hbegun
  case mosi =>
    intro m k n ham hm hk hnb hfrom hto
    apply oMosi_eq hP h₀ W ham hm hk hnb hfrom hto
  case shown =>
    intro n han hnb hbegun
    apply oStb_iff hP h₀ W han hnb hbegun
  case byte =>
    intro m k ham hm hend hk
    rw [run_succ]
    obtain ⟨hbits, hz⟩ := sending_end hP h₀ W ham hm (Nat.le_of_lt hend)
    apply hbits.oByte hz hk
  case select =>
    intro n han hnb hbegun
    apply oCsN_iff hP h₀ W han hnb hbegun

end Runs

/-- Two bytes without a gap, after short holds. -/
theorem transfers_twoBytes :
  Transfers ⟨1, 1⟩
    ⟨0, true, 0, true, 0, true, true, idle, 0, 0, false, true, 0xff, true, false⟩
    (fun n => ⟨false, 1, true, true, 0xa5, n % 3 == 0⟩) 8 80
  := by
  apply transfers
  · decide
  · constructor <;> rfl
  · constructor
    · constructor <;> decide
    · intro n _ _
      exact ⟨rfl, rfl⟩
    · intro m _ _ n _ _ _
      rfl

end Llsdspi

end ZBasic
