import Mathlib.Data.BitVec

/-!
# The byte engine of the SD card interface

`llsdspi` shifts bytes out to the card and in from it, bit by bit. Modelled is the
configuration in use, without arbitration and without a continuous clock.
-/

namespace ZBasic

/-- The registers of `llsdspi`. -/
structure Llsdspi where
  powerupCounter : ℕ
  powerupHold : Bool
  startupCounter : ℕ
  startupHold : Bool
  rClkCounter : BitVec 8
  rZCounter : Bool
  oCsN : Bool
  rState : BitVec 4
  rIreg : BitVec 8
  oByte : BitVec 8
  rIdle : Bool
  oSclk : Bool
  rByte : BitVec 8
  oMosi : Bool
  oStb : Bool

namespace Llsdspi

/-- `POWERUP_IDLE` and `STARTUP_CLOCKS` -/
structure Params where
  powerupIdle : ℕ
  startupClocks : ℕ

/-- The inputs of `llsdspi` at a clock. -/
structure Input where
  iReset : Bool
  iSpeed : BitVec 8
  iCs : Bool
  iStb : Bool
  iByte : BitVec 8
  iMiso : Bool

/-- `LLSDSPI_IDLE` -/
def idle : BitVec 4 := 0x0

/-- `LLSDSPI_HOTIDLE` -/
def hotIdle : BitVec 4 := 0x1

/-- `LLSDSPI_WAIT` -/
def wait : BitVec 4 := 0x2

/-- `LLSDSPI_START` -/
def start : BitVec 4 := 0x3

/-- `LLSDSPI_END` -/
def stateEnd : BitVec 4 := 0xb

section Step

variable (P : Params) (s : Llsdspi) (i : Input)

/-- `powerup_hold`, which without a power up time is no register. -/
def heldAtPowerup : Bool := 0 < P.powerupIdle && s.powerupHold

/-- `startup_hold`, which without startup clocks is no register. -/
def heldAtStartup : Bool := 0 < P.startupClocks && s.startupHold

/-- `o_idle` -/
def oIdle : Bool := s.rIdle && s.rZCounter

/-- `byte_accepted` -/
def byteAccepted : Bool := i.iStb && s.oIdle

/-- `restart_counter` -/
def restartCounter : Bool :=
  if s.heldAtPowerup P then false
  else s.heldAtStartup P || !i.iCs || s.byteAccepted i || !s.rIdle

/-- The next `r_state`. -/
def nextState : BitVec 4 :=
  if i.iReset then idle
  else if !s.rZCounter then s.rState
  else if !i.iCs then idle
  else if s.rState = idle then (if s.byteAccepted i then start else idle)
  else if s.rState = wait then start
  else if s.byteAccepted i then start + 1
  else if s.oSclk && start ≤ s.rState then
    (if stateEnd ≤ s.rState then hotIdle else s.rState + 1)
  else s.rState

/-- One clock of `llsdspi`. -/
def step : Llsdspi where
  powerupCounter :=
    if i.iReset then P.powerupIdle
    else if s.powerupHold then s.powerupCounter - 1
    else s.powerupCounter
  powerupHold :=
    if i.iReset then true
    else if s.powerupHold then 0 < s.powerupCounter
    else s.powerupHold
  startupCounter :=
    if i.iReset || s.heldAtPowerup P then P.startupClocks
    else if s.startupHold && s.rZCounter && !s.oSclk then s.startupCounter - 1
    else s.startupCounter
  startupHold :=
    if i.iReset || s.heldAtPowerup P then true
    else if s.startupHold && s.rZCounter && !s.oSclk then 0 < s.startupCounter
    else s.startupHold
  rClkCounter :=
    if !s.rZCounter then s.rClkCounter - 1
    else if s.restartCounter P i then i.iSpeed
    else s.rClkCounter
  rZCounter :=
    if !s.rZCounter then s.rClkCounter = 1
    else if s.restartCounter P i then i.iSpeed = 0
    else s.rZCounter
  oCsN :=
    if i.iReset then true
    else if !s.rZCounter then s.oCsN
    else if s.heldAtStartup P || !i.iCs then true
    else if s.rState = idle && s.byteAccepted i then false
    else s.oCsN
  rState := s.nextState i
  rIreg :=
    if s.rZCounter && !s.oSclk then s.rIreg.extractLsb' 0 7 ++ BitVec.ofBool i.iMiso else s.rIreg
  oByte := if s.rZCounter && s.oSclk && s.rState = stateEnd then s.rIreg else s.oByte
  rIdle :=
    if s.heldAtStartup P || i.iReset then false
    else if !s.rZCounter then s.rIdle
    else !s.byteAccepted i && (s.rState = stateEnd || s.rState = hotIdle || s.rState = idle)
  oSclk :=
    if i.iReset then true
    else if s.rZCounter && s.restartCounter P i
        && (s.heldAtStartup P || (i.iCs && !s.oCsN) || !s.oSclk) then
      s.rState = wait || !s.oSclk
    else s.oSclk
  rByte :=
    if i.iReset then 0xff
    else if !s.rZCounter then s.rByte
    else if s.byteAccepted i then
      (if s.oCsN then i.iByte else i.iByte.extractLsb' 0 7 ++ 1#1)
    else if s.oSclk then s.rByte.extractLsb' 0 7 ++ 1#1
    else s.rByte
  oMosi :=
    if i.iReset then true
    else if !s.rZCounter then s.oMosi
    else if s.byteAccepted i then s.oCsN || i.iByte.getLsbD 7
    else if s.oSclk && start ≤ s.rState && s.rState < stateEnd then s.rByte.getLsbD 7
    else if s.oSclk && !i.iCs then true
    else s.oMosi
  oStb :=
    if i.iReset || s.heldAtStartup P || !i.iCs || !s.rZCounter || !s.oSclk then false
    else stateEnd ≤ s.rState

end Step

/-! ### Bytes are apart -/

/-- Once a byte has been shown, the next one has to be shifted in first. -/
def Apart (s : Llsdspi) : Prop := s.oStb = true → s.rState ≤ start + 1

theorem oStb_step {P : Params} {s : Llsdspi} {i : Input} (h : (s.step P i).oStb = true) :
  i.iReset = false ∧ i.iCs = true ∧ s.rZCounter = true ∧ s.oSclk = true ∧ stateEnd ≤ s.rState
  := by
  simp only [step] at h
  split at h
  · cases h
  · rename_i hgo
    simp only [Bool.or_eq_true, Bool.not_eq_true', not_or, Bool.not_eq_true, Bool.not_eq_false]
      at hgo
    exact ⟨hgo.1.1.1.1, hgo.1.1.2, hgo.1.2, hgo.2, of_decide_eq_true h⟩

theorem step_apart (P : Params) (s : Llsdspi) (i : Input) :
  (s.step P i).Apart
  := by
  intro hstb
  obtain ⟨hreset, hcs, hz, hsclk, hend⟩ := oStb_step hstb
  have hall : ∀ st : BitVec 4, stateEnd ≤ st → st ≠ idle ∧ st ≠ wait ∧ start ≤ st := by decide
  obtain ⟨hidle, hwait, hstart⟩ := hall s.rState hend
  have hnext : (s.step P i).rState = if s.byteAccepted i then start + 1 else hotIdle := by
    simp [step, nextState, hreset, hcs, hz, hsclk, hidle, hwait, hstart, hend]
  rw [hnext]
  split <;> decide

/-- No byte is shown at the clock after a byte. -/
theorem Apart.step_oStb {s : Llsdspi} (h : s.Apart) (P : Params) (i : Input)
    (hstb : s.oStb = true) :
  (s.step P i).oStb = false
  := by
  have hle := h hstb
  rw [← Bool.not_eq_true]
  intro hnext
  obtain ⟨-, -, -, -, hend⟩ := oStb_step hnext
  have hall : ∀ st : BitVec 4, st ≤ start + 1 → ¬ stateEnd ≤ st := by decide
  apply hall s.rState hle hend

end Llsdspi

end ZBasic
