import ZBasic.Wbuart.Rxuartlite
import ZBasic.Wbuart.Txuartlite

/-!
# From the transmitter to the receiver

The receiver sees the line of the transmitter some clocks late. It puts out the bytes that the
transmitter accepts, each of them a fixed time later.
-/

namespace ZBasic

open Clocked
open Serial

namespace Wbuart

/-- The transmitter accepts bytes only while it is not busy, and its line carries each byte that
is accepted in a frame of its own. From the first clock on it is busy just as long as a frame is on
the line, and so ready for the next byte when the ten bits of a byte are over. The receiver, which
sees the line `d` clocks late, puts out the bytes that are accepted, each of them once and a fixed
time later. -/
theorem round_trip {tb rb : ℕ} (clocksPerBaud : BitVec tb) (rxClocksPerBaud : BitVec rb)
    (hsame : rxClocksPerBaud.toNat = clocksPerBaud.toNat) (hc : 8 ≤ clocksPerBaud.toNat)
    (inp : ℕ → Txuartlite.Input) (d : ℕ) {s₀ : Rxuartlite rb} (hs₀ : s₀.Initial) :
  let tx := run (Txuartlite.step clocksPerBaud) Txuartlite.initial inp
  let sent n := (tx n).accepts (inp n)
  let rx := run (Rxuartlite.step rxClocksPerBaud) s₀ (late d fun n => (tx n).oUartTx)
  (∀ n, (tx n).oBusy = true → ∀ i,
      (tx n).step clocksPerBaud i = (tx n).step clocksPerBaud ⟨false, 0⟩)
    ∧ Carries clocksPerBaud.toNat sent (fun n => (tx n).oUartTx)
    ∧ (∀ n, (tx (n + 1)).oBusy = (frames clocksPerBaud.toNat sent (n + 1)).isSome)
    ∧ (∀ n b, sent n = some b → (tx (n + 10 * clocksPerBaud.toNat + 1)).oBusy = false)
    ∧ ∀ n, (rx n).received = lateSent (d + (clocksPerBaud.toNat / 2 + 9 * clocksPerBaud.toNat + 4))
        sent n
  := by
  intro tx sent rx
  have hcarries : Carries clocksPerBaud.toNat sent (fun n => (tx n).oUartTx) :=
    Txuartlite.carries inp (by omega)
  refine ⟨?_, hcarries, ?_, ?_, ?_⟩
  · intro n hbusy i
    apply Txuartlite.step_of_oBusy hbusy
  · intro n
    apply Txuartlite.run_oBusy inp (by omega)
  · intro n b hsent
    apply Txuartlite.oBusy_of_sent inp (by omega) hsent
  · intro n
    have hlate := hcarries.late d
    rw [← hsame] at hlate hc
    have hreceived := Rxuartlite.received_eq hs₀ hc hlate n
    rw [lateSent_lateSent] at hreceived
    rw [hreceived]
    congr 1
    omega

/-- Letters are offered at every clock, the second one from clock 50 on. -/
def noGap (n : ℕ) : Txuartlite.Input := ⟨true, if n < 50 then 0x41 else 0x42⟩

/-- A receiver at power up. -/
def powerUp : Rxuartlite 4 where
  qUart := true
  qqUart := true
  ckUart := true
  chgCounter := BitVec.allOnes 4
  halfBaudTime := false
  state := Rxuartlite.idle
  dataReg := 0
  oWr := false
  oData := 0
  baudCounter := 0
  zeroBaudCounter := true

theorem powerUp_initial :
  powerUp.Initial
  := by constructor <;> rfl

/-- The second letter is accepted as soon as the first one has been sent. -/
theorem round_trip_noGap :
  (run (Txuartlite.step (8 : BitVec 4)) Txuartlite.initial noGap 82).oBusy = false
    ∧ ∀ n, n ≤ 163 → (run (Rxuartlite.step 8) powerUp (late 1 fun n =>
        (run (Txuartlite.step (8 : BitVec 4)) Txuartlite.initial noGap n).oUartTx) n).received
      = if n = 82 then some 0x41 else if n = 163 then some 0x42 else none
  := by
  obtain ⟨-, -, -, hready, hreceived⟩ :=
    round_trip (8 : BitVec 4) 8 rfl (by decide) noGap 1 powerUp_initial
  constructor
  · apply hready 1 0x41
    decide
  · intro n hn
    rw [hreceived n]
    revert n
    decide +kernel

end Wbuart

end ZBasic
