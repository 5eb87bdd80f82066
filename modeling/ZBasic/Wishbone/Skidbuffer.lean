import ZBasic.Clocked.Elastic

/-!
# Skid buffers

`skidbuffer` passes words from a sender to a receiver that may stall. As its options say, it is a
pair of wires, a register that is used when the receiver stalls, or such a register and a register
at the output. All of these deliver the same words.
-/

namespace ZBasic

open Clocked

/-- The registers of `skidbuffer`. The last two are there with `OPT_OUTREG` only. -/
structure Skidbuffer (dw : ℕ) where
  rValid : Bool
  rData : BitVec dw
  regValid : Bool
  regData : BitVec dw

namespace Skidbuffer

/-- The options of `skidbuffer`. -/
structure Options where
  optLowpower : Bool
  optOutreg : Bool
  optPassthrough : Bool

/-- The inputs of `skidbuffer` at a clock. -/
structure Input (dw : ℕ) where
  iReset : Bool
  iValid : Bool
  iData : BitVec dw
  iReady : Bool

variable {dw : ℕ} (P : Options)

section Step

variable (s : Skidbuffer dw) (i : Input dw)

/-- `o_ready` -/
def oReady : Bool := if P.optPassthrough then i.iReady else !s.rValid

/-- `o_valid` -/
def oValid : Bool :=
  if P.optPassthrough then i.iValid
  else if !P.optOutreg then !i.iReset && (i.iValid || s.rValid)
  else s.regValid

/-- `o_data` -/
def oData : BitVec dw :=
  if P.optPassthrough then (if !i.iValid && P.optLowpower then 0 else i.iData)
  else if !P.optOutreg then
    if s.rValid then s.rData else if !P.optLowpower || i.iValid then i.iData else 0
  else s.regData

/-- One clock of `skidbuffer`. -/
def step : Skidbuffer dw where
  rValid :=
    if P.optPassthrough then s.rValid
    else if i.iReset then false
    else if (i.iValid && s.oReady P i) && (s.oValid P i && !i.iReady) then true
    else if i.iReady then false
    else s.rValid
  rData :=
    if P.optPassthrough then 0
    else if P.optLowpower && i.iReset then 0
    else if P.optLowpower && (!s.oValid P i || i.iReady) then 0
    else if (!P.optLowpower || !P.optOutreg || i.iValid) && s.oReady P i then i.iData
    else s.rData
  regValid :=
    if P.optPassthrough || !P.optOutreg then s.regValid
    else if i.iReset then false
    else if !s.oValid P i || i.iReady then i.iValid || s.rValid
    else s.regValid
  regData :=
    if P.optPassthrough || !P.optOutreg then s.regData
    else if P.optLowpower && i.iReset then 0
    else if !s.oValid P i || i.iReady then
      if s.rValid then s.rData else if !P.optLowpower || i.iValid then i.iData else 0
    else s.regData

end Step

/-- The state at power-up. -/
structure Initial (s : Skidbuffer dw) : Prop where
  rValid : s.rValid = false
  rData : s.rData = 0
  regValid : s.regValid = false
  regData : s.regData = 0

/-! ### What is held -/

/-- The words that are held, the oldest first. -/
def held (s : Skidbuffer dw) : List (BitVec dw) :=
  if P.optPassthrough then []
  else (if P.optOutreg && s.regValid then [s.regData] else [])
    ++ if s.rValid then [s.rData] else []

/-- The word that is taken in. -/
def accepted (s : Skidbuffer dw) (i : Input dw) : List (BitVec dw) :=
  if i.iValid && s.oReady P i then [i.iData] else []

/-- The word that is let out. -/
def delivered (s : Skidbuffer dw) (i : Input dw) : List (BitVec dw) :=
  if s.oValid P i && i.iReady then [s.oData P i] else []

/-- The first register is used only when the output register is, and what is not used is zero if it
has to be. -/
structure Inv (s : Skidbuffer dw) : Prop where
  passthrough : P.optPassthrough = true → s.rValid = false
  full : P.optPassthrough = false → P.optOutreg = true → s.rValid = true → s.regValid = true
  zero : P.optPassthrough = false → P.optOutreg = true → P.optLowpower = true →
    s.regValid = false → s.regData = 0

variable {P} {s : Skidbuffer dw} {i : Input dw}

theorem Initial.inv (h : s.Initial) :
  Inv P s
  := by
  constructor
  · intro _
    apply h.rValid
  · intro _ _ hvalid
    rw [h.rValid] at hvalid
    cases hvalid
  · intro _ _ _ _
    apply h.regData

theorem Initial.held (h : s.Initial) :
  held P s = []
  := by simp [Skidbuffer.held, h.rValid, h.regValid]

theorem Inv.step (h : Inv P s) :
  Inv P (step P s i)
  := by
  constructor
  · intro hpass
    simp [Skidbuffer.step, hpass, h.passthrough hpass]
  · intro hpass hout
    have hfull := h.full hpass hout
    simp only [Skidbuffer.step, oReady, oValid, hpass, hout]
    grind
  · intro hpass hout hlow
    simp only [Skidbuffer.step, oReady, oValid, hpass, hout, hlow]
    have hzero := h.zero hpass hout hlow
    grind

/-- A reset empties the buffer. -/
theorem held_reset (hreset : i.iReset = true) :
  held P (step P s i) = []
  := by
  cases hpass : P.optPassthrough with
  | true => simp [held, hpass]
  | false => cases hout : P.optOutreg <;> simp [held, step, hpass, hout, hreset]

/-- What goes in comes out or is held. -/
theorem Inv.conserves (h : Inv P s) (hreset : i.iReset = false) :
  delivered P s i ++ held P (Skidbuffer.step P s i) = held P s ++ accepted P s i
  := by
  cases hpass : P.optPassthrough with
  | true =>
      cases hv : i.iValid <;> cases hr : i.iReady <;>
        simp [held, delivered, accepted, oValid, oReady, oData, hpass, hv, hr]
  | false =>
      cases hout : P.optOutreg with
      | false =>
          -- Only the first register is there.
          cases hr : s.rValid <;> cases hv : i.iValid <;> cases hready : i.iReady <;>
            simp [held, delivered, accepted, Skidbuffer.step, oValid, oReady, oData, hpass, hout,
              hreset, hr, hv, hready]
      | true =>
          have hfull := h.full hpass hout
          cases hr : s.rValid with
          | true =>
              have hq := hfull hr
              cases hready : i.iReady <;>
                simp [held, delivered, accepted, Skidbuffer.step, oValid, oReady, oData, hpass,
                  hout, hreset, hr, hq, hready]
          | false =>
              cases hq : s.regValid <;> cases hv : i.iValid <;> cases hready : i.iReady <;>
                simp [held, delivered, accepted, Skidbuffer.step, oValid, oReady, oData, hpass,
                  hout, hreset, hr, hq, hv, hready]

/-- A word that is held is offered. -/
theorem Inv.offers (h : Inv P s) (hreset : i.iReset = false) (hheld : held P s ≠ []) :
  s.oValid P i = true
  := by
  cases hpass : P.optPassthrough with
  | true => simp [held, hpass] at hheld
  | false =>
      cases hout : P.optOutreg with
      | false =>
          have hr : s.rValid = true := by simpa [held, hpass, hout] using hheld
          simp [oValid, hpass, hout, hreset, hr]
      | true =>
          have hq : s.regValid = true := by
            by_contra hq
            have hr : s.rValid = true := by simpa [held, hpass, hout, hq] using hheld
            apply hq (h.full hpass hout hr)
          simp [oValid, hpass, hout, hq]

/-- A word that is offered stays until it is taken. -/
theorem persists {i' : Input dw} (hreset : i.iReset = false)
    (hreset' : i'.iReset = false)
    (hup : i.iValid = true → s.oReady P i = false → i'.iValid = true ∧ i'.iData = i.iData)
    (hvalid : s.oValid P i = true) (hready : i.iReady = false) :
  (Skidbuffer.step P s i).oValid P i' = true
    ∧ (Skidbuffer.step P s i).oData P i' = s.oData P i
  := by
  cases hpass : P.optPassthrough with
  | true =>
      simp only [oValid, oReady, hpass, if_true] at hvalid hup
      obtain ⟨hvalid', hdata⟩ := hup hvalid hready
      simp [oValid, oData, hpass, hvalid, hvalid', hdata]
  | false =>
      cases hout : P.optOutreg with
      | false =>
          cases hr : s.rValid with
          | true =>
              simp [Skidbuffer.step, oValid, oReady, oData, hpass, hout, hreset, hreset', hready, hr]
          | false =>
              have hv : i.iValid = true := by
                simpa [oValid, hpass, hout, hreset, hr] using hvalid
              simp [Skidbuffer.step, oValid, oReady, oData, hpass, hout, hreset, hreset', hready, hr,
                hv]
      | true =>
          have hq : s.regValid = true := by simpa [oValid, hpass, hout] using hvalid
          simp [Skidbuffer.step, oValid, oData, hpass, hout, hreset, hready, hq]

/-- With `OPT_LOWPOWER` the data is zero where there is none. -/
theorem Inv.quiet (h : Inv P s) (hlow : P.optLowpower = true)
    (hreset : P.optPassthrough = true ∨ P.optOutreg = true ∨ i.iReset = false)
    (hvalid : s.oValid P i = false) :
  s.oData P i = 0
  := by
  cases hpass : P.optPassthrough with
  | true =>
      have hv : i.iValid = false := by simpa [oValid, hpass] using hvalid
      simp [oData, hpass, hlow, hv]
  | false =>
      cases hout : P.optOutreg with
      | false =>
          have hno : i.iReset = false := by simpa [hpass, hout] using hreset
          obtain ⟨hv, hr⟩ : i.iValid = false ∧ s.rValid = false := by
            simpa [oValid, hpass, hout, hno] using hvalid
          simp [oData, hpass, hout, hlow, hv, hr]
      | true =>
          have hq : s.regValid = false := by simpa [oValid, hpass, hout] using hvalid
          simpa [oData, hpass, hout] using h.zero hpass hout hlow hq

/-- A receiver that is ready makes room for the next word, and the word before is offered. -/
theorem sustained {i' : Input dw} (hreset : i.iReset = false) (hreset' : i'.iReset = false)
    (hready : i.iReady = true) (hready' : i'.iReady = true) (hvalid : i.iValid = true)
    (hvalid' : i'.iValid = true) :
  (step P s i).oReady P i' = true ∧ (step P s i).oValid P i' = true
  := by
  cases hpass : P.optPassthrough with
  | true => simp [oReady, oValid, hpass, hready', hvalid']
  | false =>
      cases hout : P.optOutreg <;>
        simp [step, oReady, oValid, hpass, hout, hreset, hreset', hready, hvalid, hvalid']

/-! ### Runs -/

section Runs

variable (P) (s₀ : Skidbuffer dw) (inp : ℕ → Input dw)

/-- The clocks of the resets. -/
def resetAt (n : ℕ) : Bool := (inp n).iReset

/-- The channel from the sender. -/
def up : Channel (BitVec dw) where
  valid n := (inp n).iValid
  ready n := (run (step P) s₀ inp n).oReady P (inp n)
  data n := (inp n).iData

/-- The channel to the receiver. -/
def down : Channel (BitVec dw) where
  valid n := (run (step P) s₀ inp n).oValid P (inp n)
  ready n := (inp n).iReady
  data n := (run (step P) s₀ inp n).oData P (inp n)

/-- The words that were taken in since the last reset. -/
def wordsIn : ℕ → List (BitVec dw) := logSince (resetAt inp) (up P s₀ inp).transfer

/-- The words that were let out since the last reset. -/
def wordsOut : ℕ → List (BitVec dw) := logSince (resetAt inp) (down P s₀ inp).transfer

/-- The words that go out are those that come in, in order, and all of them if the receiver is ready
again and again. An offer stays until it is taken; with `OPT_LOWPOWER` there is no data without an
offer. As long as the receiver is ready, a word goes in and a word comes out at each clock. -/
structure Buffers : Prop where
  inOrder : ∀ n, wordsOut P s₀ inp n <+: wordsIn P s₀ inp n
  complete : ∀ n, (∀ j, n ≤ j → (inp j).iReset = false) →
    (∀ j, ∃ m, j ≤ m ∧ (inp m).iReady = true) →
    ∃ m, n ≤ m ∧ wordsIn P s₀ inp n <+: wordsOut P s₀ inp m
  persists : (down P s₀ inp).Persists (resetAt inp)
  quiet : P.optLowpower = true → ∀ n,
    P.optPassthrough = true ∨ P.optOutreg = true ∨ (inp n).iReset = false →
    (down P s₀ inp).valid n = false → (down P s₀ inp).data n = 0
  sustained : ∀ n, (inp n).iReset = false → (inp (n + 1)).iReset = false →
    (inp n).iReady = true → (inp (n + 1)).iReady = true →
    (inp n).iValid = true → (inp (n + 1)).iValid = true →
    (up P s₀ inp).ready (n + 1) = true ∧ (down P s₀ inp).valid (n + 1) = true

variable {P s₀ inp}

theorem inv_run (h₀ : s₀.Initial) (n : ℕ) :
  Inv P (run (step P) s₀ inp n)
  := run_induction h₀.inv (fun _ _ h => h.step) n

theorem elastic (h₀ : s₀.Initial) :
  Elastic (resetAt inp) (up P s₀ inp) (down P s₀ inp) (fun n => held P (run (step P) s₀ inp n))
  := by
  constructor
  case start => apply h₀.held
  case emptied =>
    intro n hreset
    apply held_reset hreset
  case conserves =>
    intro n hreset
    apply (inv_run h₀ n).conserves hreset
  case offers =>
    intro n hreset hheld
    apply (inv_run h₀ n).offers hreset hheld

theorem buffers (h₀ : s₀.Initial) (hup : (up P s₀ inp).Persists (resetAt inp)) :
  Buffers P s₀ inp
  := by
  constructor
  case inOrder => apply (elastic h₀).in_order
  case complete =>
    intro n hreset hfair
    apply (elastic h₀).complete hreset hfair
  case persists =>
    intro n hreset hreset' hvalid hready
    apply Skidbuffer.persists hreset hreset' (hup n hreset hreset') hvalid hready
  case quiet =>
    intro hlow n hreset hvalid
    apply (inv_run h₀ n).quiet hlow hreset hvalid
  case sustained =>
    intro n hreset hreset' hready hready' hvalid hvalid'
    apply Skidbuffer.sustained hreset hreset' hready hready' hvalid hvalid'

/-- Buffers of any options work, and two to which the same words are sent deliver the same words. -/
theorem buffers_alike {P' : Options} {s₀' : Skidbuffer dw} {inp' : ℕ → Input dw}
    (h₀ : s₀.Initial) (h₀' : s₀'.Initial) (hup : (up P s₀ inp).Persists (resetAt inp))
    (hup' : (up P' s₀' inp').Persists (resetAt inp')) :
  Buffers P s₀ inp ∧ Buffers P' s₀' inp'
    ∧ ((∀ n n', wordsIn P s₀ inp n <+: wordsIn P' s₀' inp' n'
        ∨ wordsIn P' s₀' inp' n' <+: wordsIn P s₀ inp n) →
      ∀ n n', wordsOut P s₀ inp n <+: wordsOut P' s₀' inp' n'
        ∨ wordsOut P' s₀' inp' n' <+: wordsOut P s₀ inp n)
  := by
  have h := buffers h₀ hup
  have h' := buffers h₀' hup'
  refine ⟨h, h', ?_⟩
  intro hsame n n'
  rcases hsame n n' with hle | hle
  · apply List.prefix_or_prefix_of_prefix ((h.inOrder n).trans hle) (h'.inOrder n')
  · apply List.prefix_or_prefix_of_prefix (h.inOrder n) ((h'.inOrder n').trans hle)

end Runs

/-! ### A sender -/

section Sender

/-- The buffer without a word. -/
def empty : Skidbuffer dw := ⟨false, 0, false, 0⟩

theorem empty_initial : (empty : Skidbuffer dw).Initial := ⟨rfl, rfl, rfl, rfl⟩

variable (P) (word : ℕ → BitVec dw) (ready : ℕ → Bool)

/-- The buffer before clock `n`, and how many words it has taken, where the sender always has the
next of the words. -/
def sends : ℕ → Skidbuffer dw × ℕ
  | 0 => (empty, 0)
  | n + 1 =>
      let (s, taken) := sends n
      let i : Input dw := ⟨false, true, word taken, ready n⟩
      (step P s i, taken + (s.oReady P i).toNat)

/-- The inputs of the buffer with this sender. -/
def sender (n : ℕ) : Input dw := ⟨false, true, word (sends P word ready n).2, ready n⟩

variable {P word ready}

theorem run_sender (n : ℕ) :
  run (step P) empty (sender P word ready) n = (sends P word ready n).1
  := by
  induction n with
  | zero => rfl
  | succ n ih =>
      rw [run_succ, ih]
      rfl

/-- The sender goes on to the next word when its word is taken, and not before. -/
theorem sends_taken (n : ℕ) :
  (sends P word ready (n + 1)).2
    = (sends P word ready n).2 + ((up P empty (sender P word ready)).ready n).toNat
  := by
  simp only [up, run_sender]
  rfl

theorem persists_sender :
  (up P empty (sender P word ready)).Persists (resetAt (sender P word ready))
  := by
  intro n _ _ _ hready
  use rfl
  simp only [up, sender]
  rw [sends_taken, hready]
  rfl

theorem wordsIn_sender (n : ℕ) :
  wordsIn P empty (sender P word ready) n = (List.range (sends P word ready n).2).map word
  := by
  induction n with
  | zero => rfl
  | succ n ih =>
      have htransfer : (up P empty (sender P word ready)).transfer n
          = if (up P empty (sender P word ready)).ready n
            then [word (sends P word ready n).2] else [] := rfl
      rw [wordsIn, logSince, if_neg (by apply Bool.false_ne_true), ← wordsIn, ih, htransfer,
        sends_taken]
      cases (up P empty (sender P word ready)).ready n with
      | true => simp [List.range_succ]
      | false => simp

/-- Two senders of the same words. -/
theorem wordsIn_alike {P' : Options} {ready' : ℕ → Bool} (n n' : ℕ) :
  wordsIn P empty (sender P word ready) n <+: wordsIn P' empty (sender P' word ready') n'
    ∨ wordsIn P' empty (sender P' word ready') n' <+: wordsIn P empty (sender P word ready) n
  := by
  rw [wordsIn_sender, wordsIn_sender]
  rcases Nat.le_total (sends P word ready n).2 (sends P' word ready' n').2 with hle | hle
  · left
    apply List.IsPrefix.map
    rw [← Nat.min_eq_left hle, ← List.take_range]
    apply List.take_prefix
  · right
    apply List.IsPrefix.map
    rw [← Nat.min_eq_left hle, ← List.take_range]
    apply List.take_prefix

end Sender

/-- The words 0, 1, 2, … for a buffer with an output register, whose receiver is ready at every
other clock. -/
def everyOther : ℕ → Input 8 :=
  sender ⟨false, true, false⟩ (BitVec.ofNat 8) (fun n => n % 2 == 0)

/-- The same words for a buffer without an output register, whose receiver stalls at every third
clock. -/
def twoOfThree : ℕ → Input 8 :=
  sender ⟨true, false, false⟩ (BitVec.ofNat 8) (fun n => n % 3 != 0)

theorem buffers_alike_counting :
  Buffers ⟨false, true, false⟩ empty everyOther ∧ Buffers ⟨true, false, false⟩ empty twoOfThree
    ∧ (∀ n n', wordsOut ⟨false, true, false⟩ empty everyOther n
        <+: wordsOut ⟨true, false, false⟩ empty twoOfThree n'
      ∨ wordsOut ⟨true, false, false⟩ empty twoOfThree n'
        <+: wordsOut ⟨false, true, false⟩ empty everyOther n)
    ∧ wordsOut ⟨false, true, false⟩ empty everyOther 9 = [0, 1, 2, 3]
    ∧ wordsOut ⟨true, false, false⟩ empty twoOfThree 9 = [0, 1, 2, 3, 4, 5]
  := by
  have hup : (up ⟨false, true, false⟩ empty everyOther).Persists (resetAt everyOther) :=
    persists_sender
  have hup' : (up ⟨true, false, false⟩ empty twoOfThree).Persists (resetAt twoOfThree) :=
    persists_sender
  obtain ⟨h, h', halike⟩ := buffers_alike empty_initial empty_initial hup hup'
  refine ⟨h, h', halike wordsIn_alike, ?_, ?_⟩
  · decide
  · decide

end Skidbuffer

end ZBasic
