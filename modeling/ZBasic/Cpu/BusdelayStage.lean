import ZBasic.Cpu.Busdelay
import ZBasic.Wishbone.Stage

/-!
# The bus delay is transparent

Both forms of `busdelay` are stages of a pipelined bus that delay it by a clock either way.
The one that delays the stall holds up to two requests, the other one.
-/

namespace ZBasic

open Clocked
open Wishbone (Stage Response)

namespace Busdelay

variable {aw dw : ℕ}

/-- What the slave on the delayed bus answers, while the cycle lasts. -/
def Input.answer (i : Input aw dw) (oDlyCyc : Bool) : Option (Response (BitVec dw)) :=
  if !oDlyCyc then none
  else if i.iDlyErr then some .err
  else if i.iDlyAck then some (.ack i.iDlyData)
  else none

/-- What the master is answered. -/
def response (oWbAck oWbErr : Bool) (oWbData : BitVec dw) : Option (Response (BitVec dw)) :=
  if oWbErr then some .err else if oWbAck then some (.ack oWbData) else none

theorem isErr_answer (i : Input aw dw) (oDlyCyc : Bool) :
  Wishbone.isErr (i.answer oDlyCyc) = (oDlyCyc && i.iDlyErr)
  := by cases hcyc : oDlyCyc <;> cases herr : i.iDlyErr <;> cases hack : i.iDlyAck <;>
    simp [Input.answer, Wishbone.isErr, herr, hack]

theorem isErr_response (oWbAck oWbErr : Bool) (oWbData : BitVec dw) :
  Wishbone.isErr (response oWbAck oWbErr oWbData) = oWbErr
  := by cases oWbErr <;> cases oWbAck <;> rfl

/-- The registers with an initial value at power up. -/
structure Initial (s : Busdelay aw dw) : Prop where
  oDlyCyc : s.oDlyCyc = false
  oDlyStb : s.oDlyStb = false
  oDly : s.oDly = ⟨false, 0, 0, 0⟩
  rStb : s.rStb = false
  r : s.r = ⟨false, 0, 0, 0⟩
  oWbAck : s.oWbAck = false
  oWbErr : s.oWbErr = false

/-- The requests on their way. -/
def held (s : Busdelay aw dw) : List (BusRequest aw dw) :=
  (if s.oDlyStb then [s.oDly] else []) ++ (if s.rStb then [s.r] else [])

/-- The request that is accepted from the master. -/
def accepts (s : Busdelay aw dw) (i : Input aw dw) : Option (BusRequest aw dw) :=
  if i.iWbCyc && i.iWbStb && !s.oWbStall then some i.iWb else none

/-- The request that the slave on the delayed bus accepts. -/
def request (s : Busdelay aw dw) (i : Input aw dw) : Option (BusRequest aw dw) :=
  if s.oDlyCyc && s.oDlyStb && !i.iDlyStall then some s.oDly else none

/-- The bus delay in a run. -/
def stage (s₀ : Busdelay aw dw) (inp : ℕ → Input aw dw) :
    Stage (BusRequest aw dw) (BitVec dw) where
  upCyc n := (inp n).iWbCyc
  upRequest n := (run step s₀ inp n).accepts (inp n)
  upResponse n :=
    response (run step s₀ inp n).oWbAck (run step s₀ inp n).oWbErr (run step s₀ inp n).oWbData
  downCyc n := (run step s₀ inp n).oDlyCyc
  downRequest n := (run step s₀ inp n).request (inp n)
  downStall n := (inp n).iDlyStall
  downResponse n := (inp n).answer (run step s₀ inp n).oDlyCyc
  held n := (run step s₀ inp n).held

/-- What the strobes tell. -/
structure Strobes (s : Busdelay aw dw) : Prop where
  oDlyStb : s.oDlyStb = true → s.oDlyCyc = true
  rStb : s.rStb = true → s.oDlyStb = true
  oWbErr : s.oWbErr = true → s.oDlyCyc = false

section Step

variable {s : Busdelay aw dw} {i : Input aw dw}

theorem Strobes.step (h : s.Strobes) (hreset : i.iReset = false) :
  (s.step i).Strobes
  := by
  obtain ⟨hcyc, hstb, herr⟩ := h
  constructor
  · intro hnext
    simp only [Busdelay.step, drops, hreset] at hnext ⊢
    grind
  · intro hnext
    simp only [Busdelay.step, drops, moves, hreset] at hnext ⊢
    grind
  · intro hnext
    simp only [Busdelay.step, hreset] at hnext ⊢
    grind

/-- The requests on their way after a clock at which the cycle lasts. -/
theorem Strobes.held_step (h : s.Strobes) (hreset : i.iReset = false)
    (hlasts : (s.step i).oDlyCyc = true) :
  (s.request i).toList ++ (s.step i).held = s.held ++ (s.accepts i).toList
  := by
  rw [request, accepts]
  have hcyc : i.iWbCyc = true := by
    simp only [Busdelay.step] at hlasts
    grind
  have hdrops : s.drops i = false := by
    simp only [Busdelay.step, hreset] at hlasts
    rw [drops]
    grind
  cases hstb : s.oDlyStb with
  | false =>
      have hr : s.rStb = false := by
        by_contra hr
        rw [h.rStb (by simpa using hr)] at hstb
        cases hstb
      have hmoves : s.moves i = true := by simp [moves, hstb]
      cases hreq : i.iWbStb <;>
        simp [held, Busdelay.step, nextDly, oWbStall, hreset, hdrops, hmoves, hstb, hr, hcyc, hreq]
  | true =>
      have hup := h.oDlyStb hstb
      cases hstall : i.iDlyStall with
      | true =>
          have hmoves : s.moves i = false := by simp [moves, hstb, hstall]
          cases hr : s.rStb <;> cases hreq : i.iWbStb <;>
            simp [held, Busdelay.step, nextDly, oWbStall, hreset, hdrops, hmoves, hstb, hr, hcyc,
              hreq]
      | false =>
          have hmoves : s.moves i = true := by simp [moves, hstall]
          cases hr : s.rStb <;> cases hreq : i.iWbStb <;>
            simp [held, Busdelay.step, nextDly, oWbStall, hreset, hdrops, hmoves, hstb, hr, hcyc,
              hreq, hup]

theorem oDlyCyc_step (hreset : i.iReset = false) :
  (s.step i).oDlyCyc
    = (i.iWbCyc && !s.oWbErr && !Wishbone.isErr (i.answer s.oDlyCyc))
  := by
  rw [isErr_answer, Busdelay.step, hreset]
  cases i.iWbCyc <;> cases s.oWbErr <;> cases i.iDlyErr <;> cases s.oDlyCyc <;> rfl

/-- The response after a clock. -/
theorem Strobes.response_step (h : s.Strobes) (hreset : i.iReset = false) :
  response (s.step i).oWbAck (s.step i).oWbErr (s.step i).oWbData
    = if i.iWbCyc && !s.oWbErr then i.answer s.oDlyCyc else none
  := by
  have herr := h.oWbErr
  cases hcyc : i.iWbCyc with
  | false => simp [response, Busdelay.step, hcyc]
  | true =>
      cases hE : s.oWbErr with
      | true => simp [response, Busdelay.step, hE, herr hE]
      | false =>
          cases hup : s.oDlyCyc <;> cases hde : i.iDlyErr <;> cases hda : i.iDlyAck <;>
            simp [response, Input.answer, Busdelay.step, hreset, hcyc, hE, hup, hde, hda]

theorem Strobes.held_of_idle (h : s.Strobes) (hidle : s.oDlyCyc = false) :
  s.held = []
  := by
  have hstb : s.oDlyStb = false := by
    by_contra hstb
    rw [h.oDlyStb (by simpa using hstb)] at hidle
    cases hidle
  have hr : s.rStb = false := by
    by_contra hr
    rw [h.rStb (by simpa using hr)] at hstb
    cases hstb
  simp [held, hstb, hr]

/-- Unless the slave stalls, the first request on its way is accepted. -/
theorem Strobes.request_eq (h : s.Strobes) :
  s.request i = if i.iDlyStall then none else s.held.head?
  := by
  cases hstall : i.iDlyStall with
  | true => simp [request, hstall]
  | false =>
      cases hstb : s.oDlyStb with
      | true => simp [request, held, hstall, hstb, h.oDlyStb hstb]
      | false =>
          have hr : s.rStb = false := by
            by_contra hr
            rw [h.rStb (by simpa using hr)] at hstb
            cases hstb
          simp [request, held, hstall, hstb, hr]

end Step

section Runs

variable {s₀ : Busdelay aw dw} {inp : ℕ → Input aw dw}

theorem strobes (hs₀ : s₀.Initial) (hreset : ∀ n, (inp n).iReset = false) (n : ℕ) :
  (run step s₀ inp n).Strobes
  := by
  induction n with
  | zero => constructor <;> simp [hs₀.oDlyStb, hs₀.rStb, hs₀.oWbErr]
  | succ n ih => apply ih.step (hreset n)

/-- The bus delay delays the bus. -/
theorem stage_delays (hs₀ : s₀.Initial) (hreset : ∀ n, (inp n).iReset = false) :
  (stage s₀ inp).Delays
  := by
  have hstrobes := strobes hs₀ hreset
  constructor
  · refine ⟨hs₀.oDlyCyc, ?_, ?_⟩
    · simp [stage, response, hs₀.oWbErr, hs₀.oWbAck]
    · simp [stage, held, hs₀.oDlyStb, hs₀.rStb]
  · intro n
    simp only [stage, isErr_response]
    apply oDlyCyc_step (hreset n)
  · intro n
    simp only [stage, isErr_response]
    apply (hstrobes n).response_step (hreset n)
  · intro n hidle
    apply (hstrobes n).held_of_idle hidle
  · intro n hlasts
    apply (hstrobes n).held_step (hreset n) hlasts
  · intro n
    simp only [stage, (hstrobes n).request_eq]
    split_ifs
    · left
      rfl
    · right
      rfl
  · intro n hstall
    change (inp n).iDlyStall = false at hstall
    simp only [stage, (hstrobes n).request_eq, hstall]
    rfl
  · intro n hidle
    change (run step s₀ inp n).oDlyCyc = false at hidle
    simp [stage, Input.answer, hidle]

end Runs

/-! ### Without a delay of the stall -/

namespace Unbuffered

/-- The registers with an initial value at power up. -/
structure Initial (s : Unbuffered aw dw) : Prop where
  oDlyCyc : s.oDlyCyc = false
  oDlyStb : s.oDlyStb = false
  oDly : s.oDly = ⟨false, 0, 0, 0⟩
  oWbAck : s.oWbAck = false
  oWbErr : s.oWbErr = false

/-- The request on its way. -/
def held (s : Unbuffered aw dw) : List (BusRequest aw dw) :=
  if s.oDlyStb then [s.oDly] else []

/-- The request that is accepted from the master. -/
def accepts (s : Unbuffered aw dw) (i : Input aw dw) : Option (BusRequest aw dw) :=
  if i.iWbCyc && i.iWbStb && !s.oWbStall i then some i.iWb else none

/-- The request that the slave on the delayed bus accepts. -/
def request (s : Unbuffered aw dw) (i : Input aw dw) : Option (BusRequest aw dw) :=
  if s.oDlyCyc && s.oDlyStb && !i.iDlyStall then some s.oDly else none

/-- The bus delay in a run. -/
def stage (s₀ : Unbuffered aw dw) (inp : ℕ → Input aw dw) :
    Stage (BusRequest aw dw) (BitVec dw) where
  upCyc n := (inp n).iWbCyc
  upRequest n := (run step s₀ inp n).accepts (inp n)
  upResponse n :=
    response (run step s₀ inp n).oWbAck (run step s₀ inp n).oWbErr (run step s₀ inp n).oWbData
  downCyc n := (run step s₀ inp n).oDlyCyc
  downRequest n := (run step s₀ inp n).request (inp n)
  downStall n := (inp n).iDlyStall
  downResponse n := (inp n).answer (run step s₀ inp n).oDlyCyc
  held n := (run step s₀ inp n).held

/-- What the strobes tell. -/
structure Strobes (s : Unbuffered aw dw) : Prop where
  oDlyStb : s.oDlyStb = true → s.oDlyCyc = true
  oWbErr : s.oWbErr = true → s.oDlyCyc = false

section Step

variable {s : Unbuffered aw dw} {i : Input aw dw}

theorem Strobes.step (h : s.Strobes) (hreset : i.iReset = false) :
  (s.step i).Strobes
  := by
  obtain ⟨hstb, herr⟩ := h
  constructor
  · intro hnext
    simp only [Unbuffered.step, hreset] at hnext ⊢
    grind
  · intro hnext
    simp only [Unbuffered.step, hreset] at hnext ⊢
    grind

theorem oDlyCyc_step (hreset : i.iReset = false) :
  (s.step i).oDlyCyc
    = (i.iWbCyc && !s.oWbErr && !Wishbone.isErr (i.answer s.oDlyCyc))
  := by
  rw [isErr_answer, Unbuffered.step, hreset]
  cases i.iWbCyc <;> cases s.oWbErr <;> cases i.iDlyErr <;> cases s.oDlyCyc <;> rfl

/-- The response after a clock. -/
theorem Strobes.response_step (h : s.Strobes) (hreset : i.iReset = false) :
  response (s.step i).oWbAck (s.step i).oWbErr (s.step i).oWbData
    = if i.iWbCyc && !s.oWbErr then i.answer s.oDlyCyc else none
  := by
  have herr := h.oWbErr
  cases hE : s.oWbErr with
  | true => simp [response, Unbuffered.step, hreset, hE, herr hE]
  | false =>
      cases hcyc : i.iWbCyc <;> cases hup : s.oDlyCyc <;> cases hde : i.iDlyErr <;>
        cases hda : i.iDlyAck <;>
        simp [response, Input.answer, Unbuffered.step, hreset, hcyc, hE, hup, hde, hda]

/-- The requests on their way after a clock at which the cycle lasts. -/
theorem Strobes.held_step (h : s.Strobes) (hreset : i.iReset = false)
    (hlasts : (s.step i).oDlyCyc = true) :
  (s.request i).toList ++ (s.step i).held = s.held ++ (s.accepts i).toList
  := by
  rw [oDlyCyc_step hreset, isErr_answer] at hlasts
  simp only [Bool.and_eq_true, Bool.not_eq_true', Bool.and_eq_false_iff] at hlasts
  obtain ⟨⟨hcyc, hE⟩, hnone⟩ := hlasts
  have herr : (i.iDlyErr && s.oDlyCyc) = false := by
    rcases hnone with hnone | hnone <;> simp [hnone]
  cases hstb : s.oDlyStb with
  | false =>
      cases hreq : i.iWbStb <;>
        simp [request, accepts, held, Unbuffered.step, oWbStall, hreset, herr, hE, hstb, hcyc, hreq]
  | true =>
      have hup := h.oDlyStb hstb
      rw [hup, Bool.and_true] at herr
      cases hstall : i.iDlyStall <;> cases hreq : i.iWbStb <;>
        simp [request, accepts, held, Unbuffered.step, oWbStall, hreset, herr, hE, hstb, hcyc,
          hreq, hstall, hup]

theorem Strobes.held_of_idle (h : s.Strobes) (hidle : s.oDlyCyc = false) :
  s.held = []
  := by
  have hstb : s.oDlyStb = false := by
    by_contra hstb
    rw [h.oDlyStb (by simpa using hstb)] at hidle
    cases hidle
  simp [held, hstb]

/-- Unless the slave stalls, the request on its way is accepted. -/
theorem Strobes.request_eq (h : s.Strobes) :
  s.request i = if i.iDlyStall then none else s.held.head?
  := by
  cases hstall : i.iDlyStall <;> cases hstb : s.oDlyStb
  · simp [request, held, hstb]
  · simp [request, held, hstall, hstb, h.oDlyStb hstb]
  · simp [request, hstall]
  · simp [request, hstall]

end Step

section Runs

variable {s₀ : Unbuffered aw dw} {inp : ℕ → Input aw dw}

theorem strobes (hs₀ : s₀.Initial) (hreset : ∀ n, (inp n).iReset = false) (n : ℕ) :
  (run step s₀ inp n).Strobes
  := by
  induction n with
  | zero => constructor <;> simp [hs₀.oDlyStb, hs₀.oWbErr]
  | succ n ih => apply ih.step (hreset n)

/-- The bus delay delays the bus. -/
theorem stage_delays (hs₀ : s₀.Initial) (hreset : ∀ n, (inp n).iReset = false) :
  (stage s₀ inp).Delays
  := by
  have hstrobes := strobes hs₀ hreset
  constructor
  · refine ⟨hs₀.oDlyCyc, ?_, ?_⟩
    · simp [stage, response, hs₀.oWbErr, hs₀.oWbAck]
    · simp [stage, held, hs₀.oDlyStb]
  · intro n
    simp only [stage, isErr_response]
    apply oDlyCyc_step (hreset n)
  · intro n
    simp only [stage, isErr_response]
    apply (hstrobes n).response_step (hreset n)
  · intro n hidle
    apply (hstrobes n).held_of_idle hidle
  · intro n hlasts
    apply (hstrobes n).held_step (hreset n) hlasts
  · intro n
    simp only [stage, (hstrobes n).request_eq]
    split_ifs
    · left
      rfl
    · right
      rfl
  · intro n hstall
    change (inp n).iDlyStall = false at hstall
    simp only [stage, (hstrobes n).request_eq, hstall]
    rfl
  · intro n hidle
    change (run step s₀ inp n).oDlyCyc = false at hidle
    simp [stage, Input.answer, hidle]

end Runs

end Unbuffered

/-! ### Transparency -/

/-- Either form of the bus delay is transparent to every master that ends its cycle at the
clock after an error, whatever the slave does. -/
theorem delay_transparent {inp : ℕ → Input aw dw} (hreset : ∀ n, (inp n).iReset = false) :
  (∀ s₀ : Busdelay aw dw, s₀.Initial → (stage s₀ inp).Yields → (stage s₀ inp).Transparent)
    ∧ ∀ s₀ : Unbuffered aw dw, s₀.Initial → (Unbuffered.stage s₀ inp).Yields →
      (Unbuffered.stage s₀ inp).Transparent
  := by
  constructor
  · intro s₀ hs₀ hyields
    apply (stage_delays hs₀ hreset).transparent hyields
  · intro s₀ hs₀ hyields
    apply (Unbuffered.stage_delays hs₀ hreset).transparent hyields

/-- The bus delay at power up, with and without a delay of the stall. -/
def powerUp : Busdelay 30 32 where
  oDlyCyc := false
  oDlyStb := false
  oDly := ⟨false, 0, 0, 0⟩
  rStb := false
  r := ⟨false, 0, 0, 0⟩
  oWbAck := false
  oWbData := 0
  oWbErr := false

def Unbuffered.powerUp : Unbuffered 30 32 where
  oDlyCyc := false
  oDlyStb := false
  oDly := ⟨false, 0, 0, 0⟩
  oWbAck := false
  oWbData := 0
  oWbErr := false

/-- Reads at four clocks, of which the first is answered at clock 3, and the second with an error
at clock 4. The master has it at clock 5 and ends its cycle. -/
def failsOnce (n : ℕ) : Input 30 32 where
  iReset := false
  iWbCyc := n < 6
  iWbStb := n < 4
  iWb := ⟨false, 16 + BitVec.ofNat 30 n, 0, 15⟩
  iDlyStall := n == 2
  iDlyAck := n == 3
  iDlyData := 7
  iDlyErr := n == 4

theorem delay_transparent_failsOnce :
  (stage powerUp failsOnce).returned 0 7 = [.ack 7, .err]
    ∧ (stage powerUp failsOnce).downRequest 5 = none
    ∧ (Unbuffered.stage Unbuffered.powerUp failsOnce).returned 0 7 = [.ack 7, .err]
    ∧ (Unbuffered.stage Unbuffered.powerUp failsOnce).downRequest 5 = none
  := by
  have hreset : ∀ n, (failsOnce n).iReset = false := fun _ => rfl
  obtain ⟨hbuffered, hunbuffered⟩ := delay_transparent hreset
  have hcyc : ∀ n, (failsOnce n).iWbCyc = true → n < 6 := by
    intro n hn
    apply of_decide_eq_true hn
  have hyields : (stage powerUp failsOnce).Yields := by
    intro n hup
    have hall : ∀ n < 6, Wishbone.isErr ((stage powerUp failsOnce).upResponse n) = true →
        (stage powerUp failsOnce).upCyc (n + 1) = false := by decide
    apply hall n (hcyc n hup)
  have hyields' : (Unbuffered.stage Unbuffered.powerUp failsOnce).Yields := by
    intro n hup
    have hall : ∀ n < 6,
        Wishbone.isErr ((Unbuffered.stage Unbuffered.powerUp failsOnce).upResponse n) = true →
        (Unbuffered.stage Unbuffered.powerUp failsOnce).upCyc (n + 1) = false := by decide
    apply hall n (hcyc n hup)
  have h := hbuffered powerUp (by constructor <;> rfl) hyields
  have h' := hunbuffered Unbuffered.powerUp (by constructor <;> rfl) hyields'
  have hlasts : (stage powerUp failsOnce).Lasts 0 6 := ⟨Or.inl rfl, by decide⟩
  have hlasts' : (Unbuffered.stage Unbuffered.powerUp failsOnce).Lasts 0 6 :=
    ⟨Or.inl rfl, by decide⟩
  constructor
  · rw [h.returns 0 6 hlasts]
    decide
  · constructor
    · apply (h.ends 0 6 hlasts 4 (by decide) (by decide) 5 (by decide) (by decide)).1
    · constructor
      · rw [h'.returns 0 6 hlasts']
        decide
      · apply (h'.ends 0 6 hlasts' 4 (by decide) (by decide) 5 (by decide) (by decide)).1

/-- The master goes on after an error. -/
def goesOn (n : ℕ) : Input 30 32 where
  iReset := false
  iWbCyc := true
  iWbStb := true
  iWb := ⟨false, 16, 0, 15⟩
  iDlyStall := false
  iDlyAck := false
  iDlyData := 0
  iDlyErr := n == 2

/-- A request of a cycle that ended in an error is accepted by the slave. -/
theorem delay_not_transparent :
  ¬ (stage powerUp goesOn).Transparent
    ∧ ¬ (Unbuffered.stage Unbuffered.powerUp goesOn).Transparent
  := by
  constructor
  · intro h
    have := (h.ends 0 5 ⟨Or.inl rfl, fun _ _ => rfl⟩ 2 (by decide) (by decide) 5 (by decide)
      (by decide)).1
    revert this
    decide
  · intro h
    have := (h.ends 0 5 ⟨Or.inl rfl, fun _ _ => rfl⟩ 2 (by decide) (by decide) 5 (by decide)
      (by decide)).1
    revert this
    decide

end Busdelay

end ZBasic
