import ZBasic.Clocked.Bits
import ZBasic.Clocked.Run
import ZBasic.Wbubus.Exec
import Mathlib.Data.Nat.Count
import Mathlib.Tactic.SplitIfs
import Mathlib.Tactic.Use

/-!
# Idle and interrupt notices

`wbuidleint` passes the codewords of responses on to the transmitter, and puts notices of
its own between them: one that the interrupt line was raised, and, each time nothing has
happened for long, one that the bus is idle or busy. The interrupt line is meant to be told
of once each time it is raised. It is, as long as it is low again when its notice leaves.
-/

namespace ZBasic

open Clocked

namespace Codeword

/-- `o_codword[35:30]`, the kind of a codeword that carries no data. -/
def kind (w : Codeword) : BitVec 6 := w.extractLsb' 30 6

/-- The kinds of notices are kept out of responses. -/
def isResponse (w : Codeword) : Bool := w.kind != 0 && w.kind != 1 && w.kind != 4

end Codeword

/-- The registers of `wbuidleint`, with a counter of `idlebits` bits. -/
structure Wbuidleint (idlebits : ℕ) where
  intRequest : Bool
  intSent : Bool
  idleState : Bool
  idleCounter : BitVec idlebits
  oStb : Bool
  oCodword : Codeword

namespace Wbuidleint

open Codeword

variable {idlebits : ℕ}

/-- The inputs of `wbuidleint` at a clock. -/
structure Input where
  iStb : Bool
  iCodword : Codeword
  iCyc : Bool
  iBusy : Bool
  iInt : Bool
  iTxBusy : Bool

section Source

variable (s : Wbuidleint idlebits) (i : Input)

/-- `CW_INTERRUPT[35:30]` -/
def cwInterrupt : BitVec 6 := 0x4

/-- `CW_BUSBUSY[35:30]` -/
def cwBusbusy : BitVec 6 := 0x1

/-- `CW_IDLE[35:30]` -/
def cwIdle : BitVec 6 := 0x0

/-- `idle_expired` -/
def idleExpired : Bool := !s.idleState && s.idleCounter.msb

/-- `o_busy` -/
def oBusy : Bool := s.oStb

/-- The kind of the notice to be sent next. -/
def notice : BitVec 6 :=
  if s.intRequest && !s.intSent then cwInterrupt
  else if i.iCyc then cwBusbusy
  else cwIdle

/-- One clock edge of `wbuidleint`. -/
def step : Wbuidleint idlebits where
  intRequest :=
    if s.oStb && !i.iTxBusy && s.oCodword.kind == cwInterrupt then i.iInt
    else s.intRequest || i.iInt
  intSent :=
    if s.intRequest && (!s.oStb && !s.oBusy && !i.iStb) then true
    else if !i.iInt then false
    else s.intSent
  idleState :=
    if s.oStb && !i.iTxBusy && s.oCodword.kind == cwIdle then true
    else if !s.idleCounter.msb then false
    else s.idleState
  idleCounter :=
    if i.iStb || s.oStb || i.iBusy then 0
    else if !s.idleCounter.msb then s.idleCounter + 1
    else s.idleCounter
  oStb :=
    if !s.oStb || !i.iTxBusy then
      if i.iStb then true else !s.oStb && (s.intRequest || s.idleExpired)
    else s.oStb
  oCodword :=
    if !s.oStb || !i.iTxBusy then
      if i.iStb then i.iCodword else put s.oCodword 30 (s.notice i)
    else s.oCodword

/-- The registers with an initial value at power up; the others are arbitrary. -/
structure Initial : Prop where
  intRequest : s.intRequest = false
  intSent : s.intSent = false
  idleState : s.idleState = false
  idleCounter : s.idleCounter = 0
  oStb : s.oStb = false

/-! ### What is seen of a clock -/

/-- The response that is fed at a clock. -/
def fed : List Codeword := if i.iStb then [i.iCodword] else []

/-- The codeword that leaves at a clock. -/
def sent : List Codeword := if s.oStb && !i.iTxBusy then [s.oCodword] else []

/-- A codeword of some kind leaves at a clock. -/
def leaves (k : BitVec 6) : Bool := s.oStb && !i.iTxBusy && s.oCodword.kind == k

/-- A codeword of some kind is to leave. -/
def offers (k : BitVec 6) : Bool := s.oStb && s.oCodword.kind == k

/-- The response that is to leave. -/
def held : List Codeword := if s.oStb && s.oCodword.isResponse then [s.oCodword] else []

end Source

section Step

variable {s : Wbuidleint idlebits} {i : Input}

/-- A notice is of the kind it is to be. -/
theorem kind_put (w : Codeword) (k : BitVec 6) :
  Codeword.kind (put w 30 k) = k
  := extract_put_same w k (by decide)

theorem notice_not_response (s : Wbuidleint idlebits) (i : Input) (w : Codeword) :
  Codeword.isResponse (put w 30 (s.notice i)) = false
  := by
  rw [isResponse, kind_put, notice]
  split_ifs <;> decide

/-- While a codeword waits for the transmitter nothing is fed and it stays as it is. -/
theorem step_waiting (hstb : s.oStb = true) (htx : i.iTxBusy = true) :
  (s.step i).oStb = true ∧ (s.step i).oCodword = s.oCodword
  := by simp [step, hstb, htx]

/-- After a codeword has left there is a clock without one. -/
theorem step_left (hstb : s.oStb = true) (htx : i.iTxBusy = false) (hfeed : i.iStb = false) :
  (s.step i).oStb = false
  := by simp [step, hstb, htx, hfeed]

/-- A response that is fed is to leave next. -/
theorem step_fed (hstb : s.oStb = false) (hfeed : i.iStb = true) :
  (s.step i).oStb = true ∧ (s.step i).oCodword = i.iCodword
  := by simp [step, hstb, hfeed]

/-- Where nothing is fed and nothing waits, a notice is to leave next if there is a reason
for one. -/
theorem step_free (hstb : s.oStb = false) (hfeed : i.iStb = false) :
  (s.step i).oStb = (s.intRequest || s.idleExpired)
    ∧ (s.step i).oCodword = put s.oCodword 30 (s.notice i)
  := by simp [step, hstb, hfeed]

/-- Nothing is fed while something waits. -/
theorem iStb_of_oStb (hfeed : i.iStb = true → s.oStb = false) (hstb : s.oStb = true) :
  i.iStb = false
  := by
  by_contra hsome
  rw [Bool.not_eq_false] at hsome
  rw [hfeed hsome] at hstb
  contradiction

/-- Responses that are fed leave, or are held. -/
theorem step_held (hfeed : i.iStb = true → s.oStb = false)
    (hcode : i.iStb = true → i.iCodword.isResponse = true) :
  (s.sent i).filter isResponse ++ (s.step i).held = s.held ++ fed i
  := by
  cases hstb : s.oStb with
  | true =>
      have hnone := iStb_of_oStb hfeed hstb
      cases htx : i.iTxBusy with
      | true =>
          obtain ⟨hstb', hword⟩ := step_waiting hstb htx
          simp [sent, held, fed, hstb, htx, hnone, hstb', hword]
      | false =>
          have hstb' := step_left hstb htx hnone
          simp [sent, held, fed, hstb, htx, hnone, hstb', List.filter_singleton]
  | false =>
      cases hsome : i.iStb with
      | true =>
          obtain ⟨hstb', hword⟩ := step_fed hstb hsome
          simp [sent, held, fed, hstb, hsome, hstb', hword, hcode hsome]
      | false =>
          obtain ⟨-, hword⟩ := step_free hstb hsome
          simp [sent, held, fed, hstb, hsome, hword, notice_not_response]

/-! ### Requests and notices -/

theorem intRequest_step (s : Wbuidleint idlebits) (i : Input) :
  (s.step i).intRequest
    = if s.leaves i cwInterrupt then i.iInt else s.intRequest || i.iInt
  := rfl

theorem intSent_step (s : Wbuidleint idlebits) (i : Input) :
  (s.step i).intSent
    = if s.intRequest && !s.oStb && !i.iStb then true
      else if !i.iInt then false
      else s.intSent
  := by cases hstb : s.oStb <;> simp [step, oBusy, hstb]

/-- A notice of an interrupt is to leave only while one is requested, and is marked as sent
only while it is to leave. -/
structure Marks (s : Wbuidleint idlebits) : Prop where
  requested : s.offers cwInterrupt = true → s.intRequest = true
  marked : s.intSent = true → s.offers cwInterrupt = true

theorem oStb_of_offers {k : BitVec 6} (h : s.offers k = true) :
  s.oStb = true
  := by
  rw [offers, Bool.and_eq_true] at h
  apply h.1

/-- A notice that is to leave leaves where the transmitter takes it. -/
theorem leaves_eq (s : Wbuidleint idlebits) (i : Input) (k : BitVec 6) :
  s.leaves i k = (s.offers k && !i.iTxBusy)
  := by
  rw [leaves, offers]
  cases s.oStb <;> cases i.iTxBusy <;> simp

/-- Where nothing waits, no notice is marked. -/
theorem Marks.intSent_of_free (h : s.Marks) (hstb : s.oStb = false) :
  s.intSent = false
  := by
  by_contra hsent
  rw [Bool.not_eq_false] at hsent
  rw [oStb_of_offers (h.marked hsent)] at hstb
  contradiction

/-- What is to leave next, where nothing waits and nothing is fed. -/
theorem Marks.offers_free (h : s.Marks) (hstb : s.oStb = false) (hfeed : i.iStb = false) :
  (s.step i).offers cwInterrupt = s.intRequest
    ∧ ((s.step i).offers cwIdle || (s.step i).offers cwBusbusy)
      = (!s.intRequest && s.idleExpired)
  := by
  obtain ⟨hstb', hword⟩ := step_free hstb hfeed
  rw [offers, offers, offers, hstb', hword, kind_put, notice, h.intSent_of_free hstb]
  cases s.intRequest <;> cases s.idleExpired <;> cases i.iCyc <;> decide

/-- A response is no notice. -/
theorem offers_fed (hstb : s.oStb = false) (hfeed : i.iStb = true)
    (hcode : i.iCodword.isResponse = true) :
  (s.step i).offers cwInterrupt = false ∧ (s.step i).offers cwIdle = false
    ∧ (s.step i).offers cwBusbusy = false
  := by
  obtain ⟨hstb', hword⟩ := step_fed hstb hfeed
  rw [isResponse, Bool.and_eq_true, Bool.and_eq_true] at hcode
  obtain ⟨⟨hidle, hbusy⟩, hint⟩ := hcode
  rw [offers, offers, offers, hstb', hword]
  simp_all [cwInterrupt, cwIdle, cwBusbusy]

theorem marks_step (h : s.Marks) (hfeed : i.iStb = true → s.oStb = false)
    (hcode : i.iStb = true → i.iCodword.isResponse = true)
    (hlow : s.leaves i cwInterrupt = true → i.iInt = false) :
  (s.step i).Marks
  := by
  cases hstb : s.oStb with
  | true =>
      have hsent : (s.step i).intSent = (i.iInt && s.intSent) := by
        rw [intSent_step, hstb]
        cases i.iInt <;> simp
      cases htx : i.iTxBusy with
      | true =>
          have hsame : ∀ k, (s.step i).offers k = s.offers k := by
            intro k
            obtain ⟨hstb', hword⟩ := step_waiting hstb htx
            rw [offers, offers, hstb', hword, hstb]
          constructor
          · intro hoffers
            rw [hsame] at hoffers
            rw [intRequest_step, leaves_eq, htx, Bool.not_true, Bool.and_false,
              h.requested hoffers]
            rfl
          · intro hsent'
            rw [hsent, Bool.and_eq_true] at hsent'
            rw [hsame]
            apply h.marked hsent'.2
      | false =>
          have hstb' := step_left hstb htx (iStb_of_oStb hfeed hstb)
          constructor
          · intro hoffers
            rw [oStb_of_offers hoffers] at hstb'
            contradiction
          · intro hsent'
            rw [hsent, Bool.and_eq_true] at hsent'
            have hint := hlow (by rw [leaves_eq, htx, h.marked hsent'.2]; rfl)
            rw [hint] at hsent'
            have := hsent'.1
            contradiction
  | false =>
      have hunmarked := h.intSent_of_free hstb
      cases hsome : i.iStb with
      | true =>
          obtain ⟨hint, -, -⟩ := offers_fed hstb hsome (hcode hsome)
          constructor
          · intro hoffers
            rw [hint] at hoffers
            contradiction
          · intro hsent'
            rw [intSent_step, hsome, hunmarked] at hsent'
            simp at hsent'
      | false =>
          obtain ⟨hint, -⟩ := h.offers_free hstb hsome
          constructor
          · intro hoffers
            rw [hint] at hoffers
            rw [intRequest_step, leaves, hstb, hoffers]
            rfl
          · intro hsent'
            rw [intSent_step, hstb, hsome, hunmarked] at hsent'
            rw [hint]
            simpa using hsent'

/-! ### Idle and busy notices -/

/-- An idle or busy notice leaves at a clock. -/
def leavesIdle (s : Wbuidleint idlebits) (i : Input) : Bool :=
  s.leaves i cwIdle || s.leaves i cwBusbusy

/-- The idle counter comes to its end at a clock. -/
def expires (s : Wbuidleint idlebits) (i : Input) : Bool :=
  !s.idleCounter.msb && (s.step i).idleCounter.msb

/-- The expiries that a notice has not left for yet. -/
def due (s : Wbuidleint idlebits) : ℕ :=
  (s.offers cwIdle || s.offers cwBusbusy).toNat + (s.idleCounter.msb && !s.oStb).toNat

/-- A codeword that waits keeps the idle counter at its start. -/
theorem msb_idleCounter_step (h : s.oStb = true ∨ i.iStb = true) :
  (s.step i).idleCounter.msb = false
  := by
  rcases h with h | h <;> simp [step, h]

/-- A notice that the bus is idle or busy uses up an expiry of the idle counter. -/
theorem due_step (h : s.Marks) (hfeed : i.iStb = true → s.oStb = false)
    (hcode : i.iStb = true → i.iCodword.isResponse = true) :
  (s.leavesIdle i).toNat + (s.step i).due ≤ s.due + (s.expires i).toNat
  := by
  rw [leavesIdle, leaves_eq, leaves_eq]
  cases hstb : s.oStb with
  | true =>
      have hmsb := msb_idleCounter_step (i := i) (Or.inl hstb)
      cases htx : i.iTxBusy with
      | true =>
          obtain ⟨hstb', hword⟩ := step_waiting hstb htx
          simp [due, offers, hstb, hstb', hword]
      | false =>
          have hstb' := step_left hstb htx (iStb_of_oStb hfeed hstb)
          simp [due, offers, hstb, hstb', hmsb]
  | false =>
      cases hsome : i.iStb with
      | true =>
          obtain ⟨-, hidle, hbusy⟩ := offers_fed hstb hsome (hcode hsome)
          have hmsb := msb_idleCounter_step (s := s) (Or.inr hsome)
          rw [due, hidle, hbusy, hmsb]
          simp [offers, hstb]
      | false =>
          obtain ⟨-, hoffers⟩ := h.offers_free hstb hsome
          obtain ⟨hstb', -⟩ := step_free hstb hsome
          rw [due, due, hoffers, hstb', expires, hstb, idleExpired]
          cases s.intRequest <;> cases s.idleState <;> cases s.idleCounter.msb
            <;> cases (s.step i).idleCounter.msb <;> simp [offers, hstb]

end Step

/-! ### Runs -/

section Runs

variable (s₀ : Wbuidleint idlebits) (inp : ℕ → Input)

/-- What `wbuoutput` feeds `wbuidleint`: responses, and only where it is not busy. -/
structure Driven : Prop where
  feed : ∀ n, (inp n).iStb = true → (run step s₀ inp n).oBusy = false
  code : ∀ n, (inp n).iStb = true → (inp n).iCodword.isResponse = true

/-- The interrupt line at the clock before. -/
def before (inp : ℕ → Input) : ℕ → Bool
  | 0 => false
  | n + 1 => (inp n).iInt

/-- The interrupt line is raised. -/
def rises (n : ℕ) : Bool := (inp n).iInt && !before inp n

/-- The interrupt line is not raised again before the notice of the last time has left. -/
def Separated : Prop := ∀ n, rises inp n = true → (run step s₀ inp n).intRequest = false

/-- Again and again the transmitter takes what it is given, and there is nothing to give
it. -/
structure Fair : Prop where
  tx : ∀ n, ∃ m, n ≤ m ∧ (inp m).iTxBusy = false
  pause : ∀ n, ∃ m, n ≤ m ∧ (run step s₀ inp m).oStb = false ∧ (inp m).iStb = false

/-- Responses leave in order, the interrupt line is told of exactly once each time it is
raised, and there are no more idle and busy notices than expiries of the idle counter. -/
structure Inserts : Prop where
  responses : ∀ n, log (fun k => ((run step s₀ inp k).sent (inp k)).filter isResponse) n
    ++ (run step s₀ inp n).held = log (fun k => fed (inp k)) n
  interrupts : Separated s₀ inp → ∀ n,
    Nat.count (fun k => (run step s₀ inp k).leaves (inp k) cwInterrupt = true) n
      + (run step s₀ inp n).intRequest.toNat = Nat.count (fun k => rises inp k = true) n
  exactlyOne : Separated s₀ inp → Fair s₀ inp → ∀ n, rises inp n = true →
    ∃! m, n < m ∧ (run step s₀ inp m).leaves (inp m) cwInterrupt = true
      ∧ ∀ k, n < k → k ≤ m → rises inp k = false
  idles : ∀ n, Nat.count (fun k => (run step s₀ inp k).leavesIdle (inp k) = true) n
    ≤ Nat.count (fun k => (run step s₀ inp k).expires (inp k) = true) n

/-- The interrupt line is low where a notice of it leaves. -/
def LowAtNotice : Prop :=
  ∀ n, (run step s₀ inp n).leaves (inp n) cwInterrupt = true → (inp n).iInt = false

variable {s₀ inp}

theorem responses_run (h₀ : s₀.Initial) (hdriven : Driven s₀ inp) (n : ℕ) :
  log (fun k => ((run step s₀ inp k).sent (inp k)).filter isResponse) n
    ++ (run step s₀ inp n).held = log (fun k => fed (inp k)) n
  := by
  have hstep : Conserves (fun k => (run step s₀ inp k).held) (fun k => fed (inp k))
      (fun k => ((run step s₀ inp k).sent (inp k)).filter isResponse) := by
    intro k
    apply step_held (hdriven.feed k) (hdriven.code k)
  have hheld : s₀.held = [] := by simp [held, h₀.oStb]
  rw [hstep.log_eq n, run_zero, hheld, List.nil_append]

theorem marks_run (h₀ : s₀.Initial) (hdriven : Driven s₀ inp) (hlow : LowAtNotice s₀ inp)
    (n : ℕ) :
  (run step s₀ inp n).Marks
  := by
  induction n with
  | zero =>
      constructor
      · intro hoffers
        rw [run_zero, offers, h₀.oStb] at hoffers
        contradiction
      · intro hsent
        rw [run_zero, h₀.intSent] at hsent
        contradiction
  | succ n ih => apply marks_step ih (hdriven.feed n) (hdriven.code n) (hlow n)

/-- The line is requested to be told of while it is high. -/
theorem request_of_before {n : ℕ} (hbefore : before inp n = true) :
  (run step s₀ inp n).intRequest = true
  := by
  cases n with
  | zero => contradiction
  | succ n =>
      have hint : (inp n).iInt = true := hbefore
      rw [run_succ, intRequest_step, hint, Bool.or_true, ite_self]

/-- Each time the line is raised, a notice has left, or is requested. -/
theorem interrupts_run (h₀ : s₀.Initial) (hdriven : Driven s₀ inp) (hlow : LowAtNotice s₀ inp)
    (hsep : Separated s₀ inp) (n : ℕ) :
  Nat.count (fun k => (run step s₀ inp k).leaves (inp k) cwInterrupt = true) n
    + (run step s₀ inp n).intRequest.toNat = Nat.count (fun k => rises inp k = true) n
  := by
  induction n with
  | zero => simp [h₀.intRequest]
  | succ n ih =>
      have hmarks := marks_run h₀ hdriven hlow n
      rw [Nat.count_succ, Nat.count_succ, ← ih, run_succ, intRequest_step]
      cases hleaves : (run step s₀ inp n).leaves (inp n) cwInterrupt with
      | true =>
          have hint := hlow n hleaves
          have hrequest : (run step s₀ inp n).intRequest = true := by
            apply hmarks.requested
            rw [leaves_eq, Bool.and_eq_true] at hleaves
            apply hleaves.1
          simp [rises, hint, hrequest]
      | false =>
          cases hint : (inp n).iInt with
          | false => simp [rises, hint]
          | true =>
              cases hbefore : before inp n with
              | true => simp [rises, hint, hbefore, request_of_before hbefore]
              | false =>
                  have hrises : rises inp n = true := by simp [rises, hint, hbefore]
                  simp [hrises, hsep n hrises]

theorem idles_run (h₀ : s₀.Initial) (hdriven : Driven s₀ inp) (hlow : LowAtNotice s₀ inp)
    (n : ℕ) :
  Nat.count (fun k => (run step s₀ inp k).leavesIdle (inp k) = true) n
    + (run step s₀ inp n).due
      ≤ Nat.count (fun k => (run step s₀ inp k).expires (inp k) = true) n
  := by
  induction n with
  | zero => simp [due, offers, h₀.oStb, h₀.idleCounter]
  | succ n ih =>
      have hstep := due_step (marks_run h₀ hdriven hlow n) (hdriven.feed n) (hdriven.code n)
      rw [Nat.count_succ, Nat.count_succ, run_succ]
      simp only [Bool.toNat, Bool.cond_eq_ite] at hstep
      omega

/-- A request stays until a notice leaves. -/
theorem request_until {n k : ℕ} (hrequest : (run step s₀ inp n).intRequest = true)
    (hnone : ∀ j, n ≤ j → j < n + k → (run step s₀ inp j).leaves (inp j) cwInterrupt = false) :
  (run step s₀ inp (n + k)).intRequest = true
  := by
  induction k with
  | zero => apply hrequest
  | succ k ih =>
      have hbefore := ih (fun j hj hj' => hnone j hj (by omega))
      rw [← Nat.add_assoc, run_succ, intRequest_step, hnone (n + k) (by omega) (by omega), hbefore]
      rfl

/-- A notice that is to leave stays until it does. -/
theorem offers_until {n k : ℕ} (hoffers : (run step s₀ inp n).offers cwInterrupt = true)
    (hnone : ∀ j, n ≤ j → j < n + k → (run step s₀ inp j).leaves (inp j) cwInterrupt = false) :
  (run step s₀ inp (n + k)).offers cwInterrupt = true
  := by
  induction k with
  | zero => apply hoffers
  | succ k ih =>
      have hbefore := ih (fun j hj hj' => hnone j hj (by omega))
      have hleaves := hnone (n + k) (by omega) (by omega)
      rw [leaves_eq, hbefore, Bool.true_and, Bool.not_eq_false'] at hleaves
      obtain ⟨hstb, hword⟩ := step_waiting (oStb_of_offers hbefore) hleaves
      rw [← Nat.add_assoc, run_succ, offers, hstb, hword]
      rw [offers, oStb_of_offers hbefore] at hbefore
      apply hbefore

/-- A notice that is requested leaves. -/
theorem leaves_of_request (h₀ : s₀.Initial) (hdriven : Driven s₀ inp)
    (hlow : LowAtNotice s₀ inp) (hfair : Fair s₀ inp) {n : ℕ}
    (hrequest : (run step s₀ inp n).intRequest = true) :
  ∃ m, n ≤ m ∧ (run step s₀ inp m).leaves (inp m) cwInterrupt = true
  := by
  by_contra hnever
  have hnone : ∀ j, n ≤ j → (run step s₀ inp j).leaves (inp j) cwInterrupt = false := by
    intro j hj
    by_contra hleaves
    apply hnever ⟨j, hj, by simpa using hleaves⟩
  -- Where nothing waits and nothing is fed the notice is put up, and then it is taken.
  obtain ⟨m, hm, hstb, hfeed⟩ := hfair.pause n
  obtain ⟨k, rfl⟩ := Nat.exists_eq_add_of_le hm
  have hpending := request_until hrequest (fun j hj _ => hnone j hj) (k := k)
  have hoffers : (run step s₀ inp (n + k + 1)).offers cwInterrupt = true := by
    rw [run_succ, ((marks_run h₀ hdriven hlow _).offers_free hstb hfeed).1, hpending]
  obtain ⟨m, hm, htx⟩ := hfair.tx (n + k + 1)
  obtain ⟨l, rfl⟩ := Nat.exists_eq_add_of_le hm
  have hwaits := offers_until hoffers (fun j hj _ => hnone j (by omega)) (k := l)
  have hleaves := hnone (n + k + 1 + l) (by omega)
  rw [leaves_eq, hwaits, htx] at hleaves
  contradiction

/-- Where a notice leaves before the line is raised again, those before it had left when the
line was raised. -/
theorem count_of_quiet (h₀ : s₀.Initial) (hdriven : Driven s₀ inp) (hlow : LowAtNotice s₀ inp)
    (hsep : Separated s₀ inp) {n m : ℕ} (hm : n < m)
    (hleaves : (run step s₀ inp m).leaves (inp m) cwInterrupt = true)
    (hquiet : ∀ k, n < k → k ≤ m → rises inp k = false) :
  Nat.count (fun k => (run step s₀ inp k).leaves (inp k) cwInterrupt = true) m + 1
    = Nat.count (fun k => rises inp k = true) (n + 1)
  := by
  have hrequest : (run step s₀ inp m).intRequest = true := by
    apply (marks_run h₀ hdriven hlow m).requested
    rw [leaves_eq, Bool.and_eq_true] at hleaves
    apply hleaves.1
  have hcount := interrupts_run h₀ hdriven hlow hsep m
  rw [hrequest, Bool.toNat_true] at hcount
  rw [hcount]
  obtain ⟨d, rfl⟩ := Nat.exists_eq_add_of_le hm
  have hnone : Nat.count (fun k => rises inp (n + 1 + k) = true) d = 0 := by
    rw [Nat.count_iff_forall_not]
    intro k hk
    rw [hquiet (n + 1 + k) (by omega) (by omega)]
    apply Bool.false_ne_true
  rw [Nat.succ_eq_add_one, Nat.count_add, hnone, Nat.add_zero]

theorem exactlyOne_run (h₀ : s₀.Initial) (hdriven : Driven s₀ inp) (hlow : LowAtNotice s₀ inp)
    (hsep : Separated s₀ inp) (hfair : Fair s₀ inp) {n : ℕ} (hrises : rises inp n = true) :
  ∃! m, n < m ∧ (run step s₀ inp m).leaves (inp m) cwInterrupt = true
    ∧ ∀ k, n < k → k ≤ m → rises inp k = false
  := by
  have hrequest : (run step s₀ inp (n + 1)).intRequest = true := by
    have hint := hrises
    rw [rises, Bool.and_eq_true] at hint
    have hbefore : before inp (n + 1) = true := hint.1
    apply request_of_before hbefore
  have hsome := leaves_of_request h₀ hdriven hlow hfair hrequest
  -- The first notice that leaves comes before the line is raised again.
  obtain ⟨hm, hleaves⟩ := Nat.find_spec hsome
  have hfirst : ∀ j, n + 1 ≤ j → j < Nat.find hsome →
      (run step s₀ inp j).leaves (inp j) cwInterrupt = false := by
    intro j hj hlt
    have := Nat.find_min hsome hlt
    simpa [hj] using this
  have hquiet : ∀ k, n < k → k ≤ Nat.find hsome → rises inp k = false := by
    intro k hk hle
    by_contra hrises'
    rw [Bool.not_eq_false] at hrises'
    obtain ⟨l, rfl⟩ := Nat.exists_eq_add_of_le hk
    have hpending := request_until hrequest (k := l) (fun j hj hlt => hfirst j hj (by omega))
    rw [hsep _ hrises'] at hpending
    contradiction
  use Nat.find hsome, ⟨hm, hleaves, hquiet⟩
  rintro m ⟨hm', hleaves', hquiet'⟩
  have hcount := count_of_quiet h₀ hdriven hlow hsep hm hleaves hquiet
  have hcount' := count_of_quiet h₀ hdriven hlow hsep hm' hleaves' hquiet'
  apply Nat.count_injective (p := fun k => (run step s₀ inp k).leaves (inp k) cwInterrupt = true)
    hleaves' hleaves
  omega

/-- The unit does what it is for in every run in which the line is low where a notice of it
leaves. -/
theorem inserts (h₀ : s₀.Initial) (hdriven : Driven s₀ inp) (hlow : LowAtNotice s₀ inp) :
  Inserts s₀ inp
  := by
  constructor
  · intro n
    apply responses_run h₀ hdriven n
  · intro hsep n
    apply interrupts_run h₀ hdriven hlow hsep n
  · intro hsep hfair n hrises
    apply exactlyOne_run h₀ hdriven hlow hsep hfair hrises
  · intro n
    have := idles_run h₀ hdriven hlow n
    omega

/-- The unit at power up. -/
def start (idlebits : ℕ) : Wbuidleint idlebits where
  intRequest := false
  intSent := false
  idleState := false
  idleCounter := 0
  oStb := false
  oCodword := 0

theorem initial_start (idlebits : ℕ) :
  (start idlebits).Initial
  := by constructor <;> rfl

/-- The interrupt line is high for the first `c` clocks; nothing is fed, and the transmitter
takes everything. -/
def heldHigh (c n : ℕ) : Input where
  iStb := false
  iCodword := 0
  iCyc := false
  iBusy := false
  iInt := decide (n < c)
  iTxBusy := false

theorem driven_heldHigh (c : ℕ) :
  Driven (start idlebits) (heldHigh c)
  := by constructor <;> (intro n hfeed; contradiction)

theorem inserts_oneClock :
  Inserts (start 31) (heldHigh 1)
  := by
  apply inserts (initial_start 31) (driven_heldHigh 1)
  intro n hleaves
  cases n with
  | zero => contradiction
  | succ n => simp [heldHigh]

/-- A line that is high for four clocks is told of twice, with a notice that the bus is idle
between the two, long before the idle counter comes to its end. -/
theorem inserts_not_fourClocks :
  (¬ ∀ {idlebits : ℕ} {s₀ : Wbuidleint idlebits} {inp : ℕ → Input}, s₀.Initial →
    Driven s₀ inp → Inserts s₀ inp)
    ∧ Nat.count (fun k => rises (heldHigh 4) k = true) 7 = 1
    ∧ Nat.count (fun k => (run step (start 31) (heldHigh 4) k).leaves (heldHigh 4 k) cwInterrupt
      = true) 7 = 2
  := by
  constructor
  · intro h
    have hinserts := h (initial_start 31) (driven_heldHigh 4)
    have hidles := hinserts.idles 5
    revert hidles
    decide
  · decide

end Runs

end Wbuidleint

end ZBasic
