import ZBasic.Clocked.Run
import Mathlib.Data.Nat.Find
import Mathlib.Tactic.Push
import Mathlib.Tactic.Use

/-!
# A stage of a pipelined bus

A stage stands between a master and a slave, as streams: the cycle line on either side, the
requests accepted and the responses. A stage that delays the bus holds the requests on their
way, and returns every response one clock late. Within each cycle of the master it is
transparent: the slave sees the requests of the cycle, in order, and the master the responses.
-/

namespace Wishbone

open Clocked

/-- What a slave answers to a request. -/
inductive Response (δ : Type*) where
  | ack (d : δ)
  | err
deriving DecidableEq

/-- A response is an error. -/
def isErr {δ : Type*} : Option (Response δ) → Bool
  | some .err => true
  | _ => false

/-- A stage with requests `ρ` and data `δ`, at each clock. -/
structure Stage (ρ δ : Type*) where
  /-- The cycle line of the master. -/
  upCyc : ℕ → Bool
  /-- The request accepted from the master. -/
  upRequest : ℕ → Option ρ
  /-- The response returned to the master. -/
  upResponse : ℕ → Option (Response δ)
  /-- The cycle line to the slave. -/
  downCyc : ℕ → Bool
  /-- The request that the slave accepts. -/
  downRequest : ℕ → Option ρ
  /-- The slave accepts no request. -/
  downStall : ℕ → Bool
  /-- What the slave answers while the cycle line is up. -/
  downResponse : ℕ → Option (Response δ)
  /-- The requests on their way. -/
  held : ℕ → List ρ

namespace Stage

variable {ρ δ : Type*} (S : Stage ρ δ)

/-- The stage passes requests on and returns responses one clock late. An error ends the
cycle of the slave. -/
structure Delays : Prop where
  start : S.downCyc 0 = false ∧ S.upResponse 0 = none ∧ S.held 0 = []
  downCyc : ∀ n, S.downCyc (n + 1)
    = (S.upCyc n && !isErr (S.upResponse n) && !isErr (S.downResponse n))
  upResponse : ∀ n, S.upResponse (n + 1)
    = if S.upCyc n && !isErr (S.upResponse n) then S.downResponse n else none
  drop : ∀ n, S.downCyc n = false → S.held n = []
  keep : ∀ n, S.downCyc (n + 1) = true →
    (S.downRequest n).toList ++ S.held (n + 1) = S.held n ++ (S.upRequest n).toList
  first : ∀ n, S.downRequest n = none ∨ S.downRequest n = (S.held n).head?
  offer : ∀ n, S.downStall n = false → S.downRequest n = (S.held n).head?
  answer : ∀ n, S.downCyc n = false → S.downResponse n = none

/-- The master ends its cycle at the clock after an error. -/
def Yields : Prop := ∀ n, S.upCyc n = true → isErr (S.upResponse n) = true → S.upCyc (n + 1) = false

/-- A cycle of the master starts at clock `b`. -/
def Starts (b : ℕ) : Prop := b = 0 ∨ ∃ k, b = k + 1 ∧ S.upCyc k = false

/-- A cycle of the master starts at clock `b` and lasts for `n` clocks at least. -/
structure Lasts (b n : ℕ) : Prop where
  starts : S.Starts b
  upCyc : ∀ k < n, S.upCyc (b + k) = true

/-- The requests accepted from the master in the `n` clocks from clock `b` on. -/
def taken (b n : ℕ) : List ρ := log (fun k => (S.upRequest (b + k)).toList) n

/-- The requests accepted by the slave in these clocks. -/
def passed (b n : ℕ) : List ρ := log (fun k => (S.downRequest (b + k)).toList) n

/-- The responses returned to the master in these clocks. -/
def returned (b n : ℕ) : List (Response δ) := log (fun k => (S.upResponse (b + k)).toList) n

/-- The responses of the slave in these clocks. -/
def answered (b n : ℕ) : List (Response δ) := log (fun k => (S.downResponse (b + k)).toList) n

/-- The slave has made no error in these clocks. -/
def Faultless (b n : ℕ) : Prop := ∀ k < n, isErr (S.downResponse (b + k)) = false

/-- The slave answers only requests that it has accepted in the cycle. -/
def Owed : Prop := ∀ b n, S.Lasts b n → (S.answered b n).length ≤ (S.passed b n).length

/-- The slave stalls no request for ever, and as long as a cycle lasts it answers every request
that it has accepted in the cycle. -/
structure Serves : Prop where
  fair : ∀ n, ∃ m, n ≤ m ∧ S.downStall m = false
  answers : ∀ b n, S.Lasts b n → (S.answered b n).length < (S.passed b n).length →
    ∃ m, n ≤ m ∧ (S.upCyc (b + m) = false ∨ S.downResponse (b + m) ≠ none)

/-- The stage is transparent. -/
structure Transparent : Prop where
  /-- The slave has accepted a beginning of the requests of the cycle. -/
  passes : ∀ b n, S.Lasts b n → S.passed b (n + 1) <+: S.taken b n
  /-- The master has been returned the responses to them. -/
  returns : ∀ b n, S.Lasts b n → S.returned b (n + 1) = S.answered b n
  /-- Every response is one to a request of the cycle. -/
  owed : S.Owed → ∀ b n, S.Lasts b n → (S.returned b (n + 1)).length ≤ (S.taken b n).length
  /-- After an error no request of the cycle is accepted, and nothing is answered. -/
  ends : ∀ b n, S.Lasts b n → ∀ k < n, isErr (S.downResponse (b + k)) = true →
    ∀ j, k < j → j ≤ n → S.downRequest (b + j) = none ∧ S.downResponse (b + j) = none
  /-- After a cycle no request is accepted, and nothing is returned. -/
  idle : ∀ k, S.upCyc k = false → S.downRequest (k + 1) = none ∧ S.upResponse (k + 1) = none
  /-- In a cycle that lasts without an error every request is accepted by the slave, and every
  request has its response. -/
  completes : S.Serves → ∀ b, (∀ n, S.Lasts b n ∧ S.Faultless b n) → ∀ n,
    (∃ m, S.taken b n <+: S.passed b m)
      ∧ ∃ m, (S.taken b n).length ≤ (S.returned b m).length

variable {S}

section Cycle

variable {b n : ℕ}

theorem Lasts.mono (h : S.Lasts b n) {m : ℕ} (hm : m ≤ n) :
  S.Lasts b m
  := by
  use h.starts
  intro k hk
  apply h.upCyc k (Nat.lt_of_lt_of_le hk hm)

theorem Delays.downRequest_of_idle (h : S.Delays) (hidle : S.downCyc n = false) :
  S.downRequest n = none
  := by
  rcases h.first n with hnone | hhead
  · apply hnone
  · rw [hhead, h.drop n hidle]
    rfl

theorem Delays.idle (h : S.Delays) (hidle : S.upCyc n = false) :
  S.downCyc (n + 1) = false ∧ S.upResponse (n + 1) = none
  := by
  rw [h.downCyc, h.upResponse, hidle]
  exact ⟨rfl, rfl⟩

/-- A cycle starts with nothing on its way. -/
theorem Delays.starts (h : S.Delays) (hb : S.Starts b) :
  S.downCyc b = false ∧ S.upResponse b = none ∧ S.held b = []
  := by
  rcases hb with rfl | ⟨k, rfl, hidle⟩
  · apply h.start
  · obtain ⟨hcyc, hresponse⟩ := h.idle hidle
    exact ⟨hcyc, hresponse, h.drop _ hcyc⟩

/-- The response at a clock of the cycle is the answer of the clock before. -/
theorem Delays.upResponse_succ (h : S.Delays) (hlasts : S.Lasts b (n + 1)) :
  S.upResponse (b + (n + 1)) = S.downResponse (b + n)
  := by
  rw [← Nat.add_assoc, h.upResponse, hlasts.upCyc n (Nat.lt_succ_self n), Bool.true_and]
  cases herr : isErr (S.upResponse (b + n)) with
  | false => rfl
  | true =>
      -- An error was returned a clock after the slave made it, and its cycle is over.
      rw [Bool.not_true, if_neg (by decide), h.answer]
      cases n with
      | zero =>
          rw [Nat.add_zero, (h.starts hlasts.starts).2.1] at herr
          cases herr
      | succ n =>
          rw [← Nat.add_assoc, h.upResponse] at herr
          rw [← Nat.add_assoc, h.downCyc]
          split_ifs at herr
          · rw [herr, Bool.not_true, Bool.and_false]
          · cases herr

/-- After an error of the slave its cycle is over until the one of the master is. -/
theorem Delays.downCyc_of_err (h : S.Delays) (hyields : S.Yields) (hlasts : S.Lasts b n) {k : ℕ}
    (hk : k < n) (herr : isErr (S.downResponse (b + k)) = true) {j : ℕ} (hj : k < j)
    (hjn : j ≤ n) :
  S.downCyc (b + j) = false
  := by
  have hreturned : isErr (S.upResponse (b + (k + 1))) = true := by
    rw [h.upResponse_succ (hlasts.mono hk), herr]
  obtain rfl | hlt : j = k + 1 ∨ k + 1 < j := by omega
  · rw [← Nat.add_assoc, h.downCyc, herr, Bool.not_true, Bool.and_false]
  · have hover := hyields _ (hlasts.upCyc (k + 1) (by omega)) hreturned
    obtain rfl | hlt' : j = k + 2 ∨ k + 2 < j := by omega
    · have hstep := h.downCyc (b + (k + 1))
      rw [hreturned, Bool.not_true, Bool.and_false, Bool.false_and] at hstep
      apply hstep
    · exfalso
      rw [Nat.add_assoc, hlasts.upCyc (k + 1 + 1) (by omega)] at hover
      cases hover

/-- As long as the slave makes no error its cycle is the one of the master. -/
theorem Delays.downCyc_of_faultless (h : S.Delays) (hlasts : S.Lasts b (n + 1))
    (hfaultless : S.Faultless b (n + 1)) :
  S.downCyc (b + (n + 1)) = true
  := by
  have hreturned : isErr (S.upResponse (b + n)) = false := by
    cases n with
    | zero =>
        rw [Nat.add_zero, (h.starts hlasts.starts).2.1]
        rfl
    | succ n =>
        rw [h.upResponse_succ (hlasts.mono (Nat.le_succ _))]
        apply hfaultless n (by omega)
  rw [← Nat.add_assoc, h.downCyc, hlasts.upCyc n (Nat.lt_succ_self n), hreturned,
    hfaultless n (Nat.lt_succ_self n)]
  rfl

/-- As long as the slave makes no error every request of the cycle has been accepted by the
slave or is on its way. -/
theorem Delays.conserved (h : S.Delays) (hlasts : S.Lasts b n) (hfaultless : S.Faultless b n) :
  S.taken b n = S.passed b n ++ S.held (b + n)
  := by
  induction n with
  | zero =>
      rw [Nat.add_zero, (h.starts hlasts.starts).2.2]
      rfl
  | succ n ih =>
      have ih' := ih (hlasts.mono (Nat.le_succ n)) (fun k hk => hfaultless k (by omega))
      have hkeep := h.keep (b + n) (by
        rw [Nat.add_assoc]
        apply h.downCyc_of_faultless hlasts hfaultless)
      rw [taken] at ih' ⊢
      rw [passed] at ih' ⊢
      rw [log_succ, log_succ, ih', List.append_assoc, List.append_assoc, ← Nat.add_assoc, hkeep]

theorem Delays.passed_faultless (h : S.Delays) (hlasts : S.Lasts b n)
    (hfaultless : S.Faultless b n) :
  S.passed b (n + 1) <+: S.taken b n
  := by
  rw [h.conserved hlasts hfaultless, passed, log_succ, ← passed, List.prefix_append_right_inj]
  rcases h.first (b + n) with hnone | hhead
  · rw [hnone]
    apply List.nil_prefix
  · rw [hhead]
    cases S.held (b + n) with
    | nil => apply List.nil_prefix
    | cons r t => exact ⟨t, rfl⟩

theorem Delays.passes (h : S.Delays) (hyields : S.Yields) (hlasts : S.Lasts b n) :
  S.passed b (n + 1) <+: S.taken b n
  := by
  by_cases hfaultless : S.Faultless b n
  · apply h.passed_faultless hlasts hfaultless
  · -- Nothing passes after the first error.
    rw [Faultless] at hfaultless
    push Not at hfaultless
    have hk := Nat.find_spec hfaultless
    have hbefore : S.Faultless b (Nat.find hfaultless) := by
      intro j hj
      by_contra herr
      apply Nat.find_min hfaultless hj
      exact ⟨by omega, herr⟩
    have hsame : S.passed b (n + 1) = S.passed b (Nat.find hfaultless + 1) := by
      apply log_eq_of_silent (by omega)
      intro j hj hj'
      rw [h.downRequest_of_idle]
      · rfl
      · apply h.downCyc_of_err hyields hlasts hk.1 (by simpa using hk.2) (by omega) (by omega)
    rw [hsame]
    apply (h.passed_faultless (hlasts.mono (by omega)) hbefore).trans
    apply log_mono _ (by omega)

theorem Delays.returns (h : S.Delays) (hlasts : S.Lasts b n) :
  S.returned b (n + 1) = S.answered b n
  := by
  induction n with
  | zero =>
      rw [returned, log_succ, Nat.add_zero, (h.starts hlasts.starts).2.1]
      rfl
  | succ n ih =>
      have ih' := ih (hlasts.mono (Nat.le_succ n))
      rw [returned] at ih' ⊢
      rw [log_succ, ih', h.upResponse_succ hlasts]
      rfl

end Cycle

section Progress

variable {b : ℕ}

/-- In a cycle without an error every request is accepted by the slave sooner or later. -/
theorem Delays.passes_all (h : S.Delays) (hserves : S.Serves)
    (hcycle : ∀ n, S.Lasts b n ∧ S.Faultless b n) (n : ℕ) :
  ∃ m, n ≤ m ∧ (S.taken b n).length ≤ (S.passed b m).length
  := by
  have hfair : ∀ k, ∃ m, k ≤ m ∧ S.downStall (b + m) = false := by
    intro k
    obtain ⟨m, hm, hstall⟩ := hserves.fair (b + k)
    obtain ⟨d, rfl⟩ := Nat.exists_eq_add_of_le (Nat.le_trans (Nat.le_add_right b k) hm)
    exact ⟨d, by omega, hstall⟩
  apply eventually_of_fair_measure hfair
    (fun k => (S.taken b n).length - (S.passed b k).length) n
  · intro k _ _
    have := (log_mono (fun k => (S.downRequest (b + k)).toList) (Nat.le_add_right k 1)).length_le
    rw [← passed, ← passed] at this
    omega
  · intro k hk hnot hstall
    have htaken := (log_mono (fun k => (S.upRequest (b + k)).toList) hk).length_le
    have hconserved := congrArg List.length (h.conserved (hcycle k).1 (hcycle k).2)
    rw [← taken, ← taken] at htaken
    rw [List.length_append] at hconserved
    have hstep : (S.passed b (k + 1)).length = (S.passed b k).length + 1 := by
      rw [passed, log_succ, h.offer _ hstall, List.length_append]
      cases hheld : S.held (b + k) with
      | nil =>
          rw [hheld, List.length_nil] at hconserved
          omega
      | cons r t => rfl
    omega

/-- In a cycle without an error every request has its response sooner or later. -/
theorem Delays.answers_all (h : S.Delays) (hserves : S.Serves)
    (hcycle : ∀ n, S.Lasts b n ∧ S.Faultless b n) (n : ℕ) :
  ∃ m, n ≤ m ∧ (S.taken b n).length ≤ (S.answered b m).length
  := by
  obtain ⟨m₁, hm₁, hpassed⟩ := h.passes_all hserves hcycle n
  have hfair : ∀ k, ∃ m, k ≤ m ∧ (S.downResponse (b + m) ≠ none
      ∨ (S.taken b n).length ≤ (S.answered b m).length) := by
    intro k
    by_cases hdone : (S.taken b n).length ≤ (S.answered b (max k m₁)).length
    · exact ⟨max k m₁, by omega, Or.inr hdone⟩
    · have hmono := (log_mono (fun k => (S.downRequest (b + k)).toList)
        (Nat.le_max_right k m₁)).length_le
      rw [← passed, ← passed] at hmono
      obtain ⟨m, hm, hidle | hanswer⟩ := hserves.answers b (max k m₁) (hcycle _).1 (by omega)
      · rw [(hcycle (m + 1)).1.upCyc m (Nat.lt_succ_self m)] at hidle
        cases hidle
      · exact ⟨m, by omega, Or.inl hanswer⟩
  apply eventually_of_fair_measure hfair
    (fun k => (S.taken b n).length - (S.answered b k).length) n
  · intro k _ _
    have := (log_mono (fun k => (S.downResponse (b + k)).toList) (Nat.le_add_right k 1)).length_le
    rw [← answered, ← answered] at this
    omega
  · intro k hk hnot hmoves
    rcases hmoves with hanswer | hdone
    · have hstep : (S.answered b (k + 1)).length = (S.answered b k).length + 1 := by
        rw [answered, log_succ, List.length_append]
        cases hresponse : S.downResponse (b + k) with
        | none => cases hanswer hresponse
        | some r => rfl
      omega
    · cases hnot hdone

/-- A stage that delays the bus is transparent to masters that end their cycle after an
error. -/
theorem Delays.transparent (h : S.Delays) (hyields : S.Yields) :
  S.Transparent
  := by
  constructor
  · intro b n hlasts
    apply h.passes hyields hlasts
  · intro b n hlasts
    apply h.returns hlasts
  · intro howed b n hlasts
    rw [h.returns hlasts]
    apply Nat.le_trans (howed b n hlasts)
    apply Nat.le_trans _ (h.passes hyields hlasts).length_le
    apply (log_mono _ (Nat.le_succ n)).length_le
  · intro b n hlasts k hk herr j hj hjn
    have hover := h.downCyc_of_err hyields hlasts hk herr hj hjn
    exact ⟨h.downRequest_of_idle hover, h.answer _ hover⟩
  · intro k hidle
    obtain ⟨hcyc, hresponse⟩ := h.idle hidle
    exact ⟨h.downRequest_of_idle hcyc, hresponse⟩
  · intro hserves b hcycle n
    constructor
    · obtain ⟨m, hm, hlength⟩ := h.passes_all hserves hcycle n
      use m
      apply List.prefix_of_prefix_length_le (log_mono _ hm) _ hlength
      apply List.IsPrefix.trans (log_mono _ (Nat.le_succ m)) (h.passes hyields (hcycle m).1)
    · obtain ⟨m, hm, hlength⟩ := h.answers_all hserves hcycle n
      use m + 1
      rwa [h.returns (hcycle m).1]

end Progress

end Stage

end Wishbone
