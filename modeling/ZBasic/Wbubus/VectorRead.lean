import ZBasic.Clocked.Run
import ZBasic.Wbubus.ReadCycle
import ZBasic.Wishbone.Slave

/-!
# Vector reads

A read codeword that an idle executor accepts, from its first request to the last answer.
The slave stalls and answers as it likes. As long as it answers without an error the
executor makes one request after the other, and returns the words it is answered with; the
last answer, or an error, ends the bus cycle and leaves it idle.
-/

namespace ZBasic

open Clocked

namespace Wbuexec

/-- The codeword that returns a word read. -/
def dataWord (inc : Bool) (d : BitVec 32) : Codeword :=
  7#3 ++ d.extractLsb' 30 2 ++ BitVec.ofBool inc ++ d.extractLsb' 0 30

/-- The codeword that returns an error. -/
def errWord (d : BitVec 32) : Codeword := 5#6 ++ d.extractLsb' 0 30

/-- The address of request number `k` of a read from `a`. -/
def readAddr (a : BitVec 32) (inc : Bool) (k : ℕ) : BitVec 32 :=
  if inc then a + BitVec.ofNat 32 k else a

/-- Neither count of a read wraps at a clock. -/
structure Counted (s : Wbuexec) (i : Input) : Prop where
  rLen : (s.step i).rLen.toNat + (s.request i).toNat = s.rLen.toNat
  rAcksNeeded : (s.step i).rAcksNeeded.toNat + i.iWbAck.toNat
    = s.rAcksNeeded.toNat + (s.request i).toNat

/-- An answer to a request ends the wait for it. -/
def answered (i : Input) : Bool := i.iWbAck || i.iWbErr

section Steps

variable {s : Wbuexec} {i : Input}

theorem Reading.counted (h : s.Reading) (hreset : i.iReset = false) (hack : s.AckOwed i) :
  s.Counted i
  := by
  constructor
  · rw [h.rLen_step]
    apply Nat.sub_add_cancel
    cases hreq : s.request i with
    | true => apply h.rLen_pos hreq
    | false => apply Nat.zero_le
  · apply h.rAcksNeeded_step hreset hack

/-- The address moves on with every request of a read that increments. -/
theorem Reading.oWbAddr_step (h : s.Reading) :
  (s.step i).oWbAddr = if s.request i && s.rInc then s.oWbAddr + 1 else s.oWbAddr
  := by simp [Wbuexec.step, nextAddr, h.oBusy]

theorem Reading.rInc_step (h : s.Reading) :
  (s.step i).rInc = s.rInc
  := by simp [Wbuexec.step, h.wbState]

/-- An error ends a read. -/
theorem Reading.step_err (h : s.Reading) (hreset : i.iReset = false) (herr : i.iWbErr = true) :
  (s.step i).Idle ∧ (s.step i).returned = [errWord i.iWbData]
  := by
  constructor
  · constructor <;> simp [Wbuexec.step, fsm, hreset, herr, h.wbState]
  · simp [returned, errWord, Wbuexec.step, nextCodword, hreset, herr, h.oWbCyc]

/-- A read that is started leaves the address as it is. -/
theorem Idle.oWbAddr_step_read (h : s.Idle) (hread : i.iCodword.isRead = true) :
  (s.step i).oWbAddr = s.oWbAddr
  := by
  have habs : i.iCodword.isAbsolute = false := by
    by_contra habs
    have := Codeword.isRead_of_isAbsolute (by simpa using habs)
    simp [hread] at this
  have hrel : i.iCodword.isRelative = false := by
    by_contra hrel
    have := Codeword.isRead_of_isRelative (by simpa using hrel)
    simp [hread] at this
  simp [Wbuexec.step, nextAddr, habs, hrel, request, h.oWbStb]

end Steps

/-! ### Runs -/

section Runs

variable (s₀ : Wbuexec) (inp : ℕ → Input)

/-- The addresses of the requests accepted before clock `n`. -/
def requested (n : ℕ) : List (BitVec 32) :=
  log (fun k => if (run step s₀ inp k).request (inp k) then [(run step s₀ inp k).oWbAddr] else []) n

/-- The words acknowledged before clock `n`. -/
def acked (n : ℕ) : List (BitVec 32) :=
  log (fun k => if (run step s₀ inp k).oWbCyc && (inp k).iWbAck then [(inp k).iWbData] else []) n

/-- The codewords returned for what happened before clock `n`. -/
def returns (n : ℕ) : List Codeword := log (fun k => (run step s₀ inp (k + 1)).returned) n

/-- The requests accepted and not yet answered before clock `n`. -/
def inFlight (n : ℕ) : ℕ :=
  Wishbone.outstanding (fun k => (run step s₀ inp k).oWbCyc)
    (fun k => (run step s₀ inp k).request (inp k)) (fun k => answered (inp k)) n

/-- The slave answers what the executor requests, in the run from `s₀`. -/
def SlaveAnswers : Prop :=
  Wishbone.Answers (fun k => (run step s₀ inp k).oWbCyc)
    (fun k => (run step s₀ inp k).request (inp k)) (fun k => (inp k).iWbStall)
    (fun k => (inp k).iWbAck) (fun k => (inp k).iWbErr)

/-- Before clock `n`, of a read of `len` words from `a` that returned `first` when it was
accepted, `m` requests have been accepted and the words `ds` acknowledged. -/
structure Progress (a : BitVec 32) (inc : Bool) (len : ℕ) (first : List Codeword) (n m : ℕ)
    (ds : List (BitVec 32)) : Prop where
  rInc : (run step s₀ inp n).rInc = inc
  rLen : (run step s₀ inp n).rLen.toNat + m = len
  rAcksNeeded : (run step s₀ inp n).rAcksNeeded.toNat + ds.length = m
  oWbAddr : (run step s₀ inp n).oWbAddr = readAddr a inc m
  requested : requested s₀ inp n = (List.range m).map (readAddr a inc)
  acked : acked s₀ inp n = ds
  returns : returns s₀ inp n = first ++ ds.map (dataWord inc)
  inFlight : inFlight s₀ inp n = (run step s₀ inp n).rAcksNeeded.toNat

end Runs

section Runs

variable {s₀ : Wbuexec} {inp : ℕ → Input} {a : BitVec 32} {inc : Bool} {len : ℕ}
  {first : List Codeword} {n m : ℕ} {ds : List (BitVec 32)}

theorem readAddr_succ (a : BitVec 32) (inc : Bool) (k : ℕ) :
  readAddr a inc (k + 1) = if inc then readAddr a inc k + 1 else readAddr a inc k
  := by
  cases inc with
  | true =>
      simp only [readAddr, if_true]
      rw [BitVec.add_assoc]
      congr 1
      apply BitVec.eq_of_toNat_eq
      simp
  | false => rfl

/-- One clock of a read: a request is accepted or not, and a word acknowledged or not. -/
theorem progress_step (h : Progress s₀ inp a inc len first n m ds)
    (hreading : (run step s₀ inp n).Reading) (hreset : (inp n).iReset = false)
    (herr : (inp n).iWbAck = true → (inp n).iWbErr = false)
    (hanswered : answered (inp n) = true → 0 < inFlight s₀ inp n) :
  (run step s₀ inp n).Counted (inp n)
    ∧ (answered (inp n) = (inp n).iWbAck → Progress s₀ inp a inc len first (n + 1)
        (m + ((run step s₀ inp n).request (inp n)).toNat)
        (ds ++ if (inp n).iWbAck then [(inp n).iWbData] else []))
    ∧ requested s₀ inp (n + 1)
      = (List.range (m + ((run step s₀ inp n).request (inp n)).toNat)).map (readAddr a inc)
    ∧ (run step s₀ inp (n + 1)).oWbAddr
      = readAddr a inc (m + ((run step s₀ inp n).request (inp n)).toNat)
  := by
  have hflight := h.inFlight
  have hacked := h.acked
  have hrequested := h.requested
  have haddr := h.oWbAddr
  have hrInc := h.rInc
  have hreturns := h.returns
  have hlen := h.rLen
  have hacks := h.rAcksNeeded
  have hsum : inFlight s₀ inp (n + 1) = if (run step s₀ inp n).oWbCyc then
      inFlight s₀ inp n + (if (run step s₀ inp n).request (inp n) then 1 else 0)
        - (if answered (inp n) then 1 else 0) else 0 := rfl
  rw [acked] at hacked
  rw [requested] at hrequested
  rw [hreading.oWbCyc, if_pos rfl, hflight] at hsum
  rw [hflight] at hanswered
  have hcounted : (run step s₀ inp n).Counted (inp n) := by
    apply hreading.counted hreset
    intro hack
    have := hanswered (by rw [answered, hack]; rfl)
    omega
  have hrequested' : requested s₀ inp (n + 1)
      = (List.range (m + ((run step s₀ inp n).request (inp n)).toNat)).map
        (readAddr a inc) := by
    rw [requested, log_succ, hrequested, haddr]
    cases (run step s₀ inp n).request (inp n) with
    | true => simp [List.range_succ]
    | false => simp
  have haddr' : (run step s₀ inp (n + 1)).oWbAddr
      = readAddr a inc (m + ((run step s₀ inp n).request (inp n)).toNat) := by
    rw [run_succ, hreading.oWbAddr_step, hrInc, haddr]
    cases (run step s₀ inp n).request (inp n) with
    | true => simp [readAddr_succ]
    | false => simp
  refine ⟨hcounted, ?_, hrequested', haddr'⟩
  intro honly
  obtain ⟨hlen', hacks'⟩ := hcounted
  rw [← run_succ step s₀ inp n] at hlen' hacks'
  rw [honly] at hsum hanswered
  constructor
  · rw [run_succ, hreading.rInc_step, hrInc]
  · omega
  · cases hack : (inp n).iWbAck <;> simp [hack] at hacks' ⊢ <;> omega
  · apply haddr'
  · apply hrequested'
  · rw [acked, log_succ, hacked, hreading.oWbCyc]
    rfl
  · have herr' : (inp n).iWbErr = false := by
      cases hack : (inp n).iWbAck with
      | true => apply herr hack
      | false => rwa [answered, hack, Bool.false_or] at honly
    rw [returns] at hreturns
    rw [returns, log_succ, hreturns, run_succ, hreading.returned_step hreset herr', hrInc,
      List.map_append, List.append_assoc]
    cases (inp n).iWbAck <;> rfl
  · cases hack : (inp n).iWbAck <;> cases hreq : (run step s₀ inp n).request (inp n) <;>
      simp [hack, hreq] at hsum hacks' hanswered ⊢ <;> omega

/-- A read is accepted. -/
theorem progress_first (hidle : s₀.Idle) (hreset : (inp 0).iReset = false)
    (hstb : (inp 0).iStb = true) (hread : (inp 0).iCodword.isRead = true)
    (hlen : (inp 0).iCodword.readLen ≠ 0) :
  (run step s₀ inp 1).Reading
    ∧ Progress s₀ inp s₀.oWbAddr (inp 0).iCodword.inc (inp 0).iCodword.readLen.toNat
      (if s₀.announces then [2#4 ++ s₀.oWbAddr] else []) 1 0 []
  := by
  obtain ⟨hreading, howed, hreturned⟩ := hidle.step_read hreset hstb hread hlen
  have hneeded : (run step s₀ inp 1).rAcksNeeded = 0 := by
    simp [run, step, hidle.oWbCyc]
  rw [owed, if_pos hreading.wbState] at howed
  have hneeded' : (step s₀ (inp 0)).rAcksNeeded.toNat = 0 := congrArg BitVec.toNat hneeded
  use hreading
  constructor
  · simp [run, step, hidle.wbState]
  · change (step s₀ (inp 0)).rLen.toNat + 0 = _
    omega
  · rw [hneeded]
    rfl
  · change (step s₀ (inp 0)).oWbAddr = _
    rw [hidle.oWbAddr_step_read hread, readAddr]
    cases (inp 0).iCodword.inc <;> simp
  · simp [requested, log_succ, request, hidle.oWbStb]
  · simp [acked, log_succ, hidle.oWbCyc]
  · rw [returns, log_succ, log_zero, List.nil_append]
    simpa [run] using hreturned
  · rw [hneeded]
    simp [inFlight, Wishbone.outstanding, hidle.oWbCyc]

variable (s₀ inp a inc len first) in
/-- The read is going on before clock `n`; `k` counts the requests and answers to come. -/
def Underway (n k : ℕ) : Prop :=
  ∃ m ds, (run step s₀ inp n).Reading ∧ Progress s₀ inp a inc len first n m ds
    ∧ k = 2 * (run step s₀ inp n).rLen.toNat + (run step s₀ inp n).rAcksNeeded.toNat

variable (s₀ inp a inc len first) in
/-- Clock `n` is the last one of the read: either the last word is acknowledged, or an error
comes in place of a word. -/
structure Ends (n m : ℕ) (ds : List (BitVec 32)) : Prop where
  idle : (run step s₀ inp (n + 1)).Idle
  requested : requested s₀ inp (n + 1) = (List.range m).map (readAddr a inc)
  oWbAddr : (run step s₀ inp (n + 1)).oWbAddr = readAddr a inc m
  acked : acked s₀ inp (n + 1) = ds
  whole : (inp n).iWbErr = false → (inp n).iWbAck = true ∧ m = len ∧ ds.length = len
    ∧ returns s₀ inp (n + 1) = first ++ ds.map (dataWord inc)
  broken : (inp n).iWbErr = true → m ≤ len ∧ ds.length < len
    ∧ returns s₀ inp (n + 1) = first ++ ds.map (dataWord inc) ++ [errWord (inp n).iWbData]

/-- Something happens to the read at clock `n`. -/
def moves (s₀ : Wbuexec) (inp : ℕ → Input) (n : ℕ) : Prop :=
  (run step s₀ inp n).request (inp n) = true ∨ answered (inp n) = true

/-- An error ends the read. -/
theorem ends_of_err (h : Progress s₀ inp a inc len first n m ds)
    (hreading : (run step s₀ inp n).Reading) (hreset : (inp n).iReset = false)
    (hslave : SlaveAnswers s₀ inp) (herr : (inp n).iWbErr = true) :
  Ends s₀ inp a inc len first n (m + ((run step s₀ inp n).request (inp n)).toNat) ds
  := by
  have hanswered : answered (inp n) = true := by rw [answered, herr, Bool.or_true]
  have hack : (inp n).iWbAck = false := by
    by_contra hack
    have := hslave.single n hreading.oWbCyc (by simpa using hack)
    rw [herr] at this
    cases this
  have hflight := hslave.earlier n hreading.oWbCyc hanswered
  obtain ⟨hidle, hreturned⟩ := hreading.step_err hreset herr
  obtain ⟨hcounted, -, hrequested, haddr⟩ := progress_step h hreading hreset
    (fun hack' => by rw [hack] at hack'; cases hack') (fun _ => hflight)
  have hneeded := h.inFlight
  have hlen := h.rLen
  have hacks := h.rAcksNeeded
  constructor
  · apply hidle
  · apply hrequested
  · apply haddr
  · have hacked := h.acked
    rw [Wbuexec.acked] at hacked
    rw [Wbuexec.acked, log_succ, hacked, hack, Bool.and_false]
    simp
  · intro herr'
    rw [herr] at herr'
    cases herr'
  · intro _
    have hpos : 0 < (run step s₀ inp n).rAcksNeeded.toNat := by
      rw [← hneeded]
      apply hflight
    have := hcounted.rLen
    refine ⟨by omega, by omega, ?_⟩
    rw [returns, log_succ, ← returns, h.returns, run_succ, hreturned]

/-- A clock of a read is its last one, or the read is still going on after it. -/
theorem Underway.step {k : ℕ} (h : Underway s₀ inp a inc len first n k)
    (hreset : (inp n).iReset = false) (hslave : SlaveAnswers s₀ inp) :
  ((∃ m ds, Ends s₀ inp a inc len first n m ds) ∧ answered (inp n) = true)
    ∨ ∃ k' ≤ k, Underway s₀ inp a inc len first (n + 1) k' ∧ (moves s₀ inp n → k' < k)
  := by
  obtain ⟨m, ds, hreading, hprogress, rfl⟩ := h
  cases herr : (inp n).iWbErr with
  | true =>
      left
      refine ⟨⟨_, _, ends_of_err hprogress hreading hreset hslave herr⟩, ?_⟩
      rw [answered, herr, Bool.or_true]
  | false =>
      have honly : answered (inp n) = (inp n).iWbAck := by rw [answered, herr, Bool.or_false]
      have hflight : answered (inp n) = true → 0 < inFlight s₀ inp n :=
        hslave.earlier n hreading.oWbCyc
      have hack : (run Wbuexec.step s₀ inp n).AckOwed (inp n) := by
        intro hack
        have := hflight (by rw [honly, hack])
        rw [hprogress.inFlight] at this
        omega
      obtain ⟨hcounted, hnext, hrequested, haddr⟩ :=
        progress_step hprogress hreading hreset (fun _ => herr) hflight
      have hprogress' := hnext honly
      have hlen := hcounted.rLen
      have hneeded := hcounted.rAcksNeeded
      have hmore := hreading.more
      rw [← run_succ Wbuexec.step s₀ inp n] at hlen hneeded
      obtain ⟨howed, hreading' | ⟨hidle', hzero⟩⟩ := hreading.step hreset herr hack
      · right
        refine ⟨_, ?_, ⟨_, _, hreading', hprogress', rfl⟩, ?_⟩
        · rw [run_succ] at hlen hneeded ⊢
          have := Bool.toNat_le ((run Wbuexec.step s₀ inp n).request (inp n))
          omega
        · intro hmoves
          rw [moves, honly] at hmoves
          have : 0 < ((run Wbuexec.step s₀ inp n).request (inp n)).toNat + (inp n).iWbAck.toNat := by
            rcases hmoves with hreq | hack'
            · rw [hreq, Bool.toNat_true]
              omega
            · rw [hack', Bool.toNat_true]
              omega
          omega
      · left
        rw [owed, hidle'.wbState, if_neg (by decide), owed, if_pos hreading.wbState] at howed
        have hacked : (inp n).iWbAck = true := by
          by_contra hnot
          rw [Bool.not_eq_true] at hnot
          rw [hnot, Bool.toNat_false] at howed
          omega
        rw [honly]
        refine ⟨⟨_, _, hidle', hrequested, haddr, hprogress'.acked, ?_, ?_⟩, hacked⟩
        · intro _
          have hlen' := hprogress'.rLen
          have hneeded' := hprogress'.rAcksNeeded
          rw [run_succ, hzero] at hlen'
          rw [hacked, Bool.toNat_true] at howed hneeded
          simp only [BitVec.ofNat_eq_ofNat, BitVec.toNat_ofNat, Nat.zero_mod] at hlen'
          rw [run_succ] at hlen
          rw [hzero] at hlen
          simp only [BitVec.ofNat_eq_ofNat, BitVec.toNat_ofNat, Nat.zero_mod] at hlen
          refine ⟨hacked, by omega, by omega, hprogress'.returns⟩
        · intro herr'
          rw [herr] at herr'
          cases herr'

variable (s₀ inp a inc len first) in
/-- The read has ended at the clock before clock `n`. -/
def Over (n : ℕ) : Prop :=
  ∃ n' m ds, n = n' + 1 ∧ Ends s₀ inp a inc len first n' m ds

theorem Underway.next {k : ℕ} (h : Underway s₀ inp a inc len first n k)
    (hreset : (inp n).iReset = false) (hslave : SlaveAnswers s₀ inp) :
  Over s₀ inp a inc len first (n + 1)
    ∨ ∃ k' ≤ k, Underway s₀ inp a inc len first (n + 1) k' ∧ (moves s₀ inp n → k' < k)
  := by
  rcases h.step hreset hslave with ⟨⟨m, ds, hends⟩, -⟩ | hnext
  · left
    use n, m, ds
  · right
    apply hnext

/-- A read that is going on moves sooner or later. -/
theorem Underway.moves {k : ℕ} (h : Underway s₀ inp a inc len first n k)
    (hreset : ∀ n, (inp n).iReset = false) (hslave : SlaveAnswers s₀ inp) :
  ∃ m, n ≤ m ∧ moves s₀ inp m
  := by
  by_contra hnever
  push Not at hnever
  have hstays : ∀ d, ∃ k', Underway s₀ inp a inc len first (n + d) k' := by
    intro d
    induction d with
    | zero => exact ⟨k, h⟩
    | succ d ih =>
        obtain ⟨k', hk'⟩ := ih
        rcases hk'.step (hreset _) hslave with ⟨-, hanswered⟩ | ⟨k'', -, hk'', -⟩
        · cases hnever (n + d) (Nat.le_add_right n d) (Or.inr hanswered)
        · exact ⟨k'', hk''⟩
  obtain ⟨m, hm, hstall⟩ := hslave.fair n
  obtain ⟨d, rfl⟩ := Nat.exists_eq_add_of_le hm
  obtain ⟨_, m, ds, hreading, hprogress, -⟩ := hstays d
  have hzero : (run Wbuexec.step s₀ inp (n + d)).rLen = 0 := by
    by_contra hne
    apply hnever (n + d) hm
    left
    rw [request, hreading.oWbStb, hstall, decide_eq_true hne]
    rfl
  have hflight : 0 < inFlight s₀ inp (n + d) := by
    have hmore := hreading.more
    rw [hzero] at hmore
    rw [hprogress.inFlight]
    simpa using hmore
  obtain ⟨m', hm', hcyc | hanswered⟩ := hslave.answered (n + d) hflight
  · obtain ⟨d', rfl⟩ := Nat.exists_eq_add_of_le (Nat.le_trans hm hm')
    obtain ⟨_, _, _, hreading', -⟩ := hstays d'
    rw [hreading'.oWbCyc] at hcyc
    cases hcyc
  · apply hnever m' (Nat.le_trans hm hm') (Or.inr hanswered)

/-- As long as no transfer is accepted the executor stays idle after a read, and returns
nothing more. -/
theorem Idle.silent {n : ℕ} (h : (run step s₀ inp n).Idle) (hreset : ∀ n, (inp n).iReset = false)
    {m : ℕ} (hm : n ≤ m)
    (hnone : ∀ k, n ≤ k → k < m →
      ((inp k).iStb && ((inp k).iCodword.isWrite || (inp k).iCodword.isRead)) = false) :
  (run step s₀ inp m).Idle ∧ returns s₀ inp m = returns s₀ inp n
  := by
  induction hm with
  | refl => exact ⟨h, rfl⟩
  | @step m hm ih =>
      obtain ⟨hidle, hreturns⟩ := ih (fun k hk hk' => hnone k hk (Nat.lt_succ_of_lt hk'))
      have hcmd := hnone m hm (Nat.lt_succ_self m)
      have hread : ((inp m).iStb && (inp m).iCodword.isRead) = false := by
        cases hr : (inp m).iCodword.isRead <;> simp_all
      constructor
      · rw [run_succ]
        apply hidle.step_other (hreset m) hcmd
      · rw [returns] at hreturns ⊢
        rw [log_succ, hreturns, run_succ, hidle.returned_step (hreset m) hread, List.append_nil,
          returns]

/-- A read of `len` words that an idle executor accepts, whatever the slave does. It ends
with the answer at some clock, until which the cycle is up, neither count wraps and there is
no error. Without an error `len` requests have been accepted then, from the address on, and
the `len` words acknowledged have been returned, after the address if it was new. An error
is returned after the words before it. Then the executor is idle, and whatever answers still
come, returns nothing until it accepts the next transfer. -/
theorem read_ends (hidle : s₀.Idle) (hreset : ∀ n, (inp n).iReset = false)
    (hslave : SlaveAnswers s₀ inp) (hstb : (inp 0).iStb = true)
    (hread : (inp 0).iCodword.isRead = true) (hlen : (inp 0).iCodword.readLen ≠ 0) :
  ∃ n m ds, 0 < n
    ∧ (∀ k, 0 < k → k ≤ n →
      (run step s₀ inp k).oWbCyc = true ∧ (run step s₀ inp k).Counted (inp k))
    ∧ (∀ k, 0 < k → k < n → (inp k).iWbErr = false)
    ∧ Ends s₀ inp s₀.oWbAddr (inp 0).iCodword.inc (inp 0).iCodword.readLen.toNat
      (if s₀.announces then [2#4 ++ s₀.oWbAddr] else []) n m ds
    ∧ ∀ k, n < k →
      (∀ j, n < j → j < k →
        ((inp j).iStb && ((inp j).iCodword.isWrite || (inp j).iCodword.isRead)) = false) →
      (run step s₀ inp k).Idle ∧ returns s₀ inp k = returns s₀ inp (n + 1)
  := by
  obtain ⟨hreading, hprogress⟩ := progress_first hidle (hreset 0) hstb hread hlen
  have hfirst : Underway s₀ inp s₀.oWbAddr (inp 0).iCodword.inc (inp 0).iCodword.readLen.toNat
      (if s₀.announces then [2#4 ++ s₀.oWbAddr] else []) 1 _ :=
    ⟨0, [], hreading, hprogress, rfl⟩
  obtain ⟨n', hn', ⟨n, m, ds, hnext, hends⟩, hwork⟩ := reaches_of_rank
    (fun n k h => h.next (hreset n) hslave) (fun n k h => h.moves hreset hslave) hfirst
  obtain rfl : n' = n + 1 := hnext
  refine ⟨n, m, ds, by omega, ?_, ?_, hends, ?_⟩
  · intro k hk hk'
    obtain ⟨_, _, _, hreading, hprogress, -⟩ := hwork k hk (by omega)
    use hreading.oWbCyc
    apply (progress_step hprogress hreading (hreset k) (hslave.single k hreading.oWbCyc)
      (hslave.earlier k hreading.oWbCyc)).1
  · intro k hk hk'
    obtain ⟨_, _, _, hreading, -⟩ := hwork k hk (by omega)
    obtain ⟨_, _, _, hreading', -⟩ := hwork (k + 1) (by omega) (by omega)
    by_contra herr
    have hover := (hreading.step_err (hreset k) (by simpa using herr)).1.oWbCyc
    rw [← run_succ step s₀ inp k, hreading'.oWbCyc] at hover
    cases hover
  · intro k hk hnone
    apply hends.idle.silent hreset hk
    intro j hj hj'
    apply hnone j hj hj'

end Runs

/-- A read of four words. The slave stalls the second and the third request, and answers the
last one with an error if `fails`. -/
def fourWords (fails : Bool) (n : ℕ) : Input where
  iReset := false
  iStb := n == 0
  iCodword := 0xc40000004
  iWbStall := n == 2 || n == 4
  iWbAck := n == 3 || n == 6 || n == 7 || (n == 9 && !fails)
  iWbErr := n == 9 && fails
  iWbData := BitVec.ofNat 32 n

theorem fourWords_idle (fails : Bool) {n : ℕ} (h : 10 ≤ n) :
  (run step (idleAt 0x400) (fourWords fails) n).Idle
  := by
  have hten : (run step (idleAt 0x400) (fourWords fails) 10).Idle := by
    constructor <;> revert fails <;> decide
  apply (hten.silent (fun _ => rfl) h _).1
  intro k hk _
  obtain ⟨k, rfl⟩ := Nat.exists_eq_add_of_le' hk
  rfl

theorem fourWords_answers (fails : Bool) :
  SlaveAnswers (idleAt 0x400) (fourWords fails)
  := by
  constructor
  · intro n
    use n + 5
    constructor
    · omega
    · simp [fourWords]
  · intro n _ hack
    cases fails with
    | true =>
        have : n ≠ 9 := by
          rintro rfl
          cases hack
        simp [fourWords, this]
    | false => simp [fourWords]
  · intro n hcyc hanswered
    have hflight : ∀ fails, ∀ n < 10, answered (fourWords fails n) = true →
        0 < inFlight (idleAt 0x400) (fourWords fails) n := by decide
    apply hflight fails n _ hanswered
    by_contra hn
    rw [(fourWords_idle fails (by omega)).oWbCyc] at hcyc
    cases hcyc
  · intro n _
    use n + 10
    constructor
    · omega
    · left
      apply (fourWords_idle fails (by omega)).oWbCyc

/-- The cycle of the read is up at clocks 1 to 9. -/
theorem fourWords_last {fails : Bool} {n : ℕ}
    (hcyc : ∀ k, 0 < k → k ≤ n → (run step (idleAt 0x400) (fourWords fails) k).oWbCyc = true)
    (hidle : (run step (idleAt 0x400) (fourWords fails) (n + 1)).Idle) :
  n = 9
  := by
  rcases Nat.lt_trichotomy n 9 with hlt | heq | hgt
  · have hup : ∀ fails, ∀ n < 9,
        (run step (idleAt 0x400) (fourWords fails) (n + 1)).oWbCyc = true := by decide
    have hdown := hidle.oWbCyc
    rw [hup fails n hlt] at hdown
    cases hdown
  · apply heq
  · have hup := hcyc 10 (by decide) hgt
    rw [(fourWords_idle fails (Nat.le_refl 10)).oWbCyc] at hup
    cases hup

theorem read_ends_fourWords :
  (∃ n, (run step (idleAt 0x400) (fourWords false) (n + 1)).Idle
    ∧ requested (idleAt 0x400) (fourWords false) (n + 1) = [0x400, 0x401, 0x402, 0x403]
    ∧ returns (idleAt 0x400) (fourWords false) (n + 1)
      = (2#4 ++ 0x400#32) :: [3, 6, 7, 9].map (dataWord true))
  ∧ ∃ n, (run step (idleAt 0x400) (fourWords true) (n + 1)).Idle
    ∧ returns (idleAt 0x400) (fourWords true) (n + 1)
      = (2#4 ++ 0x400#32) :: [3, 6, 7].map (dataWord true) ++ [errWord 9]
  := by
  constructor
  · obtain ⟨n, m, ds, -, hcyc, -, hends, -⟩ := read_ends (idleAt_idle 0x400) (fun _ => rfl)
      (fourWords_answers false) rfl (by decide) (by decide)
    obtain rfl := fourWords_last (fun k hk hk' => (hcyc k hk hk').1) hends.idle
    obtain ⟨-, hm, -, hreturns⟩ := hends.whole rfl
    have hds : ds = [3, 6, 7, 9] := by
      rw [← hends.acked]
      decide
    use 9, hends.idle
    constructor
    · rw [hends.requested, hm]
      decide
    · rw [hreturns, hds]
      decide
  · obtain ⟨n, m, ds, -, hcyc, -, hends, -⟩ := read_ends (idleAt_idle 0x400) (fun _ => rfl)
      (fourWords_answers true) rfl (by decide) (by decide)
    obtain rfl := fourWords_last (fun k hk hk' => (hcyc k hk hk').1) hends.idle
    obtain ⟨-, -, hreturns⟩ := hends.broken rfl
    have hds : ds = [3, 6, 7] := by
      rw [← hends.acked]
      decide
    use 9, hends.idle
    rw [hreturns, hds]
    decide

end Wbuexec

end ZBasic
