import Mathlib.Data.Nat.Count
import Mathlib.Tactic.IntervalCases
import ZBasic.Wbscope.Recording

/-!
# What the compressed scope captures

Whenever the compressed scope has stopped, the words from the oldest one on stand for the last
samples, without a gap, up to the one with which it stopped. A count of `k` stands for `k + 1` more
of the value before it; the counts before the first value belong to a value that is lost.
-/

namespace ZBasic

open Clocked

namespace Wbscopc

variable {lg e b st : ℕ}

/-! ### Stopping -/

/-- `n` ones in the lowest bits of `dr_stop_pipe`. -/
def ones (n : ℕ) : BitVec 5 := .ofNat 5 (2 ^ n - 1)

theorem ones_shift {n : ℕ} (hn : n ≤ 4) :
  (ones n).extractLsb' 0 4 ++ BitVec.ofBool true = ones (n + 1)
  := by
  interval_cases n <;> decide

/-- The scope has not stopped yet. -/
structure Running (maxStep : BitVec st) (samples captured : List (BitVec 31))
    (written : List (BitVec 32)) (p : Wbscopc lg e b st) : Prop where
  recorded : ∃ v ws, Recorded maxStep v samples written ws p
  drStopped : p.drStopped = false
  drStopPipe : p.drStopPipe = 0
  captured : captured = samples

/-- The scope has stopped, and has taken `n` samples since. -/
structure Stopping (maxStep : BitVec st) (n : ℕ) (samples captured : List (BitVec 31))
    (written : List (BitVec 32)) (p : Wbscopc lg e b st) : Prop where
  recorded : ∃ v ws, Recorded maxStep v samples written ws p
    ∧ 2 ^ lg + 1 + n ≤ (p.record ws).length ∧ (3 ≤ n → ∃ us a, ws = us ++ [.value a])
  drStopped : p.drStopped = true
  drTriggered : p.drTriggered = true
  drStopPipe : p.drStopPipe = ones n
  captured : ∃ late, late.length = n ∧ samples = captured ++ late
  immAdr : 1 ≤ n → p.immAdr = false
  lstAdr : 2 ≤ n → p.lstAdr = false

/-- Nothing is recorded any more. What has been recorded stands for the samples taken before the
scope stopped, after one that it held before. -/
structure Stopped (captured : List (BitVec 31)) (written : List (BitVec 32))
    (p : Wbscopc lg e b st) : Prop where
  out : ∃ stray v us a, (written ++ p.pending).map wordOf
      = stray ++ .count 0 :: .value v :: (us ++ [.value a])
    ∧ Word.decodeAfter repeats v (us ++ [.value a]) = captured ∧ 2 ^ lg ≤ us.length + 1
  drStopped : p.drStopped = true
  drTriggered : p.drTriggered = true
  drStopPipe : ∃ n, 3 ≤ n ∧ n ≤ 5 ∧ p.drStopPipe = ones n ∧ (4 ≤ n → p.recordCe = false)

section Step

variable {maxStep : BitVec st} {n : ℕ} {samples captured : List (BitVec 31)}
  {written : List (BitVec 32)} {p : Wbscopc lg e b st} {i : Input e}

theorem running_of_dwReset (hreset : p.dwReset = true) :
  Running maxStep [] [] [] (p.step i maxStep)
  := by
  constructor
  case recorded => exact ⟨_, _, recorded_of_dwReset hreset⟩
  case drStopped => simp [step, hreset]
  case drStopPipe => simp [step, hreset]
  case captured => rfl

theorem drTriggered_step (hreset : p.dwReset = false) (htriggered : p.drTriggered = true) :
  (p.step i maxStep).drTriggered = true
  := by simp [step, hreset, htriggered]

theorem drStopped_step (hreset : p.dwReset = false) (htriggered : p.drTriggered = true)
    (hstopped : p.drStopped = true) :
  (p.step i maxStep).drStopped = true
  := by simp [step, hreset, htriggered, hstopped]

/-- The scope goes on until it stops. -/
theorem Running.step (hlg : 1 ≤ lg) (hst : st ≤ 31) (hmax : maxStep ≠ 0)
    (h : Running maxStep samples captured written p) (hstored : Stored written p)
    (hprimed : p.drTriggered = true → p.drPrimed = true) (hreset : p.dwReset = false) :
  Running maxStep (samples ++ sampled i) (captured ++ sampled i) (written ++ p.pending)
      (p.step i maxStep)
    ∨ Stopping maxStep 0 (samples ++ sampled i) (captured ++ sampled i) (written ++ p.pending)
      (p.step i maxStep)
  := by
  obtain ⟨v, ws, hrecorded⟩ := h.recorded
  have hpipe : p.drStopPipe.getLsbD 2 = false := by
    rw [h.drStopPipe]
    rfl
  have hnext := hrecorded.step (i := i) hlg hst hmax hstored hreset hpipe
  have hnone : (p.step i maxStep).drStopPipe = 0 := by
    simp only [Wbscopc.step, hreset, h.drStopPipe, h.drStopped, Bool.false_eq_true, if_false]
    split_ifs <;> rfl
  cases hstopped : (p.step i maxStep).drStopped with
  | false =>
      left
      exact ⟨⟨v, _, hnext⟩, hstopped, hnone, by rw [h.captured]⟩
  | true =>
      right
      have htriggered : p.drTriggered = true := by
        cases htriggered : p.drTriggered with
        | true => rfl
        | false => simp [Wbscopc.step, htriggered] at hstopped
      constructor
      case recorded =>
          have hlong := hrecorded.filled (hprimed htriggered)
          have hlonger := @length_record_le _ _ _ _ maxStep ws p i hst hreset
          use v, ws ++ p.leaving i, hnext, by omega
          intro hnot
          omega
      case drStopped => apply hstopped
      case drTriggered => apply drTriggered_step hreset htriggered
      case drStopPipe =>
          rw [hnone]
          rfl
      case captured =>
          use []
          rw [List.append_nil, h.captured]
          exact ⟨rfl, rfl⟩
      case immAdr =>
          intro hnot
          omega
      case lstAdr =>
          intro hnot
          omega

/-- Once it has stopped, the scope takes three more samples. -/
theorem Stopping.step (hlg : 1 ≤ lg) (hst : st ≤ 31) (hmax : maxStep ≠ 0) (hn : n ≤ 2)
    (h : Stopping maxStep n samples captured written p) (hstored : Stored written p)
    (hreset : p.dwReset = false) :
  Stopping maxStep (if i.iCe then n + 1 else n) (samples ++ sampled i) captured
    (written ++ p.pending) (p.step i maxStep)
  := by
  obtain ⟨v, ws, hrecorded, hlong, -⟩ := h.recorded
  obtain ⟨late, hlate, hsamples⟩ := h.captured
  have hpipe : p.drStopPipe.getLsbD 2 = false := by
    rw [h.drStopPipe]
    interval_cases n <;> rfl
  have hnext := hrecorded.step (i := i) hlg hst hmax hstored hreset hpipe
  have hrecord := @record_leaving _ _ _ _ maxStep ws p i hst hreset
  have hvalue : p.writesValue = true := by rw [writesValue, h.drStopped, Bool.or_true]
  cases hce : i.iCe with
  | false =>
      rw [hce, if_neg Bool.false_ne_true] at hrecord
      rw [if_neg Bool.false_ne_true]
      constructor
      case recorded =>
          use v, ws ++ p.leaving i, hnext, by rw [hrecord]; exact hlong
          intro hnot
          omega
      case drStopped => apply drStopped_step hreset h.drTriggered h.drStopped
      case drTriggered => apply drTriggered_step hreset h.drTriggered
      case drStopPipe => simp [Wbscopc.step, hreset, hce, h.drStopPipe]
      case captured =>
          use late, hlate
          rw [sampled, hce, if_neg Bool.false_ne_true, List.append_nil, hsamples]
      case immAdr => simpa [Wbscopc.step, hreset, hce] using h.immAdr
      case lstAdr => simpa [Wbscopc.step, hreset, hce] using h.lstAdr
  | true =>
      rw [hce, if_pos rfl, nextWord, hvalue, if_pos rfl] at hrecord
      rw [if_pos rfl]
      constructor
      case recorded =>
          use v, ws ++ p.leaving i, hnext
          constructor
          · rw [hrecord, Word.length_add_value]
            omega
          · intro hthree
            obtain ⟨a, ha⟩ : ∃ a, p.lst = .value a := by
              apply Word.eq_value_of_isCount
              rw [lst, isCount_scopeWord]
              apply h.lstAdr (by omega)
            use ws, a
            rw [leaving, hce, if_pos rfl, ha]
            rfl
      case drStopped => apply drStopped_step hreset h.drTriggered h.drStopped
      case drTriggered => apply drTriggered_step hreset h.drTriggered
      case drStopPipe =>
          have hshift : (p.step i maxStep).drStopPipe
              = p.drStopPipe.extractLsb' 0 4 ++ BitVec.ofBool p.drStopped := by
            simp [Wbscopc.step, hreset, hce]
          rw [hshift, h.drStopPipe, h.drStopped]
          apply ones_shift (by omega)
      case captured =>
          use late ++ sampled i
          rw [hsamples, List.append_assoc, List.length_append, hlate, sampled, hce, if_pos rfl]
          exact ⟨rfl, rfl⟩
      case immAdr =>
          intro _
          simp [Wbscopc.step, hreset, hce, hvalue]
      case lstAdr =>
          intro hone
          simpa [Wbscopc.step, hreset, hce] using h.immAdr (by omega)

/-- What the first word that is a value stands for. -/
theorem decode_of_starts (v : BitVec 31) (us : List (Word (BitVec 31))) (c d : BitVec 31) :
  Word.decode repeats (.count 0 :: .value v :: (us ++ [.value c, .value d]))
    = v :: (Word.decodeAfter repeats v us ++ [c, d])
  := by
  rw [Word.decode, Word.decode, Word.decodeAfter_append]
  rfl

/-- With the third sample the last word from before the stop has been recorded. -/
theorem Stopping.stopped (h : Stopping maxStep 3 samples captured written p) :
  Stopped captured written p
  := by
  obtain ⟨v, ws, hrecorded, hlong, hlast⟩ := h.recorded
  obtain ⟨late, hlate, hsamples⟩ := h.captured
  obtain ⟨us, a, rfl⟩ := hlast (Nat.le_refl 3)
  obtain ⟨stray, -, hout⟩ := hrecorded.out
  obtain ⟨c, hc⟩ : ∃ c, p.lst = .value c := by
    apply Word.eq_value_of_isCount
    rw [lst, isCount_scopeWord]
    apply h.lstAdr (by omega)
  obtain ⟨d, hd⟩ : ∃ d, p.imm = .value d := by
    apply Word.eq_value_of_isCount
    rw [imm, isCount_scopeWord]
    apply h.immAdr (by omega)
  have hrecord : p.record (us ++ [.value a]) = us ++ [.value a] ++ [.value c, .value d] := by
    rw [record, hc, hd]
    rfl
  have hdecoded := hrecorded.recording.decoded
  rw [hrecord] at hlong hdecoded
  rw [List.length_append, List.length_append] at hlong
  have hpos := Nat.two_pow_pos lg
  have hstarts := hrecorded.recording.starts
  rw [hrecord] at hstarts
  rcases us with _ | ⟨w, _ | ⟨w', us⟩⟩
  · simp at hlong
  · simp at hlong
  · obtain ⟨rfl, rfl⟩ : w = .count 0 ∧ w' = .value v := by
      rcases hstarts with hone | ⟨rest, hrest⟩
      · simp at hone
      · simp only [List.cons_append, List.cons.injEq] at hrest
        exact ⟨hrest.1, hrest.2.1⟩
    simp only [List.cons_append] at hdecoded hout
    rw [decode_of_starts, hsamples, List.cons_append, List.cons.injEq, List.append_assoc] at hdecoded
    obtain ⟨hcaptured, -⟩ := List.append_inj' hdecoded.2 (by rw [hlate]; rfl)
    constructor
    case out =>
        use stray, v, us, a, hout, hcaptured
        simp at hlong
        omega
    case drStopped => apply h.drStopped
    case drTriggered => apply h.drTriggered
    case drStopPipe => exact ⟨3, Nat.le_refl 3, by omega, h.drStopPipe, fun hnot => by omega⟩

theorem ones_getLsbD {n k : ℕ} (hn : n ≤ 5) (hk : k < n) :
  (ones n).getLsbD k = true
  := by
  interval_cases n <;> interval_cases k <;> rfl

/-- From then on nothing is recorded. -/
theorem Stopped.step (h : Stopped captured written p) (hreset : p.dwReset = false) :
  Stopped captured (written ++ p.pending) (p.step i maxStep)
  := by
  obtain ⟨n, hthree, hfive, hpipe, hquiet⟩ := h.drStopPipe
  have hnone : (p.step i maxStep).recordCe = false := by
    have hbit : (ones n).getLsbD 2 = true := ones_getLsbD hfive hthree
    simp only [Wbscopc.step, hpipe, hbit, Bool.not_true, Bool.and_false]
  have hpending : (p.step i maxStep).pending = [] := by
    rw [pending, hnone, if_neg Bool.false_ne_true]
  constructor
  case out =>
      obtain ⟨stray, v, us, a, hout, hrest⟩ := h.out
      use stray, v, us, a
      rw [hpending, List.append_nil]
      exact ⟨hout, hrest⟩
  case drStopped => apply drStopped_step hreset h.drTriggered h.drStopped
  case drTriggered => apply drTriggered_step hreset h.drTriggered
  case drStopPipe =>
      cases hce : i.iCe with
      | false =>
          use n, hthree, hfive
          simpa [Wbscopc.step, hreset, hce] using hpipe
      | true =>
          have hshift : (p.step i maxStep).drStopPipe
              = p.drStopPipe.extractLsb' 0 4 ++ BitVec.ofBool p.drStopped := by
            simp [Wbscopc.step, hreset, hce]
          rw [hshift, hpipe, h.drStopped, hnone]
          rcases Nat.lt_or_eq_of_le hfive with hlt | rfl
          · use n + 1, by omega, by omega
            exact ⟨ones_shift (by omega), fun _ => rfl⟩
          · use 5, by omega, by omega
            exact ⟨by decide, fun _ => rfl⟩

end Step

section Runs

variable (maxStep : BitVec st) (s₀ : Wbscopc lg e b st) (inp : ℕ → Input e)

/-- The registers before the clock `n`. -/
def state (n : ℕ) : Wbscopc lg e b st := run (fun p i => p.step i maxStep) s₀ inp n

/-- The samples taken since the last reset before clock `n`. -/
def samples (n : ℕ) : List (BitVec 31) :=
  logSince (fun k => (state maxStep s₀ inp k).dwReset) (fun k => sampled (inp k)) n

/-- Those of them that were taken before the scope stopped. -/
def captured (n : ℕ) : List (BitVec 31) :=
  logSince (fun k => (state maxStep s₀ inp k).dwReset)
    (fun k => if (state maxStep s₀ inp k).drStopped then [] else sampled (inp k)) n

/-- The words stored in the memory since the last reset before clock `n`. -/
def stored (n : ℕ) : List (BitVec 32) :=
  logSince (fun k => (state maxStep s₀ inp k).dwReset)
    (fun k => (state maxStep s₀ inp k).pending) n

/-- How many samples had been taken when the trigger was seen. -/
def triggeredAt : ℕ → Option ℕ
  | 0 => none
  | n + 1 =>
      if (state maxStep s₀ inp n).dwReset then none
      else if (inp n).iCe && (state maxStep s₀ inp n).dwTrigger (inp n)
          && !(state maxStep s₀ inp n).drTriggered then
        some (samples maxStep s₀ inp n).length
      else triggeredAt n

/-- The number of data reads after clock `w` and before clock `r`. -/
def readsBetween (w r : ℕ) : ℕ := Nat.count (fun m => w < m ∧ (inp m).readsData = true) r

/-- The words of the memory, the oldest one first. -/
def words (p : Wbscopc lg e b st) : List (BitVec 32) := slots p.mem p.waddr (2 ^ lg)

/-- What makes the run from `s₀` on `inp` that of a scope. -/
structure Captures : Prop where
  /-- Once it has stopped, the words of the memory stand for samples without a gap, up to the one
  with which it stopped. -/
  decodes : ∀ n, (state maxStep s₀ inp n).dwReset = false →
    (state maxStep s₀ inp n).dwFinalStop = true →
    Word.decode repeats ((state maxStep s₀ inp n).words.map wordOf) ≠ []
      ∧ Word.decode repeats ((state maxStep s₀ inp n).words.map wordOf)
        <:+ captured maxStep s₀ inp n
  /-- If the holdoff is not written meanwhile, the last sample is the one taken `brHoldoff + 1`
  after the one with the trigger. -/
  holdsOff : 1 < b → ∀ a n, a ≤ n → (state maxStep s₀ inp a).drTriggered = false →
    (∀ m, a ≤ m → m ≤ n → (state maxStep s₀ inp m).dwReset = false
      ∧ (state maxStep s₀ inp m).brHoldoff = (state maxStep s₀ inp a).brHoldoff) →
    (state maxStep s₀ inp n).dwFinalStop = true →
    ∃ k, triggeredAt maxStep s₀ inp n = some k ∧ (captured maxStep s₀ inp n).length
      = k + (state maxStep s₀ inp a).brHoldoff.toNat + 2
  /-- It stays stopped, with its memory unchanged, until a reset. -/
  stays : ∀ n, (state maxStep s₀ inp n).dwReset = false →
    (state maxStep s₀ inp n).dwFinalStop = true →
    (state maxStep s₀ inp (n + 1)).dwFinalStop = true
      ∧ (state maxStep s₀ inp (n + 1)).words = (state maxStep s₀ inp n).words
  /-- The reads after a write to the data port return the words in order. -/
  returns : ∀ w r, (state maxStep s₀ inp w).dwFinalStop = true → (inp w).writesData = true →
    w + 1 < r → (∀ m, w ≤ m → m ≤ r + 1 → (state maxStep s₀ inp m).dwReset = false) →
    (∀ m, w < m → m < r → (inp m).writesData = false) → (inp r).readsData = true →
    (inp (r + 1)).iWbAddr = true → readsBetween inp w r < 2 ^ lg →
    (state maxStep s₀ inp w).words[readsBetween inp w r]?
      = some (state maxStep s₀ inp (r + 2)).oWbData

variable {maxStep s₀ inp} {n : ℕ}

theorem state_succ (n : ℕ) :
  state maxStep s₀ inp (n + 1) = (state maxStep s₀ inp n).step (inp n) maxStep
  := rfl

theorem logSince_of_reset {α : Type*} {reset : ℕ → Bool} (e : ℕ → List α) (h : reset n = true) :
  logSince reset e (n + 1) = []
  := by rw [logSince, if_pos h]

theorem logSince_of_not_reset {α : Type*} {reset : ℕ → Bool} (e : ℕ → List α)
    (h : reset n = false) :
  logSince reset e (n + 1) = logSince reset e n ++ e n
  := by rw [logSince, h, if_neg Bool.false_ne_true]

/-- Since the last reset the words have gone to the memory one after the other. -/
theorem run_stored (h₀ : s₀.dwReset = true) (hreset : (state maxStep s₀ inp n).dwReset = false) :
  Stored (stored maxStep s₀ inp n) (state maxStep s₀ inp n)
  := by
  induction n with
  | zero =>
      have hnot : s₀.dwReset = false := hreset
      rw [h₀] at hnot
      contradiction
  | succ n ih =>
      cases hbefore : (state maxStep s₀ inp n).dwReset with
      | true =>
          rw [stored, logSince_of_reset _ hbefore, state_succ]
          apply stored_of_dwReset hbefore
      | false =>
          rw [stored, logSince_of_not_reset _ hbefore, state_succ]
          apply (ih hbefore).step hbefore

/-- The trigger is not seen before the memory is full. -/
theorem run_primed (h₀ : s₀.dwReset = true) (hreset : (state maxStep s₀ inp n).dwReset = false)
    (htriggered : (state maxStep s₀ inp n).drTriggered = true) :
  (state maxStep s₀ inp n).drPrimed = true
  := by
  induction n with
  | zero =>
      have hnot : s₀.dwReset = false := hreset
      rw [h₀] at hnot
      contradiction
  | succ n ih =>
      rw [state_succ] at htriggered ⊢
      cases hbefore : (state maxStep s₀ inp n).dwReset with
      | true => simp [step, hbefore] at htriggered
      | false =>
          have hprimed : (state maxStep s₀ inp n).drPrimed = true := by
            cases hprimed : (state maxStep s₀ inp n).drPrimed with
            | true => rfl
            | false =>
                cases hearly : (state maxStep s₀ inp n).drTriggered with
                | true =>
                    rw [ih hbefore hearly] at hprimed
                    contradiction
                | false => simp [step, hbefore, hearly, dwTrigger, hprimed] at htriggered
          simp [step, hbefore, hprimed]

/-- Since the last reset the scope runs, stops, or has stopped. -/
theorem run_phase (hlg : 1 ≤ lg) (hst : st ≤ 31) (hmax : maxStep ≠ 0) (h₀ : s₀.dwReset = true)
    (hreset : (state maxStep s₀ inp n).dwReset = false) :
  Running maxStep (samples maxStep s₀ inp n) (captured maxStep s₀ inp n) (stored maxStep s₀ inp n)
      (state maxStep s₀ inp n)
    ∨ (∃ k ≤ 2, Stopping maxStep k (samples maxStep s₀ inp n) (captured maxStep s₀ inp n)
      (stored maxStep s₀ inp n) (state maxStep s₀ inp n))
    ∨ Stopped (captured maxStep s₀ inp n) (stored maxStep s₀ inp n) (state maxStep s₀ inp n)
  := by
  induction n with
  | zero =>
      have hnot : s₀.dwReset = false := hreset
      rw [h₀] at hnot
      contradiction
  | succ n ih =>
      cases hbefore : (state maxStep s₀ inp n).dwReset with
      | true =>
          left
          rw [samples, captured, stored, logSince_of_reset _ hbefore, logSince_of_reset _ hbefore,
            logSince_of_reset _ hbefore, state_succ]
          apply running_of_dwReset hbefore
      | false =>
          have hstored := run_stored h₀ hbefore
          rw [samples, captured, stored, logSince_of_not_reset _ hbefore,
            logSince_of_not_reset _ hbefore, logSince_of_not_reset _ hbefore, ← samples,
            ← captured, ← stored, state_succ]
          rcases ih hbefore with h | ⟨k, hk, h⟩ | h
          · rw [h.drStopped, if_neg Bool.false_ne_true]
            rcases h.step hlg hst hmax hstored (run_primed h₀ hbefore) hbefore with h' | h'
            · left
              apply h'
            · right
              left
              use 0, by omega
          · rw [h.drStopped, if_pos rfl, List.append_nil]
            have h' := h.step (i := inp n) hlg hst hmax hk hstored hbefore
            right
            rcases Nat.lt_or_ge (if (inp n).iCe then k + 1 else k) 3 with hlt | hge
            · left
              exact ⟨_, by omega, h'⟩
            · right
              have hthree : (if (inp n).iCe then k + 1 else k) = 3 := by
                split_ifs at hge ⊢ <;> omega
              rw [hthree] at h'
              apply h'.stopped
          · right
            right
            rw [h.drStopped, if_pos rfl, List.append_nil]
            apply h.step hbefore

/-- A scope that shows that it has stopped has written all its words. -/
theorem stopped_of_dwFinalStop (hlg : 1 ≤ lg) (hst : st ≤ 31) (hmax : maxStep ≠ 0)
    (h₀ : s₀.dwReset = true) (hreset : (state maxStep s₀ inp n).dwReset = false)
    (hstop : (state maxStep s₀ inp n).dwFinalStop = true) :
  Stopped (captured maxStep s₀ inp n) (stored maxStep s₀ inp n) (state maxStep s₀ inp n)
    ∧ (state maxStep s₀ inp n).drStopPipe = ones 5 ∧ (state maxStep s₀ inp n).recordCe = false
  := by
  rw [dwFinalStop] at hstop
  rcases run_phase hlg hst hmax h₀ hreset with h | ⟨k, hk, h⟩ | h
  · rw [h.drStopPipe] at hstop
    cases hstop
  · rw [h.drStopPipe] at hstop
    interval_cases k <;> cases hstop
  · obtain ⟨k, hthree, hfive, hpipe, hquiet⟩ := h.drStopPipe
    rw [hpipe] at hstop
    have hk : k = 5 := by
      interval_cases k
      · cases hstop
      · cases hstop
      · rfl
    rw [hk] at hpipe
    exact ⟨h, hpipe, hquiet (by omega)⟩

/-- The words of a scope that has stopped stand for the last samples before the stop. -/
theorem decodes_of_stopped {written : List (BitVec 32)} {captured : List (BitVec 31)}
    {p : Wbscopc lg e b st} (h : Stopped captured written p) (hrecord : p.recordCe = false)
    (hstored : Stored written p) :
  Word.decode repeats (p.words.map wordOf) ≠ []
    ∧ Word.decode repeats (p.words.map wordOf) <:+ captured
  := by
  obtain ⟨stray, v, us, a, hout, hcaptured, hlong⟩ := h.out
  rw [pending, hrecord, if_neg Bool.false_ne_true, List.append_nil] at hout
  have hpos := Nat.two_pow_pos lg
  have hlength := congrArg List.length hout
  rw [List.length_map, List.length_append, List.length_cons, List.length_cons, List.length_append,
    List.length_singleton] at hlength
  -- the memory holds the end of what follows the value that the scope held before
  have hend : p.words.map wordOf = us.drop (us.length + 1 - 2 ^ lg) ++ [.value a] := by
    have hsplit : stray ++ Word.count 0 :: Word.value v :: (us ++ [Word.value a])
        = (stray ++ [.count 0, .value v]) ++ (us ++ [.value a]) := by simp
    have hbefore : written.length - 2 ^ lg
        = (stray ++ [Word.count 0, Word.value v]).length + (us.length + 1 - 2 ^ lg) := by
      rw [List.length_append, hlength]
      simp
      omega
    rw [words, hstored.filled.slots_eq (by omega), List.map_drop, hout, hsplit, hbefore,
      List.drop_length_add_append, List.drop_append_of_le_length (by omega)]
  rw [hend]
  constructor
  · rw [Word.decode_snoc_value]
    simp
  · have hall : us ++ [Word.value a] = us.take (us.length + 1 - 2 ^ lg)
        ++ (us.drop (us.length + 1 - 2 ^ lg) ++ [.value a]) := by
      rw [← List.append_assoc, List.take_append_drop]
    rw [← hcaptured]
    apply List.IsSuffix.trans _ (Word.decode_suffix_decodeAfter v _)
    conv_rhs => rw [hall]
    apply Word.decode_suffix

/-! ### The holdoff -/

/-- The trigger has not been seen, or the samples since then are counted, or the scope has stopped
the holdoff after it. -/
def Counted (h : BitVec b) (trigger : Option ℕ) (captured : List (BitVec 31))
    (p : Wbscopc lg e b st) : Prop :=
  if p.drTriggered then
    ∃ k, trigger = some k ∧ if p.drStopped then captured.length = k + h.toNat + 2
      else p.holdoffCounter ≤ h ∧ captured.length = k + 1 + p.holdoffCounter.toNat
  else p.drStopped = false ∧ p.holdoffCounter = 0

theorem run_untriggered (h₀ : s₀.dwReset = true)
    (hreset : (state maxStep s₀ inp n).dwReset = false)
    (htriggered : (state maxStep s₀ inp n).drTriggered = false) :
  (state maxStep s₀ inp n).drStopped = false ∧ (state maxStep s₀ inp n).holdoffCounter = 0
  := by
  induction n with
  | zero =>
      have hnot : s₀.dwReset = false := hreset
      rw [h₀] at hnot
      contradiction
  | succ n ih =>
      rw [state_succ] at htriggered ⊢
      cases hbefore : (state maxStep s₀ inp n).dwReset with
      | true => simp [step, hbefore]
      | false =>
          have hearly : (state maxStep s₀ inp n).drTriggered = false := by
            cases hearly : (state maxStep s₀ inp n).drTriggered with
            | true =>
                rw [drTriggered_step hbefore hearly] at htriggered
                contradiction
            | false => rfl
          obtain ⟨-, hcounter⟩ := ih hbefore hearly
          simp [step, hbefore, hearly, hcounter]

theorem counted_succ (hb : 1 < b) {h : BitVec b}
    (hcounted : Counted h (triggeredAt maxStep s₀ inp n) (captured maxStep s₀ inp n)
      (state maxStep s₀ inp n))
    (hsamples : (state maxStep s₀ inp n).drStopped = false →
      captured maxStep s₀ inp n = samples maxStep s₀ inp n)
    (hreset : (state maxStep s₀ inp n).dwReset = false)
    (hholdoff : (state maxStep s₀ inp n).brHoldoff = h) :
  Counted h (triggeredAt maxStep s₀ inp (n + 1)) (captured maxStep s₀ inp (n + 1))
    (state maxStep s₀ inp (n + 1))
  := by
  have hcaptured : captured maxStep s₀ inp (n + 1) = captured maxStep s₀ inp n
      ++ if (state maxStep s₀ inp n).drStopped then [] else sampled (inp n) :=
    logSince_of_not_reset _ hreset
  rw [triggeredAt, hreset, if_neg Bool.false_ne_true, hcaptured, state_succ]
  generalize captured maxStep s₀ inp n = c at hcounted hsamples ⊢
  generalize state maxStep s₀ inp n = p at hcounted hsamples hreset hholdoff ⊢
  rw [Counted] at hcounted ⊢
  cases htriggered : p.drTriggered with
  | false =>
      rw [htriggered, if_neg Bool.false_ne_true] at hcounted
      obtain ⟨hstopped, hcounter⟩ := hcounted
      have hnot : (p.step (inp n) maxStep).drStopped = false := by simp [step, htriggered]
      have hzero : (p.step (inp n) maxStep).holdoffCounter = 0 := by
        simp [step, hreset, htriggered, hcounter]
      have hnow : (p.step (inp n) maxStep).drTriggered
          = ((inp n).iCe && p.dwTrigger (inp n)) := by
        simp [step, hreset, htriggered]
      rw [hnot, hzero, hnow, hstopped, if_neg Bool.false_ne_true, Bool.not_false, Bool.and_true]
      cases hsees : (inp n).iCe && p.dwTrigger (inp n) with
      | false =>
          rw [if_neg Bool.false_ne_true]
          exact ⟨rfl, rfl⟩
      | true =>
          rw [Bool.and_eq_true] at hsees
          rw [if_pos rfl, if_pos rfl]
          use (samples maxStep s₀ inp n).length, rfl
          rw [if_neg Bool.false_ne_true, ← hsamples hstopped, sampled, hsees.1, if_pos rfl,
            List.length_append, List.length_singleton]
          simp [BitVec.le_def]
  | true =>
      rw [htriggered, if_pos rfl] at hcounted
      obtain ⟨k, hk, hcounted⟩ := hcounted
      rw [drTriggered_step hreset htriggered, if_pos rfl, Bool.not_true, Bool.and_false,
        if_neg Bool.false_ne_true]
      use k, hk
      cases hstopped : p.drStopped with
      | true =>
          rw [hstopped, if_pos rfl] at hcounted
          rw [drStopped_step hreset htriggered hstopped, if_pos rfl, if_pos rfl, List.append_nil]
          apply hcounted
      | false =>
          rw [hstopped, if_neg Bool.false_ne_true] at hcounted
          obtain ⟨hle, hlength⟩ := hcounted
          rw [if_neg Bool.false_ne_true, sampled]
          cases hce : (inp n).iCe with
          | false =>
              have hnot : (p.step (inp n) maxStep).drStopped = false := by
                simp [step, hreset, hce, hstopped]
              have hsame : (p.step (inp n) maxStep).holdoffCounter = p.holdoffCounter := by
                simp [step, hreset, hce]
              rw [hnot, hsame, if_neg Bool.false_ne_true, if_neg Bool.false_ne_true, List.append_nil]
              exact ⟨hle, hlength⟩
          | true =>
              have hstops : (p.step (inp n) maxStep).drStopped = decide (h ≤ p.holdoffCounter) := by
                simp [step, hreset, hce, hstopped, htriggered, hb, hholdoff]
              have hnext : (p.step (inp n) maxStep).holdoffCounter = p.holdoffCounter + 1 := by
                simp [step, hreset, hce, hstopped, htriggered]
              rw [hstops, hnext, if_pos rfl, List.length_append, List.length_singleton, hlength]
              by_cases hover : h ≤ p.holdoffCounter
              · rw [if_pos (decide_eq_true hover), BitVec.le_antisymm hover hle]
                omega
              · rw [if_neg (fun hnot => hover (of_decide_eq_true hnot))]
                rw [BitVec.not_le] at hover
                have hsucc := toNat_succ hover
                rw [BitVec.lt_def] at hover
                rw [BitVec.le_def, hsucc]
                omega

/-- From a clock at which the trigger has not been seen on, the holdoff is counted. -/
theorem run_counted (hlg : 1 ≤ lg) (hst : st ≤ 31) (hmax : maxStep ≠ 0) (h₀ : s₀.dwReset = true)
    (hb : 1 < b) {a : ℕ} (hle : a ≤ n)
    (htriggered : (state maxStep s₀ inp a).drTriggered = false)
    (hkept : ∀ m, a ≤ m → m ≤ n → (state maxStep s₀ inp m).dwReset = false
      ∧ (state maxStep s₀ inp m).brHoldoff = (state maxStep s₀ inp a).brHoldoff) :
  Counted (state maxStep s₀ inp a).brHoldoff (triggeredAt maxStep s₀ inp n)
    (captured maxStep s₀ inp n) (state maxStep s₀ inp n)
  := by
  induction hle with
  | refl =>
      rw [Counted, htriggered, if_neg Bool.false_ne_true]
      apply run_untriggered h₀ (hkept a (Nat.le_refl a) (Nat.le_refl a)).1 htriggered
  | step hle ih =>
      obtain ⟨hreset, hholdoff⟩ := hkept _ hle (Nat.le_succ _)
      apply counted_succ hb (ih (fun m hm hm' => hkept m hm (Nat.le_succ_of_le hm'))) _ hreset
        hholdoff
      intro hstopped
      rcases run_phase hlg hst hmax h₀ hreset with h | ⟨k, -, h⟩ | h
      · apply h.captured
      · rw [h.drStopped] at hstopped
        contradiction
      · rw [h.drStopped] at hstopped
        contradiction

/-! ### Reading -/

theorem stays_step {p : Wbscopc lg e b st} (i : Input e) (hreset : p.dwReset = false)
    (hrecord : p.recordCe = false) :
  (p.step i maxStep).mem = p.mem ∧ (p.step i maxStep).waddr = p.waddr
  := by
  constructor
  · simp [step, hrecord]
  · simp [step, hreset, hrecord]

/-- A scope that has stopped stays as it is. -/
theorem stays_of_dwFinalStop (hlg : 1 ≤ lg) (hst : st ≤ 31) (hmax : maxStep ≠ 0)
    (h₀ : s₀.dwReset = true) {w : ℕ} (hstop : (state maxStep s₀ inp w).dwFinalStop = true)
    (hle : w ≤ n) (hreset : ∀ m, w ≤ m → m < n → (state maxStep s₀ inp m).dwReset = false) :
  (state maxStep s₀ inp n).dwFinalStop = true
    ∧ (state maxStep s₀ inp n).mem = (state maxStep s₀ inp w).mem
    ∧ (state maxStep s₀ inp n).waddr = (state maxStep s₀ inp w).waddr
  := by
  induction hle with
  | refl => exact ⟨hstop, rfl, rfl⟩
  | @step n hle ih =>
      obtain ⟨hstop', hmem, hwaddr⟩ := ih (fun m hm hm' => hreset m hm (Nat.lt_succ_of_lt hm'))
      have hnow := hreset n hle (Nat.lt_succ_self n)
      obtain ⟨hstopped, hpipe, hrecord⟩ := stopped_of_dwFinalStop hlg hst hmax h₀ hnow hstop'
      obtain ⟨hmem', hwaddr'⟩ := @stays_step _ _ _ _ maxStep _ (inp n) hnow hrecord
      rw [state_succ, hmem', hwaddr']
      refine ⟨?_, hmem, hwaddr⟩
      have hshift : ((state maxStep s₀ inp n).step (inp n) maxStep).drStopPipe = ones 5 := by
        cases hce : (inp n).iCe with
        | false => simp [step, hnow, hce, hpipe]
        | true =>
            simp only [step, hnow, hce, hpipe, hstopped.drStopped, Bool.false_eq_true, if_false,
              if_true]
            decide
      rw [dwFinalStop, hshift]
      rfl

/-- While the scope has stopped `raddr` counts the data reads since the data port was written. -/
theorem run_raddr (hlg : 1 ≤ lg) (hst : st ≤ 31) (hmax : maxStep ≠ 0) (h₀ : s₀.dwReset = true)
    {w : ℕ} (hstop : (state maxStep s₀ inp w).dwFinalStop = true)
    (hwrite : (inp w).writesData = true) (hlt : w < n)
    (hreset : ∀ m, w ≤ m → m < n → (state maxStep s₀ inp m).dwReset = false)
    (hquiet : ∀ m, w < m → m < n → (inp m).writesData = false) :
  (state maxStep s₀ inp n).raddr = BitVec.ofNat lg (readsBetween inp w n)
  := by
  induction hlt with
  | refl =>
      have hnone : readsBetween inp w (w + 1) = 0 := by
        rw [readsBetween, Nat.count_iff_forall_not]
        intro m hm hread
        omega
      rw [hnone, state_succ]
      simp [step, hwrite]
  | @step n hlt ih =>
      have hraddr := ih (fun m hm hm' => hreset m hm (Nat.lt_succ_of_lt hm'))
        (fun m hm hm' => hquiet m hm (Nat.lt_succ_of_lt hm'))
      obtain ⟨hstop', -⟩ := stays_of_dwFinalStop hlg hst hmax h₀ hstop (Nat.le_of_lt hlt)
        (fun m hm hm' => hreset m hm (Nat.lt_succ_of_lt hm'))
      have hnow := hreset n (Nat.le_of_lt hlt) (Nat.lt_succ_self n)
      have hno := hquiet n hlt (Nat.lt_succ_self n)
      rw [state_succ, readsBetween, Nat.count_succ, ← readsBetween]
      cases hread : (inp n).readsData with
      | true =>
          rw [if_pos ⟨hlt, rfl⟩, BitVec.ofNat_add, ← hraddr]
          simp [step, hnow, hno, hread, hstop']
      | false =>
          rw [if_neg (fun h => Bool.false_ne_true h.2), Nat.add_zero, ← hraddr]
          simp [step, hnow, hno, hread]

/-- The word that a read returns. -/
theorem returns_of_dwFinalStop (hlg : 1 ≤ lg) (hst : st ≤ 31) (hmax : maxStep ≠ 0)
    (h₀ : s₀.dwReset = true) {w r : ℕ} (hstop : (state maxStep s₀ inp w).dwFinalStop = true)
    (hwrite : (inp w).writesData = true) (hlt : w + 1 < r)
    (hreset : ∀ m, w ≤ m → m ≤ r + 1 → (state maxStep s₀ inp m).dwReset = false)
    (hquiet : ∀ m, w < m → m < r → (inp m).writesData = false)
    (haddr : (inp (r + 1)).iWbAddr = true) (hcount : readsBetween inp w r < 2 ^ lg) :
  (state maxStep s₀ inp w).words[readsBetween inp w r]?
    = some (state maxStep s₀ inp (r + 2)).oWbData
  := by
  obtain ⟨q, rfl⟩ : ∃ q, r = q + 1 := ⟨r - 1, by omega⟩
  have hstays := fun m (hm : w ≤ m) (hm' : m ≤ q + 1 + 1) =>
    stays_of_dwFinalStop hlg hst hmax h₀ hstop hm (fun k hk hk' => hreset k hk (by omega))
  obtain ⟨hstop', hmem, -⟩ := hstays (q + 1) (by omega) (by omega)
  obtain ⟨hstop'', -⟩ := hstays (q + 1 + 1) (by omega) (by omega)
  obtain ⟨hbefore, -, hwaddr⟩ := hstays q (by omega) (by omega)
  have hraddr := run_raddr (n := q + 1) hlg hst hmax h₀ hstop hwrite (by omega)
    (fun m hm hm' => hreset m hm (by omega)) hquiet
  -- the address was computed at the clock before the read
  have hthis : (state maxStep s₀ inp (q + 1)).thisAddr
      = (state maxStep s₀ inp w).waddr + BitVec.ofNat lg (readsBetween inp w (q + 1)) := by
    rw [← hraddr, ← hwaddr, state_succ]
    have hnow := hreset q (by omega) (by omega)
    have hno := hquiet q (by omega) (by omega)
    cases hread : (inp q).readsData with
    | true =>
        simp only [step, hnow, hno, hread, hbefore, Bool.or_self, Bool.false_eq_true, if_false,
          Bool.and_self, if_true]
        ring
    | false =>
        simp only [step, hnow, hno, hread, Bool.or_self, Bool.false_eq_true, if_false,
          Bool.false_and]
        ring
  have hout : (state maxStep s₀ inp (q + 1 + 2)).oWbData
      = (state maxStep s₀ inp (q + 1)).mem (state maxStep s₀ inp (q + 1)).thisAddr := by
    rw [state_succ (q + 1 + 1)]
    simp only [step, haddr, hstop'', Bool.not_true, Bool.false_eq_true, if_false]
    rfl
  rw [hout, hthis, hmem, words, slots, List.getElem?_map, List.getElem?_range hcount,
    Option.map_some]

/-- A compressed scope that starts with a reset captures the samples up to its stop. -/
theorem captures (hlg : 1 ≤ lg) (hst : st ≤ 31) (hmax : maxStep ≠ 0) (h₀ : s₀.dwReset = true) :
  Captures maxStep s₀ inp
  := by
  constructor
  case decodes =>
      intro n hreset hstop
      obtain ⟨h, -, hrecord⟩ := stopped_of_dwFinalStop hlg hst hmax h₀ hreset hstop
      apply decodes_of_stopped h hrecord (run_stored h₀ hreset)
  case holdsOff =>
      intro hb a n hle htriggered hkept hstop
      have hcounted := run_counted hlg hst hmax h₀ hb hle htriggered hkept
      obtain ⟨h, -⟩ :=
        stopped_of_dwFinalStop hlg hst hmax h₀ (hkept n hle (Nat.le_refl n)).1 hstop
      rw [Counted, h.drTriggered, if_pos rfl, h.drStopped] at hcounted
      obtain ⟨k, hk, hlength⟩ := hcounted
      rw [if_pos rfl] at hlength
      use k
  case stays =>
      intro n hreset hstop
      obtain ⟨hstop', hmem, hwaddr⟩ := stays_of_dwFinalStop (n := n + 1) hlg hst hmax h₀ hstop
        (Nat.le_succ n) (fun m hm hm' => by
          obtain rfl : m = n := by omega
          apply hreset)
      use hstop'
      rw [words, words, hmem, hwaddr]
  case returns =>
      intro w r hstop hwrite hlt hreset hquiet _ haddr hcount
      apply returns_of_dwFinalStop hlg hst hmax h₀ hstop hwrite hlt hreset hquiet haddr hcount

end Runs

/-! ### A scope of four words -/

/-- A scope at power up whose holdoff is 3. -/
def fourWords : Wbscopc 2 4 3 3 where
  brConfig := 0
  brHoldoff := 3
  drTriggered := false
  drPrimed := false
  holdoffCounter := 0
  drStopped := false
  drStopPipe := 0
  drForceWrite := false
  drForceInhibit := false
  ckAddr := 0
  drRunTimeout := false
  newData := false
  qdData := 0
  immAdr := true
  lstAdr := true
  lstVal := 0
  immVal := 0
  recordCe := false
  rData := 0
  waddr := 0
  mem := fun _ => 0
  raddr := 0
  brPreWbAck := false
  brWbAck := false
  thisAddr := 0
  nxtMem := 0
  oWbData := 0
  brLevelInterrupt := false

/-- A sample at every clock, which changes at every fourth, with the trigger from clock 12 on. The
bus sets the holdoff to 2 at first, and when the scope has stopped it writes to the data port and
reads four words. -/
def staircase (n : ℕ) : Input 4 where
  iCe := true
  iTrigger := 12 ≤ n
  iData := BitVec.ofNat 4 (n / 4)
  iWbCyc := n = 2 ∨ 22 ≤ n
  iWbStb := n = 2 ∨ n = 22 ∨ 24 ≤ n ∧ n < 28
  iWbWe := n = 2 ∨ n = 22
  iWbAddr := 22 ≤ n
  iWbData := 0x80000002

/-- Of the samples `2, 2, 2, 3, 3, 3, 3` the first three are a count whose value is lost. -/
theorem captures_fourWords :
  Captures 7 fourWords staircase
    ∧ (state 7 fourWords staircase 21).dwFinalStop = true
    ∧ [26, 27, 28, 29].map (fun n => (state 7 fourWords staircase n).oWbData)
      = [0x80000002, 3, 0x80000001, 3]
  := by
  refine ⟨?_, by decide +kernel, by decide +kernel⟩
  apply captures
  · decide
  · decide
  · decide
  · rfl

end Wbscopc

end ZBasic
