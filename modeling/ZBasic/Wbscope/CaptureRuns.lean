import Mathlib.Data.Nat.Count
import Mathlib.Tactic.IntervalCases
import ZBasic.Wbscope.Wbscope

/-!
# What the scope captures

The words read from a scope that has stopped are the last samples up to the one taken the
holdoff after the trigger, provided that the scope stops in time, which it decides at every
clock and not at every sample.
-/

namespace ZBasic

open Clocked

namespace Wbscope

variable {lg b : ℕ}

section Runs

variable (s₀ : Wbscope lg b) (inp : ℕ → Input)

/-- The samples taken since the last reset before clock `n`. -/
def samples (n : ℕ) : List (BitVec 32) :=
  logSince (fun k => (run step s₀ inp k).dwReset)
    (fun k => if (inp k).iCe then [(inp k).iData] else []) n

/-- The number of the sample taken with the trigger, if it was seen before clock `n`. -/
def triggeredAt : ℕ → Option ℕ
  | 0 => none
  | n + 1 =>
      if (run step s₀ inp n).dwReset then none
      else (run step s₀ inp n).seen (inp n) (samples s₀ inp n) (triggeredAt n)

/-- The number of data reads after clock `w` and before clock `r`. -/
def readsBetween (w r : ℕ) : ℕ := Nat.count (fun m => w < m ∧ (inp m).readFromData = true) r

/-- What makes the run from `s₀` on `inp` that of a scope. -/
structure CapturesWindow : Prop where
  /-- Until it stops it is primed as soon as it has taken as many samples as its memory has
  words. -/
  primes : ∀ n, (run step s₀ inp n).dwReset = false → (run step s₀ inp n).drStopped = false →
    ((run step s₀ inp n).drPrimed = true ↔ 2 ^ lg ≤ (samples s₀ inp n).length)
  /-- Once primed it is triggered by a trigger that comes with a sample. -/
  triggers : ∀ n, (run step s₀ inp n).dwReset = false → (run step s₀ inp n).drPrimed = true →
    (inp n).iCe = true → (inp n).iTrigger = true ∧ (run step s₀ inp n).dwDisableTrigger = false
      ∨ (run step s₀ inp n).dwManualTrigger = true →
    (run step s₀ inp (n + 1)).drTriggered = true
  /-- Once triggered it stops, if there are enough samples. -/
  stops : ∀ n, (run step s₀ inp n).drTriggered = true →
    (∀ m, n ≤ m → (run step s₀ inp m).dwReset = false) → (∀ m, ∃ k, m ≤ k ∧ (inp k).iCe = true) →
    ∃ m, n ≤ m ∧ (run step s₀ inp m).drStopped = true
  /-- It stays stopped, with its memory unchanged, until a reset. -/
  stays : ∀ n, (run step s₀ inp n).drStopped = true → (run step s₀ inp n).dwReset = false →
    (run step s₀ inp (n + 1)).drStopped = true
      ∧ (run step s₀ inp (n + 1)).mem = (run step s₀ inp n).mem
  /-- A read is acknowledged two clocks later. -/
  acknowledges : ∀ r, (inp r).readFromData = true → (inp (r + 1)).iWbCyc = true →
    (inp (r + 2)).iWbCyc = true → (run step s₀ inp (r + 2)).oWbAck (inp (r + 2)) = true
  /-- The reads after a write to the control register return the last samples, from the oldest
  one on, the last of them being the one taken the holdoff after the trigger. -/
  returns : ∀ w r, (run step s₀ inp w).drStopped = true → (inp w).writeToControl = true →
    w < r → (∀ m, w ≤ m → m ≤ r → (run step s₀ inp m).dwReset = false) →
    (∀ m, w < m → m < r → (inp m).writeToControl = false) → (inp r).readFromData = true →
    readsBetween inp w r < 2 ^ lg →
    ∃ k, triggeredAt s₀ inp w = some k ∧ 2 ^ lg ≤ k
      ∧ (samples s₀ inp w)[k + (run step s₀ inp w).brHoldoff.toNat + 1 - 2 ^ lg
          + readsBetween inp w r]? = some (run step s₀ inp (r + 2)).oBusData

/-- The sample after the one that ends the holdoff comes at the next clock, the holdoff is not
the largest one, and a read does not follow a write to the control register at once, unless
the reads were at their beginning. -/
structure Timely : Prop where
  dense : ∀ n, (run step s₀ inp n).dwReset = false → (run step s₀ inp n).drTriggered = true →
    (run step s₀ inp n).drStopped = false →
    (run step s₀ inp n).brHoldoff ≤ (run step s₀ inp n).counter → (inp n).iCe = true
  holdoff : ∀ n, (run step s₀ inp n).dwReset = false →
    (run step s₀ inp n).drTriggered = true → (run step s₀ inp n).brHoldoff ≠ BitVec.allOnes b
  gap : ∀ n, (run step s₀ inp n).drStopped = true → (inp n).writeToControl = true →
    (inp (n + 1)).readFromData = true → (run step s₀ inp n).raddr = 0

variable {s₀} {inp} {defaultHoldoff : BitVec b}

theorem samples_succ {n : ℕ} (h : (run step s₀ inp n).dwReset = false) :
  samples s₀ inp (n + 1) = taken (samples s₀ inp n) (inp n)
  := by simp [samples, logSince, h, taken]

theorem run_capturing (h₀ : s₀.Initial defaultHoldoff) (htimely : Timely s₀ inp) (n : ℕ)
    (hrun : (run step s₀ inp n).dwReset = false) :
  (run step s₀ inp n).Capturing (samples s₀ inp n) (triggeredAt s₀ inp n)
    ∨ (run step s₀ inp n).Stopped (samples s₀ inp n) (triggeredAt s₀ inp n)
  := by
  induction n with
  | zero => simp [dwReset, h₀.brConfig] at hrun
  | succ n ih =>
      rw [triggeredAt]
      cases hbefore : (run step s₀ inp n).dwReset with
      | true =>
          left
          have hnone : samples s₀ inp (n + 1) = [] := by simp [samples, logSince, hbefore]
          rw [hnone, if_pos rfl]
          apply capturing_of_dwReset hbefore
      | false =>
          rw [samples_succ hbefore, if_neg Bool.false_ne_true]
          rcases ih hbefore with h | h
          · by_cases hover : (run step s₀ inp n).drTriggered = true
                ∧ (run step s₀ inp n).brHoldoff ≤ (run step s₀ inp n).counter
            · right
              apply h.stop hbefore hrun hover.1 hover.2
              · apply htimely.dense n hbefore hover.1 h.drStopped hover.2
              · apply htimely.holdoff n hbefore hover.1
            · left
              apply h.step hbefore hrun
              intro htriggered
              rw [not_and, BitVec.not_le] at hover
              apply hover htriggered
          · right
            apply h.step hbefore hrun

theorem run_stopped (h₀ : s₀.Initial defaultHoldoff) (htimely : Timely s₀ inp) {n : ℕ}
    (hrun : (run step s₀ inp n).dwReset = false)
    (hstopped : (run step s₀ inp n).drStopped = true) :
  (run step s₀ inp n).Stopped (samples s₀ inp n) (triggeredAt s₀ inp n)
  := by
  rcases run_capturing h₀ htimely n hrun with h | h
  · simp [h.drStopped] at hstopped
  · apply h

/-- A scope that has stopped stays as it is until a reset. -/
theorem run_stays (h₀ : s₀.Initial defaultHoldoff) (htimely : Timely s₀ inp) {w m : ℕ}
    (hstopped : (run step s₀ inp w).drStopped = true) (hwm : w ≤ m)
    (hrun : ∀ k, w ≤ k → k < m → (run step s₀ inp k).dwReset = false) :
  (run step s₀ inp m).drStopped = true ∧ (run step s₀ inp m).mem = (run step s₀ inp w).mem
    ∧ (run step s₀ inp m).waddr = (run step s₀ inp w).waddr
  := by
  induction hwm with
  | refl => use hstopped
  | @step m hwm ih =>
      obtain ⟨hstopped', hmem, hwaddr⟩ := ih (fun k hk hkm => hrun k hk (Nat.lt_succ_of_lt hkm))
      have hm := hrun m hwm (Nat.lt_succ_self m)
      have h := run_stopped h₀ htimely hm hstopped'
      obtain ⟨hkeep, hend, -⟩ := keeps_of_drStopped (i := inp m) hstopped' hm
      rw [Nat.succ_eq_add_one, run_succ]
      constructor
      · simp [step, hm, h.drTriggered, h.le]
      · rw [hkeep, hend]
        use hmem, hwaddr

theorem readsBetween_succ (w r : ℕ) (hwr : w < r) :
  readsBetween inp w (r + 1)
    = readsBetween inp w r + if (inp r).readFromData then 1 else 0
  := by
  rw [readsBetween, Nat.count_succ]
  simp [hwr, readsBetween]

theorem readsBetween_self (w : ℕ) :
  readsBetween inp w (w + 1) = 0
  := by
  rw [readsBetween, Nat.count_iff_forall_not]
  intro m hm hread
  omega

/-- The read address counts the reads since the write to the control register. -/
theorem run_raddr {w r : ℕ} (hwrite : (inp w).writeToControl = true) (hwr : w < r)
    (hstopped : ∀ m, w < m → m < r → (run step s₀ inp m).drStopped = true)
    (hrun : ∀ m, w < m → m < r → (run step s₀ inp m).dwReset = false)
    (hquiet : ∀ m, w < m → m < r → (inp m).writeToControl = false) :
  (run step s₀ inp r).raddr = BitVec.ofNat lg (readsBetween inp w r)
  := by
  induction hwr with
  | refl =>
      rw [Nat.succ_eq_add_one, readsBetween_self, run_succ]
      simp [step, hwrite]
  | @step r hwr ih =>
      have ih := ih (fun m hm hmr => hstopped m hm (Nat.lt_succ_of_lt hmr))
        (fun m hm hmr => hrun m hm (Nat.lt_succ_of_lt hmr))
        (fun m hm hmr => hquiet m hm (Nat.lt_succ_of_lt hmr))
      have hr := Nat.lt_succ_self r
      rw [Nat.succ_eq_add_one, readsBetween_succ w r hwr, run_succ]
      simp only [step, hstopped r hwr hr, hrun r hwr hr, hquiet r hwr hr, ih, Bool.and_true,
        Bool.or_false, Bool.false_eq_true, if_false]
      by_cases hread : (inp r).readFromData = true
      · simp [hread, BitVec.ofNat_add]
      · simp [hread]

/-- The address looked up for a read is as many words on as there were reads before. -/
theorem run_thisAddr (h₀ : s₀.Initial defaultHoldoff) (htimely : Timely s₀ inp) {w r : ℕ}
    (hstopped : (run step s₀ inp w).drStopped = true) (hwrite : (inp w).writeToControl = true)
    (hwr : w < r) (hrun : ∀ m, w ≤ m → m < r → (run step s₀ inp m).dwReset = false)
    (hquiet : ∀ m, w < m → m < r → (inp m).writeToControl = false)
    (hread : (inp r).readFromData = true) :
  (run step s₀ inp r).thisAddr
    = (run step s₀ inp w).waddr + BitVec.ofNat lg (readsBetween inp w r)
  := by
  obtain ⟨m, rfl⟩ := Nat.exists_eq_succ_of_ne_zero (Nat.ne_zero_of_lt hwr)
  rcases Nat.eq_or_lt_of_le (Nat.le_of_lt_succ hwr) with rfl | hwm
  · have hnone : (inp w).readFromData = false := by
      simp only [Input.writeToControl, Input.readFromData] at hwrite ⊢
      grind
    rw [Nat.succ_eq_add_one, readsBetween_self, run_succ]
    simp [step, hnone, htimely.gap w hstopped hwrite hread]
  · have hm := Nat.lt_succ_self m
    have hkeep : ∀ k, w < k → k < m → (run step s₀ inp k).drStopped = true := by
      intro k hk hkm
      apply (run_stays h₀ htimely hstopped hk.le
        (fun j hj hjk => hrun j hj (by omega))).1
    have hraddr := run_raddr hwrite hwm hkeep
      (fun k hk hkm => hrun k hk.le (by omega)) (fun k hk hkm => hquiet k hk (by omega))
    have hwaddr := (run_stays h₀ htimely hstopped hwm.le
      (fun k hk hkm => hrun k hk (by omega))).2.2
    rw [Nat.succ_eq_add_one, readsBetween_succ w m hwm, run_succ]
    simp only [step, hraddr, hwaddr]
    by_cases hread' : (inp m).readFromData = true
    · have hone : BitVec.ofNat lg 1 = 1 := rfl
      simp only [hread', if_true, BitVec.ofNat_add, hone]
      ring
    · simp only [hread', if_false, Bool.false_eq_true, Nat.add_zero]
      ring

theorem run_triggered {n m : ℕ} (htriggered : (run step s₀ inp n).drTriggered = true)
    (hrun : ∀ m, n ≤ m → (run step s₀ inp m).dwReset = false) (hnm : n ≤ m) :
  (run step s₀ inp m).drTriggered = true
  := by
  induction hnm with
  | refl => apply htriggered
  | @step m hnm ih => rw [Nat.succ_eq_add_one, run_succ, drTriggered_step (hrun m hnm), ih,
      Bool.or_true]

/-- With enough samples the holdoff comes to its end. -/
theorem run_stops {n : ℕ} (htriggered : (run step s₀ inp n).drTriggered = true)
    (hrun : ∀ m, n ≤ m → (run step s₀ inp m).dwReset = false)
    (hsamples : ∀ m, ∃ k, m ≤ k ∧ (inp k).iCe = true) :
  ∃ m, n ≤ m ∧ (run step s₀ inp m).drStopped = true
  := by
  have hnext : ∀ k, n ≤ k → (run step s₀ inp k).drStopped = false →
      (run step s₀ inp (k + 1)).drStopped = true
        ∨ (run step s₀ inp (k + 1)).brHoldoff = (run step s₀ inp k).brHoldoff
          ∧ (run step s₀ inp k).counter.toNat < (run step s₀ inp k).brHoldoff.toNat
          ∧ (run step s₀ inp (k + 1)).counter.toNat
            = (run step s₀ inp k).counter.toNat + (inp k).iCe.toNat := by
    intro k hk hgoing
    have hreset := hrun k hk
    have htriggered' := run_triggered htriggered hrun hk
    by_cases hover : (run step s₀ inp k).brHoldoff ≤ (run step s₀ inp k).counter
    · left
      rw [run_succ]
      simp [step, hreset, htriggered', hover]
    · right
      rw [BitVec.not_le] at hover
      have hsucc := toNat_counter_succ (counter_ne_of_lt hover)
      use brHoldoff_step hreset (hrun (k + 1) (Nat.le_succ_of_le hk)), BitVec.lt_def.mp hover
      rw [run_succ, counter_step hreset hgoing, htriggered', Bool.and_true]
      cases (inp k).iCe with
      | false => rfl
      | true => rw [if_pos rfl, hsucc, Bool.toNat_true]
  apply eventually_of_fair_measure hsamples (fun k =>
    if (run step s₀ inp k).drStopped then 0
    else (run step s₀ inp k).brHoldoff.toNat - (run step s₀ inp k).counter.toNat + 1) n
  · intro k hk hgoing
    rw [Bool.not_eq_true] at hgoing
    simp only [hgoing, Bool.false_eq_true, if_false]
    rcases hnext k hk hgoing with hstop | ⟨hholdoff, hlt, hcounter⟩
    · rw [if_pos hstop]
      apply Nat.zero_le
    · split
      · apply Nat.zero_le
      · rw [hholdoff, hcounter]
        omega
  · intro k hk hgoing hce
    rw [Bool.not_eq_true] at hgoing
    simp only [hgoing, Bool.false_eq_true, if_false]
    rcases hnext k hk hgoing with hstop | ⟨hholdoff, hlt, hcounter⟩
    · rw [if_pos hstop]
      apply Nat.succ_pos
    · rw [hce, Bool.toNat_true] at hcounter
      split
      · apply Nat.succ_pos
      · rw [hholdoff, hcounter]
        omega

/-- In every run that stops in time, the scope captures the samples around the trigger. -/
theorem capturesWindow (h₀ : s₀.Initial defaultHoldoff) (htimely : Timely s₀ inp) :
  CapturesWindow s₀ inp
  := by
  constructor
  · intro n hrun hgoing
    rcases run_capturing h₀ htimely n hrun with h | h
    · rw [h.drPrimed, decide_eq_true_eq]
    · rw [h.drStopped] at hgoing
      contradiction
  · intro n hrun hprimed hce htrigger
    rw [run_succ, drTriggered_step hrun, hce, dwTrigger, hprimed]
    rcases htrigger with ⟨htrigger, henabled⟩ | hmanual
    · rw [htrigger, henabled]
      rfl
    · rw [hmanual, Bool.or_true]
      rfl
  · intro n htriggered hrun hsamples
    apply run_stops htriggered hrun hsamples
  · intro n hstopped hrun
    obtain ⟨hstopped', hmem, -⟩ := run_stays h₀ htimely hstopped (Nat.le_succ n)
      (fun k hk hkn => by rwa [Nat.le_antisymm (Nat.le_of_lt_succ hkn) hk])
    use hstopped', hmem
  · intro r hread hcyc hcyc'
    have hstb : (inp r).iWbStb = true := by
      simp only [Input.readFromData] at hread
      grind
    simp [oWbAck, run_succ, step, hstb, hcyc, hcyc']
  · intro w r hstopped hwrite hwr hrun hquiet hread hcount
    obtain ⟨k, hk, hprimed, hlt, hwaddr, hrecorded⟩ :=
      (run_stopped h₀ htimely (hrun w (Nat.le_refl w) hwr.le) hstopped).captured
    use k, hk, hprimed
    have hrun' : ∀ m, w ≤ m → m < r → (run step s₀ inp m).dwReset = false :=
      fun m hm hmr => hrun m hm hmr.le
    obtain ⟨-, hmem, -⟩ := run_stays h₀ htimely hstopped hwr.le hrun'
    have hstopped' := (run_stays h₀ htimely hstopped (Nat.le_succ_of_le hwr.le)
      (fun m hm hmr => hrun m hm (Nat.le_of_lt_succ hmr))).1
    have haddr := run_thisAddr h₀ htimely hstopped hwrite hwr hrun' hquiet hread
    have hbus : (run step s₀ inp (r + 2)).oBusData
        = (run step s₀ inp w).mem ((run step s₀ inp w).waddr
            + BitVec.ofNat lg (readsBetween inp w r)) := by
      have hport : (inp r).iWbAddr = true := by
        simp only [Input.readFromData] at hread
        grind
      have hnxt : (run step s₀ inp (r + 1)).nxtMem
          = (run step s₀ inp r).mem (run step s₀ inp r).thisAddr := rfl
      have hreadAddress : (run step s₀ inp (r + 1)).readAddress = (inp r).iWbAddr := rfl
      rw [run_succ]
      simp only [step, hreadAddress, hport, hstopped', Bool.not_true, Bool.false_eq_true, if_false,
        hnxt, hmem, haddr]
    generalize hj : k + (run step s₀ inp w).brHoldoff.toNat + 1 - 2 ^ lg
      + readsBetween inp w r = j
    have hjlt : j < (samples s₀ inp w).length := by omega
    have hslot : (run step s₀ inp w).waddr + BitVec.ofNat lg (readsBetween inp w r)
        = BitVec.ofNat lg (j + 1) := by
      have hsum : k + (run step s₀ inp w).brHoldoff.toNat + 2 + readsBetween inp w r
          = j + 1 + 2 ^ lg := by omega
      have hwrap : BitVec.ofNat lg (2 ^ lg) = 0 := by
        apply BitVec.eq_of_toNat_eq
        rw [BitVec.toNat_ofNat, Nat.mod_self]
        apply BitVec.toNat_zero.symm
      rw [hwaddr, ← BitVec.ofNat_add, hsum, BitVec.ofNat_add (j + 1), hwrap]
      apply add_zero
    rw [hbus, hslot, List.getElem?_eq_getElem hjlt, Option.some_inj]
    apply (hrecorded j _ (List.getElem?_eq_getElem hjlt) (by omega) (by omega)).symm

end Runs

/-! ### A scope of two words -/

/-- A scope at power up whose holdoff is nothing. -/
def twoWords : Wbscope 1 2 where
  brConfig := 0
  brHoldoff := 0
  drTriggered := false
  drPrimed := false
  drStopped := false
  counter := 0
  waddr := 0
  dataPipe := 0
  mem := fun _ => 0
  readAddress := false
  raddr := 0
  thisAddr := 0
  nxtMem := 0
  oBusData := 0
  brPreWbAck := false
  brWbAck := false

theorem twoWords_initial :
  twoWords.Initial 0
  := by constructor <;> rfl

/-- The trigger is always there, each sample is the number of its clock, the control register
is written at clock 8, and the data port is read at clock 10. -/
def readAfter (ce : ℕ → Bool) (n : ℕ) : Input where
  iCe := ce n
  iTrigger := true
  iData := BitVec.ofNat 32 n
  iWbCyc := true
  iWbStb := n == 8 || n == 10
  iWbWe := n == 8
  iWbAddr := n == 10
  iWbData := 0x80000000#32

/-- With a sample at every clock the scope stops in time. -/
theorem timely_readAfter :
  Timely twoWords (readAfter fun _ => true)
  := by
  constructor
  · intro n _ _ _ _
    rfl
  · intro n _ _
    have hholdoff : (run step twoWords (readAfter fun _ => true) n).brHoldoff = 0 := by
      apply @run_induction _ _ step twoWords _ (fun p : Wbscope 1 2 => p.brHoldoff = 0) rfl
      intro k p hp
      simp [step, readAfter, hp]
    rw [hholdoff]
    decide
  · intro n _ hwrite hread
    simp only [Input.writeToControl, Input.readFromData, readAfter] at hwrite hread
    grind

theorem capturesWindow_readAfter :
  CapturesWindow twoWords (readAfter fun _ => true)
  := capturesWindow twoWords_initial timely_readAfter

/-- With a sample at every other clock the one taken with the trigger is missing. -/
theorem not_capturesWindow_readAfter :
  twoWords.Initial 0 ∧ ¬ CapturesWindow twoWords (readAfter fun n => n % 2 == 0)
  := by
  use twoWords_initial
  intro h
  have hrun : ∀ m, 8 ≤ m → m ≤ 10 →
      (run step twoWords (readAfter fun n => n % 2 == 0) m).dwReset = false := by
    intro m hm hm'
    interval_cases m <;> decide
  have hquiet : ∀ m, 8 < m → m < 10 →
      (readAfter (fun n => n % 2 == 0) m).writeToControl = false := by
    intro m hm hm'
    interval_cases m
    rfl
  obtain ⟨k, hk, -, hv⟩ := h.returns 8 10 (by decide) (by decide) (by decide) hrun hquiet
    (by decide) (by decide)
  have htrigger : triggeredAt twoWords (readAfter fun n => n % 2 == 0) 8 = some 2 := by decide
  rw [htrigger, Option.some_inj] at hk
  subst hk
  revert hv
  decide

end Wbscope

end ZBasic
