import Mathlib.Data.Nat.Count
import ZBasic.Clocked.Counter
import ZBasic.Clocked.Run
import ZBasic.Cpu.Peripherals

/-!
# Intervals of the timer

A count that is written to `ziptimer` is counted down at the clocks with `i_ce`. The interrupt comes
once, or again and again if the timer reloads itself.
-/

namespace ZBasic

open Clocked

namespace Ziptimer

variable {reloadable : Bool}

/-- The state at power-up. -/
structure Initial (s : Ziptimer reloadable) : Prop where
  rRunning : s.rRunning = false
  rZero : s.rZero = true
  rValue : s.rValue = 0
  oInt : s.oInt = false
  rAutoReload : s.rAutoReload = false

/-- The count that is written. -/
def writtenCount (i : PeripheralInput 32) : BitVec 31 := i.iWbData.setWidth 31

/-- The timer is to reload itself with the count that is written. -/
def writtenReload (reloadable : Bool) (i : PeripheralInput 32) : Bool :=
  reloadable && i.iWbData.getLsbD 31

/-! ### What holds between the registers -/

/-- The zero flag is right, and a timer that reloads itself has something to reload. -/
structure Inv (s : Ziptimer reloadable) : Prop where
  rZero : s.rZero = decide (s.rValue = 0#31)
  interval : s.rAutoReload = true → s.rIntervalCount ≠ 0#31

variable {s : Ziptimer reloadable} {i : PeripheralInput 32}

theorem Initial.inv (h : s.Initial) :
  s.Inv
  := by
  constructor
  · rw [h.rZero, h.rValue]
    rfl
  · intro hauto
    rw [h.rAutoReload] at hauto
    cases hauto

section Unwritten

variable (hreset : i.iReset = false) (hwrite : i.wbWrite = false)
include hreset hwrite

/-- Without `i_ce`, or once it has stopped, the timer keeps its value. -/
theorem value_silent (hquiet : (s.rRunning && i.iCe) = false) :
  (s.step i).rValue = s.rValue ∧ (s.step i).rZero = s.rZero
  := by
  constructor
  · have hquiet' : ¬ ((i.iCe && s.rRunning) = true) := by
      rw [Bool.and_comm, hquiet]
      apply Bool.false_ne_true
    simp only [step, hreset, hwrite, if_neg hquiet', Bool.false_eq_true, if_false]
  · simp only [step, hreset, hwrite, hquiet, Bool.false_eq_true, if_false]

/-- A value that is not zero counts down. -/
theorem value_count (hzero : s.rZero = decide (s.rValue = 0#31)) (hce : i.iCe = true)
    (hrun : s.rRunning = true) (hv : s.rValue ≠ 0#31) :
  (s.step i).rValue = s.rValue - 1 ∧ (s.step i).rZero = decide (s.rValue - 1 = 0#31)
  := by
  have hnot : s.rZero = false := by rw [hzero, decide_eq_false hv]
  have hone : decide (s.rValue - 1 = 0#31) = decide (s.rValue = 1) :=
    decide_eq_decide.mpr sub_eq_zero
  constructor
  · simp [step, hreset, hwrite, hce, hrun, hnot]
  · rw [hone]
    simp [step, hreset, hwrite, hce, hrun, hnot]

/-- At zero the timer takes its interval again, or stays there. -/
theorem value_reload (hzero : s.rZero = decide (s.rValue = 0#31)) (hce : i.iCe = true)
    (hrun : s.rRunning = true) (hv : s.rValue = 0#31) :
  (s.step i).rValue = (if s.autoReload then s.intervalCount else 0#31)
    ∧ (s.step i).rZero = !s.autoReload
  := by
  have hyes : s.rZero = true := by rw [hzero, decide_eq_true hv]
  constructor
  · simp [step, hreset, hwrite, hce, hrun, hyes, hv]
  · simp [step, hreset, hwrite, hce, hrun, hyes, hv]

theorem autoReload_step :
  (s.step i).autoReload = s.autoReload
  := by simp [autoReload, step, hreset, hwrite]

omit hreset in
theorem intervalCount_step :
  (s.step i).intervalCount = s.intervalCount
  := by simp [intervalCount, step, hwrite]

/-- The timer stops only when it stands at zero. -/
theorem rRunning_step :
  (s.step i).rRunning = (s.rRunning && !(s.rZero && !s.autoReload))
  := by
  simp only [step, hreset, hwrite, Bool.false_eq_true, if_false]
  cases s.rZero && !s.autoReload <;> simp

theorem oInt_step :
  (s.step i).oInt = (i.iCe && decide (s.rValue = 1#31))
  := by
  cases hce : i.iCe <;> simp [step, hreset, hwrite, hce]

end Unwritten

theorem Inv.intervalCount (h : s.Inv) (hauto : s.autoReload = true) :
  s.intervalCount ≠ 0#31
  := by
  obtain ⟨hr, ha⟩ := Bool.and_eq_true_iff.mp hauto
  rw [Ziptimer.intervalCount, if_pos hr]
  apply h.interval ha

theorem Inv.step (h : s.Inv) :
  (s.step i).Inv
  := by
  constructor
  · cases hreset : i.iReset with
    | true => simp [Ziptimer.step, hreset]
    | false =>
        cases hwrite : i.wbWrite with
        | true => simp [Ziptimer.step, hreset, hwrite]
        | false =>
            cases hrun : s.rRunning && i.iCe with
            | false =>
                obtain ⟨hvalue, hzero⟩ := value_silent hreset hwrite hrun
                rw [hvalue, hzero, h.rZero]
            | true =>
                obtain ⟨hrunning, hce⟩ := Bool.and_eq_true_iff.mp hrun
                by_cases hv : s.rValue = 0#31
                · obtain ⟨hvalue, hzero⟩ := value_reload hreset hwrite h.rZero hce hrunning hv
                  rw [hvalue, hzero]
                  cases hauto : s.autoReload with
                  | false => rfl
                  | true => exact (decide_eq_false (h.intervalCount hauto)).symm
                · obtain ⟨hvalue, hzero⟩ := value_count hreset hwrite h.rZero hce hrunning hv
                  rw [hvalue, hzero]
  · intro hauto
    cases hwrite : i.wbWrite with
    | true =>
        cases hreset : i.iReset with
        | true => simp [Ziptimer.step, hreset] at hauto
        | false =>
            simp only [Ziptimer.step, hreset, hwrite, Bool.false_eq_true, if_false, if_true,
              Bool.and_eq_true, decide_eq_true_eq] at hauto ⊢
            apply hauto.2
    | false =>
        have hbefore : s.rAutoReload = true := by
          cases hreset : i.iReset with
          | true => simp [Ziptimer.step, hreset] at hauto
          | false => simpa [Ziptimer.step, hreset, hwrite] using hauto
        simpa [Ziptimer.step, hwrite] using h.interval hbefore

/-! ### Counting -/

/-- The value after `t` clocks with `i_ce` since `N` was written. -/
def valueAfter (reloads : Bool) (N t : ℕ) : ℕ := if reloads then N - t % (N + 1) else N - t

/-- The registers after `t` clocks with `i_ce` since `N` was written. -/
structure Counting (reloads : Bool) (N t : ℕ) (s : Ziptimer reloadable) : Prop where
  rValue : s.rValue.toNat = valueAfter reloads N t
  rRunning : 0 < valueAfter reloads N t ∨ reloads = true → s.rRunning = true
  autoReload : s.autoReload = reloads
  interval : reloads = true → s.intervalCount.toNat = N

theorem counting_start (hreset : i.iReset = false) (hwrite : i.wbWrite = true)
    (hN : writtenCount i ≠ 0#31) :
  Counting (writtenReload reloadable i) (writtenCount i).toNat 0 (s.step i)
  := by
  have hvalue : valueAfter (writtenReload reloadable i) (writtenCount i).toNat 0
      = (writtenCount i).toNat := by
    simp [valueAfter]
  have hnonzero : i.iWbData.setWidth 31 ≠ 0#31 := hN
  constructor
  · rw [hvalue]
    simp [step, hreset, hwrite, writtenCount]
  · intro _
    simpa [step, hreset, hwrite] using hnonzero
  · simp [step, autoReload, hreset, hwrite, writtenReload, hnonzero]
  · intro hreloads
    obtain ⟨hr, -⟩ := Bool.and_eq_true_iff.mp hreloads
    simp [step, Ziptimer.intervalCount, hr, hwrite, writtenCount]

/-- The value goes down by one, and from zero to where it started, or stays there. -/
theorem valueAfter_succ (reloads : Bool) (N t : ℕ) :
  valueAfter reloads N (t + 1)
    = if valueAfter reloads N t = 0 then (if reloads then N else 0) else valueAfter reloads N t - 1
  := by
  cases reloads with
  | false =>
      simp only [valueAfter, Bool.false_eq_true, if_false]
      split_ifs <;> omega
  | true =>
      have hlt : t % (N + 1) < N + 1 := Nat.mod_lt t (Nat.succ_pos N)
      have hnext : (t + 1) % (N + 1) = if t % (N + 1) = N then 0 else t % (N + 1) + 1 := by
        rcases Nat.eq_zero_or_pos N with rfl | hN
        · simp [Nat.mod_one]
        · rw [Nat.add_mod_eq_ite, Nat.mod_eq_of_lt (show 1 < N + 1 by omega)]
          split_ifs <;> omega
      simp only [valueAfter, if_true, hnext]
      split_ifs <;> omega

/-- The value is about to become zero. -/
theorem valueAfter_eq_one {reloads : Bool} {N t : ℕ} (hN : 0 < N) :
  valueAfter reloads N t = 1
    ↔ if reloads then ∃ j, t + 1 = N + j * (N + 1) else t + 1 = N
  := by
  cases reloads with
  | false =>
      simp only [valueAfter, Bool.false_eq_true, if_false]
      omega
  | true =>
      simp only [valueAfter, if_true]
      have hlt : t % (N + 1) < N + 1 := Nat.mod_lt t (Nat.succ_pos N)
      have hdiv := Nat.mod_add_div t (N + 1)
      constructor
      · intro hone
        use t / (N + 1)
        rw [Nat.mul_comm (t / (N + 1))]
        omega
      · rintro ⟨j, hj⟩
        have ht : t = N - 1 + j * (N + 1) := by omega
        rw [ht, Nat.add_mul_mod_self_right, Nat.mod_eq_of_lt (by omega)]
        omega

/-- Between writes the timer counts at the clocks with `i_ce`. -/
theorem Counting.step {reloads : Bool} {N t : ℕ} (h : Counting reloads N t s) (hinv : s.Inv)
    (hreset : i.iReset = false) (hwrite : i.wbWrite = false) :
  Counting reloads N (if i.iCe then t + 1 else t) (s.step i)
  := by
  have hv : s.rValue = 0#31 ↔ valueAfter reloads N t = 0 := by
    rw [← h.rValue, ← BitVec.toNat_inj]
    rfl
  have hrun := rRunning_step (s := s) hreset hwrite
  have hkeeps : 0 < valueAfter reloads N t ∨ reloads = true → (s.step i).rRunning = true := by
    intro hwhen
    have hgoes : (s.rZero && !s.autoReload) = false := by
      rw [h.autoReload, hinv.rZero]
      rcases hwhen with hpos | hreloads
      · rw [decide_eq_false (fun hzero => Nat.ne_of_gt hpos (hv.mp hzero)), Bool.false_and]
      · rw [hreloads, Bool.not_true, Bool.and_false]
    rw [hrun, h.rRunning hwhen, hgoes]
    rfl
  have hnext := valueAfter_succ reloads N t
  constructor
  case rValue =>
    cases hce : i.iCe with
    | false =>
        obtain ⟨hvalue, -⟩ := value_silent hreset hwrite (s := s) (by rw [hce, Bool.and_false])
        rw [hvalue]
        apply h.rValue
    | true =>
        rw [if_pos rfl, hnext]
        by_cases hzero : valueAfter reloads N t = 0
        · rw [if_pos hzero]
          cases hr : s.rRunning with
          | false =>
              have hno : reloads = false := by
                rw [← Bool.not_eq_true]
                intro hreloads
                rw [h.rRunning (.inr hreloads)] at hr
                cases hr
              obtain ⟨hvalue, -⟩ := value_silent hreset hwrite (s := s) (by rw [hr, Bool.false_and])
              rw [hvalue, hv.mpr hzero, hno]
              rfl
          | true =>
              obtain ⟨hvalue, -⟩ := value_reload hreset hwrite hinv.rZero hce hr (hv.mpr hzero)
              rw [hvalue, h.autoReload]
              cases hreloads : reloads with
              | false => rfl
              | true => apply h.interval hreloads
        · have hpos := Nat.pos_of_ne_zero hzero
          obtain ⟨hvalue, -⟩ := value_count hreset hwrite hinv.rZero hce (h.rRunning (.inl hpos))
            (fun hno => hzero (hv.mp hno))
          rw [if_neg hzero, hvalue, toNat_pred (by rw [h.rValue]; apply hpos), h.rValue]
  case rRunning =>
    intro hwhen
    apply hkeeps
    rcases hwhen with hpos | hreloads
    · by_cases hzero : valueAfter reloads N t = 0
      · right
        by_contra hno
        rw [Bool.not_eq_true] at hno
        rw [hno] at hzero hpos hnext
        split_ifs at hpos with hce
        · rw [hnext, if_pos hzero] at hpos
          cases hpos
        · omega
      · left
        apply Nat.pos_of_ne_zero hzero
    · right
      apply hreloads
  case autoReload => rw [autoReload_step hreset hwrite, h.autoReload]
  case interval =>
    intro hreloads
    rw [intervalCount_step hwrite, h.interval hreloads]

/-- The interrupt is raised at the clock with `i_ce` at which the value becomes zero. -/
theorem Counting.oInt_step {reloads : Bool} {N t : ℕ} (h : Counting reloads N t s) (hN : 0 < N)
    (hreset : i.iReset = false) (hwrite : i.wbWrite = false) :
  (s.step i).oInt = true
    ↔ i.iCe = true ∧ if reloads then ∃ j, t + 1 = N + j * (N + 1) else t + 1 = N
  := by
  rw [Ziptimer.oInt_step hreset hwrite, Bool.and_eq_true, decide_eq_true_eq,
    ← valueAfter_eq_one hN, ← h.rValue, ← BitVec.toNat_inj]
  rfl

/-! ### Runs -/

section Runs

variable (s₀ : Ziptimer reloadable) (inp : ℕ → PeripheralInput 32)

/-- The clocks with `i_ce` between the clocks `m` and `n`. -/
def ticks (m n : ℕ) : ℕ := Nat.count (fun j => m < j ∧ (inp j).iCe = true) n

/-- No reset comes and nothing is written after clock `m` up to clock `n`. -/
def LeftAlone (m n : ℕ) : Prop :=
  ∀ j, m < j → j ≤ n → (inp j).iReset = false ∧ (inp j).wbWrite = false

/-- The zero flag is right. A count that is written is followed by an interrupt when it has run
down, then by rest, or by an interrupt after each interval if it is to be reloaded. Zero is followed
by rest. -/
structure Counts : Prop where
  rZero : ∀ n, (run step s₀ inp n).rZero = decide ((run step s₀ inp n).rValue = 0#31)
  writes : ∀ m, (inp m).wbWrite = true → (run step s₀ inp (m + 1)).oInt = false
  once : ∀ m n, (inp m).iReset = false → (inp m).wbWrite = true → writtenCount (inp m) ≠ 0#31 →
    writtenReload reloadable (inp m) = false → m < n → LeftAlone inp m n →
    ((run step s₀ inp (n + 1)).oInt = true
        ↔ (inp n).iCe = true ∧ ticks inp m (n + 1) = (writtenCount (inp m)).toNat)
      ∧ ((writtenCount (inp m)).toNat ≤ ticks inp m (n + 1) →
        (run step s₀ inp (n + 1)).rValue = 0#31)
  forever : ∀ m n, (inp m).iReset = false → (inp m).wbWrite = true → writtenCount (inp m) ≠ 0#31 →
    writtenReload reloadable (inp m) = true → m < n → LeftAlone inp m n →
    ((run step s₀ inp (n + 1)).oInt = true
      ↔ (inp n).iCe = true ∧ ∃ k, ticks inp m (n + 1)
        = (writtenCount (inp m)).toNat + k * ((writtenCount (inp m)).toNat + 1))
  stops : ∀ m n, (inp m).iReset = false → (inp m).wbWrite = true → writtenCount (inp m) = 0#31 →
    m ≤ n → LeftAlone inp m n →
    (run step s₀ inp (n + 1)).oInt = false ∧ (run step s₀ inp (n + 1)).rValue = 0#31

variable {s₀ inp}

theorem ticks_start (m : ℕ) :
  ticks inp m (m + 1) = 0
  := by
  rw [ticks, Nat.count_iff_forall_not]
  rintro j hj ⟨hmj, -⟩
  omega

theorem ticks_succ {m n : ℕ} (hn : m < n) :
  ticks inp m (n + 1) = if (inp n).iCe then ticks inp m n + 1 else ticks inp m n
  := by
  rw [ticks, Nat.count_succ]
  cases hce : (inp n).iCe <;> simp [hn, ticks]

theorem inv_run (h₀ : s₀.Initial) (n : ℕ) :
  (run step s₀ inp n).Inv
  := run_induction h₀.inv (fun _ _ h => h.step) n

theorem counting_run (h₀ : s₀.Initial) {m n : ℕ} (hreset : (inp m).iReset = false)
    (hwrite : (inp m).wbWrite = true) (hN : writtenCount (inp m) ≠ 0#31) (hn : m < n)
    (halone : ∀ j, m < j → j < n → (inp j).iReset = false ∧ (inp j).wbWrite = false) :
  Counting (writtenReload reloadable (inp m)) (writtenCount (inp m)).toNat (ticks inp m n)
    (run step s₀ inp n)
  := by
  induction hn with
  | refl =>
      rw [ticks_start]
      apply counting_start hreset hwrite hN
  | @step n hn ih =>
      obtain ⟨hreset', hwrite'⟩ := halone n hn (Nat.lt_succ_self n)
      rw [ticks_succ hn]
      apply (ih fun j hj hjn => halone j hj (Nat.lt_succ_of_lt hjn)).step (inv_run h₀ n) hreset'
        hwrite'

/-- A timer that was stopped rests. -/
theorem stopped_run {m n : ℕ} (hreset : (inp m).iReset = false)
    (hwrite : (inp m).wbWrite = true) (hN : writtenCount (inp m) = 0#31) (hn : m < n)
    (halone : ∀ j, m < j → j < n → (inp j).iReset = false ∧ (inp j).wbWrite = false) :
  (run step s₀ inp n).rValue = 0#31 ∧ (run step s₀ inp n).rRunning = false
    ∧ (run step s₀ inp n).oInt = false
  := by
  have hzero : (inp m).iWbData.setWidth 31 = 0#31 := hN
  induction hn with
  | refl => simp [run_succ, step, hreset, hwrite, hzero]
  | @step n hn ih =>
      obtain ⟨hreset', hwrite'⟩ := halone n hn (Nat.lt_succ_self n)
      obtain ⟨hvalue, hrun, -⟩ := ih fun j hj hjn => halone j hj (Nat.lt_succ_of_lt hjn)
      refine ⟨?_, ?_, ?_⟩
      · rw [run_succ, (value_silent hreset' hwrite' (by rw [hrun, Bool.false_and])).1, hvalue]
      · rw [run_succ, rRunning_step hreset' hwrite', hrun, Bool.false_and]
      · rw [run_succ, oInt_step hreset' hwrite', hvalue]
        apply Bool.and_false

/-- The timer counts the intervals that are written to it. -/
theorem counts_intervals (h₀ : s₀.Initial) :
  Counts s₀ inp
  := by
  constructor
  case rZero =>
    intro n
    apply (inv_run h₀ n).rZero
  case writes =>
    intro m hwrite
    simp [run_succ, step, hwrite]
  case once =>
    intro m n hreset hwrite hN honce hn halone
    obtain ⟨hreset', hwrite'⟩ := halone n hn (Nat.le_refl n)
    have hcounting := counting_run h₀ hreset hwrite hN hn
      fun j hj hjn => halone j hj (Nat.le_of_lt hjn)
    rw [honce] at hcounting
    constructor
    · have hpos : 0 < (writtenCount (inp m)).toNat :=
        Nat.pos_of_ne_zero fun hzero => hN (BitVec.eq_of_toNat_eq hzero)
      rw [run_succ, hcounting.oInt_step hpos hreset' hwrite', ticks_succ hn]
      apply and_congr_right
      intro hce
      rw [hce, if_pos rfl, if_neg Bool.false_ne_true]
    · intro hdone
      have hnext := hcounting.step (inv_run h₀ n) hreset' hwrite'
      rw [← ticks_succ hn] at hnext
      apply BitVec.eq_of_toNat_eq
      rw [run_succ, hnext.rValue, valueAfter, if_neg Bool.false_ne_true]
      apply Nat.sub_eq_zero_of_le hdone
  case forever =>
    intro m n hreset hwrite hN hforever hn halone
    obtain ⟨hreset', hwrite'⟩ := halone n hn (Nat.le_refl n)
    have hcounting := counting_run h₀ hreset hwrite hN hn
      fun j hj hjn => halone j hj (Nat.le_of_lt hjn)
    have hpos : 0 < (writtenCount (inp m)).toNat :=
      Nat.pos_of_ne_zero fun hzero => hN (BitVec.eq_of_toNat_eq hzero)
    rw [hforever] at hcounting
    rw [run_succ, hcounting.oInt_step hpos hreset' hwrite', ticks_succ hn]
    apply and_congr_right
    intro hce
    rw [hce, if_pos rfl, if_pos rfl]
  case stops =>
    intro m n hreset hwrite hN hn halone
    have hstopped : (run step s₀ inp (n + 1)).rValue = 0#31
        ∧ (run step s₀ inp (n + 1)).rRunning = false
        ∧ (run step s₀ inp (n + 1)).oInt = false :=
      stopped_run hreset hwrite hN (Nat.lt_succ_of_le hn)
        fun j hj hjn => halone j hj (Nat.lt_succ_iff.mp hjn)
    exact ⟨hstopped.2.2, hstopped.1⟩

end Runs

/-- A timer that is told to count to three again and again, with `i_ce` at every other clock. -/
theorem counts_intervals_three :
  Counts (⟨false, true, 0, false, false, 0⟩ : Ziptimer true)
    fun n => ⟨false, n % 2 == 0, n == 3, true, 0x80000003⟩
  := counts_intervals ⟨rfl, rfl, rfl, rfl, rfl⟩

end Ziptimer

end ZBasic
