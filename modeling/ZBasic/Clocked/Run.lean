import Mathlib.Data.List.Basic
import Mathlib.Order.Basic

/-!
# Runs of synchronous machines

A synchronous machine is a function `step` from a state and the inputs of one clock to
the state after that clock. Its run from `s₀` on a stream of inputs is the stream of
states it passes through, the state at clock `n` being the one before the `n`-th edge.
What happens at each clock is a list of events; the log of a stream of events collects
them up to a given clock.
-/

namespace Clocked

variable {σ ι α β : Type*}

/-- The state of the machine `step` before the `n`-th clock edge, started in `s₀` and
fed the inputs `inp`. -/
def run (step : σ → ι → σ) (s₀ : σ) (inp : ℕ → ι) : ℕ → σ
  | 0 => s₀
  | n + 1 => step (run step s₀ inp n) (inp n)

@[simp]
theorem run_zero (step : σ → ι → σ) (s₀ : σ) (inp : ℕ → ι) :
  run step s₀ inp 0 = s₀
  := rfl

theorem run_succ (step : σ → ι → σ) (s₀ : σ) (inp : ℕ → ι) (n : ℕ) :
  run step s₀ inp (n + 1) = step (run step s₀ inp n) (inp n)
  := rfl

/-- A property of the first state that every step on the inputs preserves holds along the
whole run. -/
theorem run_induction
    {step : σ → ι → σ} {s₀ : σ} {inp : ℕ → ι} {Inv : σ → Prop} (h₀ : Inv s₀)
    (hstep : ∀ n s, Inv s → Inv (step s (inp n))) (n : ℕ) :
  Inv (run step s₀ inp n)
  := by
  induction n with
  | zero => apply h₀
  | succ n ih => apply hstep n _ ih

/-- Of the clocks before `n` at which something happens there is a last one. -/
theorem exists_last {p : ℕ → Prop} {n : ℕ} (h : ∃ m < n, p m) :
  ∃ m < n, p m ∧ ∀ j, m < j → j < n → ¬ p j
  := by
  induction n with
  | zero =>
      obtain ⟨m, hm, -⟩ := h
      cases hm
  | succ n ih =>
      by_cases hp : p n
      · use n, Nat.lt_succ_self n, hp
        intro j hj hj'
        cases Nat.not_le_of_lt hj (Nat.lt_succ_iff.mp hj')
      · obtain ⟨m, hm, hpm⟩ := h
        have hmn : m ≠ n := by
          rintro rfl
          cases hp hpm
        obtain ⟨k, hk, hpk, hlast⟩ :=
          ih ⟨m, Nat.lt_of_le_of_ne (Nat.lt_succ_iff.mp hm) hmn, hpm⟩
        use k, Nat.lt_succ_of_lt hk, hpk
        intro j hj hj'
        rcases Nat.eq_or_lt_of_le (Nat.lt_succ_iff.mp hj') with rfl | hlt
        · apply hp
        · apply hlast j hj hlt

/-! ### Logs of events -/

/-- The events of the stream `e` strictly before clock `n`, in order. -/
def log (e : ℕ → List α) : ℕ → List α
  | 0 => []
  | n + 1 => log e n ++ e n

@[simp]
theorem log_zero (e : ℕ → List α) :
  log e 0 = []
  := rfl

theorem log_succ (e : ℕ → List α) (n : ℕ) :
  log e (n + 1) = log e n ++ e n
  := rfl

/-- A later log extends an earlier one. -/
theorem log_mono (e : ℕ → List α) {m n : ℕ} (h : m ≤ n) :
  log e m <+: log e n
  := by
  induction h with
  | refl => apply List.prefix_rfl
  | step _ ih => apply ih.trans (List.prefix_append _ _)

/-- Where nothing happens the log stays as it is. -/
theorem log_eq_of_silent
    {e : ℕ → List α} {m n : ℕ} (h : m ≤ n) (hsilent : ∀ k, m ≤ k → k < n → e k = []) :
  log e n = log e m
  := by
  induction h with
  | refl => rfl
  | @step n h ih =>
      rw [log_succ, ih (fun k hm hk => hsilent k hm (Nat.lt_succ_of_lt hk)),
        hsilent n h (Nat.lt_succ_self n), List.append_nil]

/-- The log of a stream of events that never happen is empty. -/
theorem log_eq_nil {e : ℕ → List α} (h : ∀ k, e k = []) (n : ℕ) :
  log e n = []
  := log_eq_of_silent (Nat.zero_le n) (fun k _ _ => h k)

theorem mem_log {e : ℕ → List α} {n : ℕ} {a : α} :
  a ∈ log e n ↔ ∃ k < n, a ∈ e k
  := by
  induction n with
  | zero => simp
  | succ n ih =>
      simp only [log_succ, List.mem_append, ih, Nat.lt_succ_iff_lt_or_eq]
      grind

theorem log_filter (p : α → Bool) (e : ℕ → List α) (n : ℕ) :
  log (fun k => (e k).filter p) n = (log e n).filter p
  := by
  induction n with
  | zero => rfl
  | succ n ih => rw [log_succ, log_succ, ih, List.filter_append]

theorem log_map (f : α → β) (e : ℕ → List α) (n : ℕ) :
  log (fun k => (e k).map f) n = (log e n).map f
  := by
  induction n with
  | zero => rfl
  | succ n ih => rw [log_succ, log_succ, ih, List.map_append]

/-! ### Conservation -/

/-- A stage holding `held n` before clock `n`, which at that clock takes in `enter n` and
lets out `leave n`, conserves items: what leaves, followed by what is still held, is what
was held followed by what came in. -/
def Conserves (held enter leave : ℕ → List α) : Prop :=
  ∀ n, leave n ++ held (n + 1) = held n ++ enter n

/-- Everything that entered a conserving stage has left it, in order, or is held. -/
theorem Conserves.log_eq
    {held enter leave : ℕ → List α} (h : Conserves held enter leave) (n : ℕ) :
  log leave n ++ held n = held 0 ++ log enter n
  := by
  induction n with
  | zero => simp
  | succ n ih =>
      rw [log_succ, log_succ, List.append_assoc, h n, ← List.append_assoc, ih,
        List.append_assoc]

/-! ### Logs since a reset -/

/-- The events of the stream `e` since the last clock before `n` at which `reset` was set. -/
def logSince (reset : ℕ → Bool) (e : ℕ → List α) : ℕ → List α
  | 0 => []
  | n + 1 => if reset n then [] else logSince reset e n ++ e n

/-- Since the last reset, which empties it, everything that entered a stage has left it, in
order, or is held. -/
theorem logSince_eq
    {reset : ℕ → Bool} {held enter leave : ℕ → List α} (h₀ : held 0 = [])
    (hreset : ∀ n, reset n = true → held (n + 1) = [])
    (hstep : ∀ n, reset n = false → leave n ++ held (n + 1) = held n ++ enter n) (n : ℕ) :
  logSince reset leave n ++ held n = logSince reset enter n
  := by
  induction n with
  | zero => simp [logSince, h₀]
  | succ n ih =>
      cases hr : reset n with
      | true => simp [logSince, hr, hreset n hr]
      | false =>
          simp only [logSince, hr, Bool.false_eq_true, if_false]
          rw [List.append_assoc, hstep n hr, ← List.append_assoc, ih]

/-! ### Progress -/

/-- If `goal` is reached within one clock whenever the measure cannot drop any more,
and the measure drops at every clock at which the goal is not reached, the goal is
reached. -/
theorem eventually_of_measure
    {goal : ℕ → Prop} (μ : ℕ → ℕ) (m : ℕ)
    (hstep : ∀ n, m ≤ n → ¬ goal n → μ (n + 1) < μ n) :
  ∃ n, m ≤ n ∧ goal n
  := by
  by_contra hnever
  push Not at hnever
  have hbound : ∀ k, μ (m + k) + k ≤ μ m := by
    intro k
    induction k with
    | zero => simp
    | succ k ih =>
        have hdrop : μ (m + (k + 1)) < μ (m + k) :=
          hstep (m + k) (Nat.le_add_right _ _) (hnever _ (Nat.le_add_right _ _))
        omega
  have := hbound (μ m + 1)
  omega

/-- If from some clock on a measure never grows as long as the goal is not reached, and
drops at every such clock at which the machine is enabled, a machine that is enabled again
and again reaches the goal. -/
theorem eventually_of_fair_measure
    {goal enabled : ℕ → Prop} (hfair : ∀ n, ∃ m, n ≤ m ∧ enabled m) (μ : ℕ → ℕ) (n : ℕ)
    (hstay : ∀ k, n ≤ k → ¬ goal k → μ (k + 1) ≤ μ k)
    (hdrop : ∀ k, n ≤ k → ¬ goal k → enabled k → μ (k + 1) < μ k) :
  ∃ m, n ≤ m ∧ goal m
  := by
  induction hμ : μ n using Nat.strongRecOn generalizing n with
  | ind μn ih =>
      by_contra hnever
      push Not at hnever
      obtain ⟨m, hm, henabled⟩ := hfair n
      have hmono : ∀ k, μ (n + k) ≤ μ n := by
        intro k
        induction k with
        | zero => apply Nat.le_refl
        | succ k ihk =>
            have hk : μ (n + (k + 1)) ≤ μ (n + k) :=
              hstay (n + k) (Nat.le_add_right n k) (hnever _ (Nat.le_add_right n k))
            omega
      obtain ⟨k, rfl⟩ := Nat.exists_eq_add_of_le hm
      have hle := hmono k
      have hlt := hdrop (n + k) hm (hnever _ hm) henabled
      obtain ⟨t, ht, hgoal⟩ := ih (μ (n + k + 1)) (by omega) (n + k + 1)
        (fun j hj => hstay j (by omega)) (fun j hj => hdrop j (by omega)) rfl
      apply hnever t (by omega) hgoal

/-- A machine is at work at a clock with some rank. If a clock at which it is at work leads
to the goal or leaves it at work with a rank that is no larger, and is smaller where the
machine moves, and a machine at work moves sooner or later, the goal is reached, and until
then the machine is at work. -/
theorem reaches_of_rank
    {work : ℕ → ℕ → Prop} {goal moves : ℕ → Prop}
    (hstep : ∀ n k, work n k →
      goal (n + 1) ∨ ∃ k' ≤ k, work (n + 1) k' ∧ (moves n → k' < k))
    (hfair : ∀ n k, work n k → ∃ m, n ≤ m ∧ moves m) {n k : ℕ} (h : work n k) :
  ∃ m, n < m ∧ goal m ∧ ∀ j, n ≤ j → j < m → ∃ k', work j k'
  := by
  induction k using Nat.strongRecOn generalizing n with
  | ind k ih =>
      -- Up to the next move the machine stays at work, unless it is done before.
      have hmove : ∀ d n k', k' ≤ k → work n k' → moves (n + d) →
          ∃ m, n < m ∧ goal m ∧ ∀ j, n ≤ j → j < m → ∃ k', work j k' := by
        intro d
        induction d with
        | zero =>
            intro n k' hk h hmoves
            rcases hstep n k' h with hgoal | ⟨k'', hk'', h', hdrop⟩
            · use n + 1, Nat.lt_succ_self n, hgoal
              intro j hj hj'
              obtain rfl : j = n := by omega
              use k'
            · obtain ⟨m, hm, hgoal, hwork⟩ := ih k'' (Nat.lt_of_lt_of_le (hdrop hmoves) hk) h'
              use m, by omega, hgoal
              intro j hj hj'
              rcases Nat.eq_or_lt_of_le hj with rfl | hlt
              · use k'
              · apply hwork j hlt hj'
        | succ d ihd =>
            intro n k' hk h hmoves
            rcases hstep n k' h with hgoal | ⟨k'', hk'', h', -⟩
            · use n + 1, Nat.lt_succ_self n, hgoal
              intro j hj hj'
              obtain rfl : j = n := by omega
              use k'
            · have hthere : n + 1 + d = n + (d + 1) := by omega
              obtain ⟨m, hm, hgoal, hwork⟩ :=
                ihd (n + 1) k'' (Nat.le_trans hk'' hk) h' (by rwa [hthere])
              use m, by omega, hgoal
              intro j hj hj'
              rcases Nat.eq_or_lt_of_le hj with rfl | hlt
              · use k'
              · apply hwork j hlt hj'
      obtain ⟨m, hm, hmoves⟩ := hfair n k h
      obtain ⟨d, rfl⟩ := Nat.exists_eq_add_of_le hm
      apply hmove d n k (Nat.le_refl k) h hmoves

end Clocked
