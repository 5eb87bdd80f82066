import ZBasic.Clocked.Run
import Mathlib.Tactic.Use
import Mathlib.Tactic.ByCases

/-!
# Units that work on one operation at a time

A unit is asked for an operation by the inputs of one clock, works on it for a number of
clocks that these inputs alone determine, and then shows the result for one clock. While it
is busy it must not be asked again; a reset ends the operation it works on.

What a unit does is known from what it does in one clock: how the stages of an operation
follow each other, and that between operations it idles.
-/

namespace Clocked

variable {σ ι : Type*}

/-- What is seen of a unit: when it is reset, when it is asked for an operation, when it is
busy, and when it shows a result. -/
structure Interface (σ ι : Type*) where
  step : σ → ι → σ
  reset : ι → Bool
  asks : σ → ι → Bool
  busy : σ → Bool
  valid : σ → Bool

namespace Interface

variable (u : Interface σ ι) (s₀ : σ) (inp : ℕ → ι)

/-- The unit is not asked for an operation while it is busy. -/
def Respected : Prop :=
  ∀ n, u.busy (run u.step s₀ inp n) = true → u.asks (run u.step s₀ inp n) (inp n) = false

/-- The unit takes in an operation at clock `m`. -/
structure TakesIn (m : ℕ) : Prop where
  reset : u.reset (inp m) = false
  asks : u.asks (run u.step s₀ inp m) (inp m) = true

/-- There is no reset from clock `m` on before clock `n`. -/
def NoReset (m n : ℕ) : Prop := ∀ j, m ≤ j → j < n → u.reset (inp j) = false

end Interface

/-- One clock of a unit: from where it is `Ready`, it takes in an operation or idles; the
operation `op` then goes through the stages `1` to `latency op`. At the last of them the
unit shows the result and is ready again. -/
structure OneAtATime (u : Interface σ ι) (latency : ι → ℕ) (Idle Ready : σ → Prop)
    (Stage : ι → ℕ → σ → Prop) : Prop where
  pos : ∀ op, 0 < latency op
  ready_of_idle : ∀ s, Idle s → Ready s
  ready_of_last : ∀ op s, Stage op (latency op) s → Ready s
  busy_of_ready : ∀ s, Ready s → u.busy s = false
  busy_of_stage : ∀ op k s, Stage op k s → k < latency op → u.busy s = true
  valid_of_idle : ∀ s, Idle s → u.valid s = false
  valid_of_stage : ∀ op k s, Stage op k s → (u.valid s = true ↔ k = latency op)
  idle_of_reset : ∀ s i, u.reset i = true → Idle (u.step s i)
  idle : ∀ s i, Ready s → u.reset i = false → u.asks s i = false → Idle (u.step s i)
  take : ∀ s i, Ready s → u.reset i = false → u.asks s i = true → Stage i 1 (u.step s i)
  work : ∀ op k s i, Stage op k s → k < latency op → u.reset i = false → u.asks s i = false →
    Stage op (k + 1) (u.step s i)

namespace OneAtATime

variable {u : Interface σ ι} {latency : ι → ℕ} {Idle Ready : σ → Prop}
  {Stage : ι → ℕ → σ → Prop} {s₀ : σ} {inp : ℕ → ι}

/-- A unit is idle, or at a stage of an operation that it took in. -/
theorem idle_or_stage
    (h : OneAtATime u latency Idle Ready Stage) (hasks : u.Respected s₀ inp) (h₀ : Idle s₀)
    (n : ℕ) :
  Idle (run u.step s₀ inp n)
    ∨ ∃ m k, n = m + k ∧ 0 < k ∧ k ≤ latency (inp m) ∧ u.TakesIn s₀ inp m
      ∧ u.NoReset inp m n ∧ Stage (inp m) k (run u.step s₀ inp n)
  := by
  induction n with
  | zero =>
      left
      apply h₀
  | succ n ih =>
      rw [run_succ]
      cases hreset : u.reset (inp n) with
      | true =>
          left
          apply h.idle_of_reset _ _ hreset
      | false =>
          -- From where the unit is ready, it takes in an operation or idles.
          have hready : Ready (run u.step s₀ inp n) →
              Idle (u.step (run u.step s₀ inp n) (inp n))
                ∨ ∃ m k, n + 1 = m + k ∧ 0 < k ∧ k ≤ latency (inp m)
                  ∧ u.TakesIn s₀ inp m ∧ u.NoReset inp m (n + 1)
                  ∧ Stage (inp m) k (u.step (run u.step s₀ inp n) (inp n)) := by
            intro hready
            cases ha : u.asks (run u.step s₀ inp n) (inp n) with
            | false =>
                left
                apply h.idle _ _ hready hreset ha
            | true =>
                right
                use n, 1, rfl, Nat.one_pos, h.pos (inp n), ⟨hreset, ha⟩
                constructor
                · intro j hj hj'
                  rwa [Nat.le_antisymm (Nat.lt_succ_iff.mp hj') hj]
                · apply h.take _ _ hready hreset ha
          rcases ih with hidle | ⟨m, k, rfl, hk, hle, htakes, hno, hstage⟩
          · apply hready (h.ready_of_idle _ hidle)
          · rcases Nat.eq_or_lt_of_le hle with rfl | hlt
            · apply hready (h.ready_of_last _ _ hstage)
            · right
              use m, k + 1, rfl, Nat.succ_pos k, hlt, htakes
              constructor
              · intro j hj hj'
                rcases Nat.eq_or_lt_of_le (Nat.lt_succ_iff.mp hj') with rfl | hj'
                · apply hreset
                · apply hno j hj hj'
              · apply h.work _ _ _ _ hstage hlt hreset
                  (hasks _ (h.busy_of_stage _ _ _ hstage hlt))

/-- Where an operation is taken in, the unit was ready for it. -/
theorem ready_of_takesIn
    (h : OneAtATime u latency Idle Ready Stage) (hasks : u.Respected s₀ inp) (h₀ : Idle s₀)
    {m : ℕ} (htakes : u.TakesIn s₀ inp m) :
  Ready (run u.step s₀ inp m)
  := by
  rcases h.idle_or_stage hasks h₀ m with hidle | ⟨_, k, -, -, hle, -, -, hstage⟩
  · apply h.ready_of_idle _ hidle
  · rcases Nat.eq_or_lt_of_le hle with rfl | hlt
    · apply h.ready_of_last _ _ hstage
    · have := hasks m (h.busy_of_stage _ _ _ hstage hlt)
      rw [htakes.asks] at this
      contradiction

/-- An operation that was taken in goes through its stages as long as there is no reset. -/
theorem stage
    (h : OneAtATime u latency Idle Ready Stage) (hasks : u.Respected s₀ inp) (h₀ : Idle s₀)
    {m k : ℕ} (htakes : u.TakesIn s₀ inp m) (hk : 0 < k) (hle : k ≤ latency (inp m))
    (hno : u.NoReset inp m (m + k)) :
  Stage (inp m) k (run u.step s₀ inp (m + k))
  := by
  induction k with
  | zero => contradiction
  | succ k ih =>
      rw [← Nat.add_assoc, run_succ]
      rcases Nat.eq_zero_or_pos k with rfl | hpos
      · apply h.take _ _ (h.ready_of_takesIn hasks h₀ htakes) htakes.reset htakes.asks
      · have hstage := ih hpos (Nat.le_of_succ_le hle)
          (fun j hj hj' => hno j hj (Nat.lt_succ_of_lt hj'))
        apply h.work _ _ _ _ hstage hle
        · apply hno (m + k) (Nat.le_add_right m k) (Nat.lt_succ_self _)
        · apply hasks _ (h.busy_of_stage _ _ _ hstage hle)

/-- The unit shows a result exactly at the end of each operation that no reset cut short. -/
theorem valid_iff
    (h : OneAtATime u latency Idle Ready Stage) (hasks : u.Respected s₀ inp) (h₀ : Idle s₀)
    (n : ℕ) :
  u.valid (run u.step s₀ inp n) = true
    ↔ ∃ m, n = m + latency (inp m) ∧ u.TakesIn s₀ inp m ∧ u.NoReset inp m n
  := by
  constructor
  · intro hvalid
    rcases h.idle_or_stage hasks h₀ n with hidle | ⟨m, k, rfl, -, -, htakes, hno, hstage⟩
    · rw [h.valid_of_idle _ hidle] at hvalid
      contradiction
    · obtain rfl := (h.valid_of_stage _ _ _ hstage).mp hvalid
      use m
  · rintro ⟨m, rfl, htakes, hno⟩
    apply (h.valid_of_stage _ _ _ (h.stage hasks h₀ htakes (h.pos _) (Nat.le_refl _) hno)).mpr
    rfl

/-- The unit is busy exactly while it works on an operation. -/
theorem busy_iff
    (h : OneAtATime u latency Idle Ready Stage) (hasks : u.Respected s₀ inp) (h₀ : Idle s₀)
    (n : ℕ) :
  u.busy (run u.step s₀ inp n) = true
    ↔ ∃ m, m < n ∧ n < m + latency (inp m) ∧ u.TakesIn s₀ inp m ∧ u.NoReset inp m n
  := by
  constructor
  · intro hbusy
    rcases h.idle_or_stage hasks h₀ n with hidle | ⟨m, k, rfl, hk, hle, htakes, hno, hstage⟩
    · rw [h.busy_of_ready _ (h.ready_of_idle _ hidle)] at hbusy
      contradiction
    · rcases Nat.eq_or_lt_of_le hle with rfl | hlt
      · rw [h.busy_of_ready _ (h.ready_of_last _ _ hstage)] at hbusy
        contradiction
      · use m, Nat.lt_add_of_pos_right hk, Nat.add_lt_add_left hlt m
  · rintro ⟨m, hm, hlt, htakes, hno⟩
    obtain ⟨k, rfl⟩ := Nat.exists_eq_add_of_le (Nat.le_of_lt hm)
    have hk : k < latency (inp m) := Nat.lt_of_add_lt_add_left hlt
    apply h.busy_of_stage _ _ _ _ hk
    apply h.stage hasks h₀ htakes (by omega) (Nat.le_of_lt hk) hno

/-- Two operations do not overlap: where one is taken in, no other is being worked on. -/
theorem takesIn_unique
    (h : OneAtATime u latency Idle Ready Stage) (hasks : u.Respected s₀ inp) (h₀ : Idle s₀)
    {m m' : ℕ} (htakes : u.TakesIn s₀ inp m) (htakes' : u.TakesIn s₀ inp m')
    (hno : u.NoReset inp m m') (hlt : m' < m + latency (inp m)) :
  m' ≤ m
  := by
  by_contra hm
  have hbusy := (h.busy_iff hasks h₀ m').mpr ⟨m, Nat.lt_of_not_le hm, hlt, htakes, hno⟩
  have := hasks m' hbusy
  rw [htakes'.asks] at this
  contradiction

/-- No two operations end at the same clock. -/
theorem takesIn_eq_of_end
    (h : OneAtATime u latency Idle Ready Stage) (hasks : u.Respected s₀ inp) (h₀ : Idle s₀)
    {m m' : ℕ} (htakes : u.TakesIn s₀ inp m) (htakes' : u.TakesIn s₀ inp m')
    (hno : u.NoReset inp m (m + latency (inp m)))
    (hno' : u.NoReset inp m' (m' + latency (inp m')))
    (hend : m + latency (inp m) = m' + latency (inp m')) :
  m = m'
  := by
  have hpos := h.pos (inp m)
  have hpos' := h.pos (inp m')
  apply Nat.le_antisymm
  · apply h.takesIn_unique hasks h₀ htakes' htakes _ (by omega)
    intro j hj hj'
    apply hno' j hj (by omega)
  · apply h.takesIn_unique hasks h₀ htakes htakes' _ (by omega)
    intro j hj hj'
    apply hno j hj (by omega)

/-- Where every operation takes more than one clock, a result is shown for one clock. -/
theorem valid_once
    (h : OneAtATime u latency Idle Ready Stage) (hasks : u.Respected s₀ inp) (h₀ : Idle s₀)
    (hlatency : ∀ op, 1 < latency op) {n : ℕ} (hvalid : u.valid (run u.step s₀ inp n) = true) :
  u.valid (run u.step s₀ inp (n + 1)) = false
  := by
  by_contra hnext
  rw [Bool.not_eq_false] at hnext
  obtain ⟨m, rfl, htakes, hno⟩ := (h.valid_iff hasks h₀ _).mp hvalid
  obtain ⟨m', hend, htakes', hno'⟩ := (h.valid_iff hasks h₀ _).mp hnext
  have hlatency' := hlatency (inp m')
  have hle : m' ≤ m := by
    apply h.takesIn_unique hasks h₀ htakes htakes' _ (by omega)
    intro j hj hj'
    apply hno j hj (by omega)
  have hge : m ≤ m' := by
    apply h.takesIn_unique hasks h₀ htakes' htakes _ (by have := hlatency (inp m); omega)
    intro j hj hj'
    apply hno' j hj (by omega)
  obtain rfl := Nat.le_antisymm hle hge
  omega

end OneAtATime

end Clocked
