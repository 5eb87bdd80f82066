import ZBasic.Clocked.Run

/-!
# Elastic stages

A channel carries a word at each clock at which its sender offers one and its receiver is ready.
An elastic stage takes words in from one channel and lets them out on another; what it has taken in
and not let out it holds. Nothing is lost in it, nothing is added, and nothing overtakes.
-/

namespace Clocked

variable {α : Type*}

/-- The signals of a channel at each clock. -/
structure Channel (α : Type*) where
  valid : ℕ → Bool
  ready : ℕ → Bool
  data : ℕ → α

/-- The word that a channel carries at a clock. -/
def Channel.transfer (c : Channel α) (n : ℕ) : List α :=
  if c.valid n && c.ready n then [c.data n] else []

/-- The sender of a channel keeps its offer, word and all, until the receiver is ready. -/
def Channel.Persists (reset : ℕ → Bool) (c : Channel α) : Prop :=
  ∀ n, reset n = false → reset (n + 1) = false → c.valid n = true → c.ready n = false →
    c.valid (n + 1) = true ∧ c.data (n + 1) = c.data n

/-- A stage that holds `held n` before clock `n` takes in the words of `up` and lets them out on
`down`, where it offers a word whenever it holds one. A reset empties it. -/
structure Elastic (reset : ℕ → Bool) (up down : Channel α) (held : ℕ → List α) : Prop where
  start : held 0 = []
  emptied : ∀ n, reset n = true → held (n + 1) = []
  conserves : ∀ n, reset n = false →
    down.transfer n ++ held (n + 1) = held n ++ up.transfer n
  offers : ∀ n, reset n = false → held n ≠ [] → down.valid n = true

namespace Elastic

variable {reset : ℕ → Bool} {up down : Channel α} {held : ℕ → List α}
  (h : Elastic reset up down held)
include h

/-- What was taken in since the last reset has been let out, or is held. -/
theorem log_eq (n : ℕ) :
  logSince reset down.transfer n ++ held n = logSince reset up.transfer n
  := logSince_eq h.start h.emptied h.conserves n

/-- What is let out is what was taken in, in order. -/
theorem in_order (n : ℕ) :
  logSince reset down.transfer n <+: logSince reset up.transfer n
  := by
  rw [← h.log_eq n]
  apply List.prefix_append

/-- Where the receiver is ready again and again and no reset comes, all that was taken in is let
out. -/
theorem complete {n : ℕ} (hreset : ∀ j, n ≤ j → reset j = false)
    (hfair : ∀ j, ∃ m, j ≤ m ∧ down.ready m = true) :
  ∃ m, n ≤ m ∧ logSince reset up.transfer n <+: logSince reset down.transfer m
  := by
  have hup : ∀ m, n ≤ m → logSince reset up.transfer n <+: logSince reset up.transfer m := by
    intro m hm
    induction hm with
    | refl => apply List.prefix_rfl
    | @step m hm ih =>
        rw [logSince, if_neg (by rw [hreset m hm]; apply Bool.false_ne_true)]
        apply ih.trans (List.prefix_append _ _)
  have hgrows : ∀ m, n ≤ m → (logSince reset down.transfer (m + 1)).length
      = (logSince reset down.transfer m).length + (down.transfer m).length := by
    intro m hm
    rw [logSince, if_neg (by rw [hreset m hm]; apply Bool.false_ne_true), List.length_append]
  let missing := fun m =>
    (logSince reset up.transfer n).length - (logSince reset down.transfer m).length
  have hstay : ∀ m, n ≤ m → ¬ (logSince reset up.transfer n).length
      ≤ (logSince reset down.transfer m).length → missing (m + 1) ≤ missing m := by
    intro m hm hless
    have hlen := hgrows m hm
    simp only [missing]
    omega
  have hdrop : ∀ m, n ≤ m → ¬ (logSince reset up.transfer n).length
      ≤ (logSince reset down.transfer m).length → down.ready m = true →
      missing (m + 1) < missing m := by
    intro m hm hless hready
    -- As long as a word is missing one is held, and so one is let out.
    have hheld : held m ≠ [] := by
      intro hnone
      have hlog := h.log_eq m
      rw [hnone, List.append_nil] at hlog
      rw [hlog] at hless
      apply hless (hup m hm).length_le
    have hone : (down.transfer m).length = 1 := by
      rw [Channel.transfer, h.offers m (hreset m hm) hheld, hready]
      rfl
    have hlen := hgrows m hm
    simp only [missing]
    omega
  obtain ⟨m, hm, hall⟩ := eventually_of_fair_measure hfair missing n hstay hdrop
  use m, hm
  apply List.prefix_of_prefix_length_le (hup m hm) (h.in_order m) hall

end Elastic

end Clocked
