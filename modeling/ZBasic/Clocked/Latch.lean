import Mathlib.Data.Bool.Basic
import Mathlib.Data.Nat.Basic
import Mathlib.Tactic.Use

/-!
# Latches

A latch is set by some events and cleared by others. It shows whether it has been set since it was
last cleared; an event that does both sets it.
-/

namespace Clocked

/-- A bit that is set at the clocks of `set`, and cleared at those of `clear` that are not among
them. -/
structure Latch (set clear bit : ℕ → Bool) : Prop where
  start : bit 0 = false
  next : ∀ n, bit (n + 1) = (set n || bit n && !clear n)

namespace Latch

variable {set clear bit : ℕ → Bool} (h : Latch set clear bit)
include h

/-- A latch shows whether it has been set and not been cleared after that. -/
theorem eq_true_iff (n : ℕ) :
  bit n = true ↔ ∃ m < n, set m = true ∧ ∀ k, m < k → k < n → clear k = false
  := by
  induction n with
  | zero =>
      rw [h.start]
      constructor
      · intro hnot
        contradiction
      · rintro ⟨m, hm, -⟩
        contradiction
  | succ n ih =>
      rw [h.next, Bool.or_eq_true, Bool.and_eq_true, Bool.not_eq_true', ih]
      constructor
      · rintro (hset | ⟨⟨m, hm, hset, hkept⟩, hclear⟩)
        · use n, Nat.lt_succ_self n, hset
          intro k hk hk'
          omega
        · use m, Nat.lt_succ_of_lt hm, hset
          intro k hk hk'
          rcases Nat.lt_or_eq_of_le (Nat.le_of_lt_succ hk') with hlt | rfl
          · apply hkept k hk hlt
          · apply hclear
      · rintro ⟨m, hm, hset, hkept⟩
        rcases Nat.lt_or_eq_of_le (Nat.le_of_lt_succ hm) with hlt | rfl
        · right
          constructor
          · use m, hlt, hset
            intro k hk hk'
            apply hkept k hk (Nat.lt_succ_of_lt hk')
          · apply hkept n hlt (Nat.lt_succ_self n)
        · left
          apply hset

/-- A latch that is set and not cleared stays set. -/
theorem stays {m n : ℕ} (hm : bit m = true) (hle : m ≤ n)
    (hkept : ∀ k, m ≤ k → k < n → clear k = false) :
  bit n = true
  := by
  induction hle with
  | refl => apply hm
  | @step n hle ih =>
      rw [h.next, ih (fun k hk hk' => hkept k hk (Nat.lt_succ_of_lt hk')),
        hkept n hle (Nat.lt_succ_self n)]
      simp

end Latch

end Clocked
