import Mathlib.Data.Nat.Basic
import Mathlib.Tactic.Use

/-!
# Pipelined Wishbone slaves

A slave is described by what it does at each clock, as streams: whether the cycle line
is up, whether a request is accepted and whether one is acknowledged. The requests
accepted and not yet acknowledged are the outstanding ones; dropping the cycle line
abandons them.
-/

namespace Wishbone

/-- The number of outstanding requests before clock `n`. -/
def outstanding (cyc accept ack : ℕ → Bool) : ℕ → ℕ
  | 0 => 0
  | n + 1 =>
      if cyc n then
        outstanding cyc accept ack n + (if accept n then 1 else 0) - (if ack n then 1 else 0)
      else 0

/-- A slave that answers without error: it stalls no request for ever, and it acknowledges
every accepted request exactly once, at least one clock later and within `limit` clocks of
any clock at which it is outstanding. -/
structure ErrorFree (limit : ℕ) (cyc accept stall ack err : ℕ → Bool) : Prop where
  noErr : ∀ n, err n = false
  fair : ∀ n, ∃ m, n ≤ m ∧ stall m = false
  earlier : ∀ n, ack n = true → 0 < outstanding cyc accept ack n
  answered : ∀ n, 0 < outstanding cyc accept ack n → ∃ m, n ≤ m ∧ m < n + limit ∧ ack m = true

/-- A slave that answers every request it accepted with an acknowledgement or an error, at
least one clock later and one at a time, as long as the cycle lasts. It stalls no request for
ever. -/
structure Answers (cyc accept stall ack err : ℕ → Bool) : Prop where
  fair : ∀ n, ∃ m, n ≤ m ∧ stall m = false
  single : ∀ n, cyc n = true → ack n = true → err n = false
  earlier : ∀ n, cyc n = true → (ack n || err n) = true →
    0 < outstanding cyc accept (fun k => ack k || err k) n
  answered : ∀ n, 0 < outstanding cyc accept (fun k => ack k || err k) n →
    ∃ m, n ≤ m ∧ (cyc m = false ∨ (ack m || err m) = true)

/-- A slave that never stalls and acknowledges every request one clock after accepting it
answers without error. -/
theorem errorFree_of_prompt
    {cyc accept stall ack err : ℕ → Bool} (hcyc : ∀ n, accept n = true → cyc n = true)
    (herr : ∀ n, err n = false) (hstall : ∀ n, stall n = false) (h₀ : ack 0 = false)
    (hack : ∀ n, ack (n + 1) = accept n) {limit : ℕ} (hlimit : 0 < limit) :
  ErrorFree limit cyc accept stall ack err
  := by
  have hout : ∀ n, outstanding cyc accept ack n = if ack n then 1 else 0 := by
    intro n
    induction n with
    | zero => simp [outstanding, h₀]
    | succ n ih =>
        rw [outstanding, ih, hack]
        have := hcyc n
        grind
  constructor
  · apply herr
  · intro n
    use n, le_refl n, hstall n
  · intro n h
    simp [hout, h]
  · intro n h
    use n, le_refl n, Nat.lt_add_of_pos_right hlimit
    rw [hout] at h
    grind

end Wishbone
