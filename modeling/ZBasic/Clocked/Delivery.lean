import Mathlib.Data.List.Infix
import ZBasic.Clocked.Run

/-!
# Delivery

What enters a stage that conserves its items has left it or is held by it. Here it is told
when nothing is held for ever, so that everything that enters leaves, and that stages of
this kind may be put one behind the other.
-/

namespace Clocked

variable {α β : Type*}

/-- Whatever has entered up to some clock has left up to some other one, in order. -/
def Delivers (enter leave : ℕ → List α) : Prop := ∀ n, ∃ m, log enter n <+: log leave m

/-! ### Stages one behind the other -/

section Stages

variable {a b c : ℕ → List α}

theorem Delivers.trans (h : Delivers a b) (h' : Delivers b c) :
  Delivers a c
  := by
  intro n
  obtain ⟨m, hm⟩ := h n
  obtain ⟨k, hk⟩ := h' m
  use k
  apply hm.trans hk

theorem Delivers.map (f : α → β) (h : Delivers a b) :
  Delivers (fun n => (a n).map f) (fun n => (b n).map f)
  := by
  intro n
  obtain ⟨m, hm⟩ := h n
  use m
  rw [log_map, log_map]
  apply hm.map

theorem Delivers.filter (p : α → Bool) (h : Delivers a b) :
  Delivers (fun n => (a n).filter p) (fun n => (b n).filter p)
  := by
  intro n
  obtain ⟨m, hm⟩ := h n
  use m
  rw [log_filter, log_filter]
  apply hm.filter

end Stages

/-! ### Stages that conserve their items -/

variable {held enter leave : ℕ → List α}

/-- As long as nothing leaves, what is held stays. -/
theorem Conserves.held_ne_nil
    (h : Conserves held enter leave) {n : ℕ} (hheld : held n ≠ [])
    (hnever : ∀ k, n ≤ k → leave k = []) {m : ℕ} (hm : n ≤ m) :
  held m ≠ []
  := by
  induction hm with
  | refl => apply hheld
  | @step m hm ih =>
      have hstep := h m
      rw [hnever m hm, List.nil_append] at hstep
      rw [hstep]
      apply List.append_ne_nil_of_left_ne_nil ih

/-- If something leaves whenever something has been held for long enough, everything
leaves. -/
theorem Conserves.delivers
    (h : Conserves held enter leave) (h₀ : held 0 = [])
    (hleave : ∀ n, held n ≠ [] → ∃ m, n ≤ m ∧ leave m ≠ []) :
  Delivers enter leave
  := by
  intro n
  have hlog : ∀ m, log leave m ++ held m = log enter m := by
    intro m
    rw [h.log_eq, h₀, List.nil_append]
  -- From any clock from `n` on, by the number of items that have not left yet.
  have hfrom : ∀ d m, n ≤ m → (log enter n).length ≤ (log leave m).length + d →
      ∃ m', log enter n <+: log leave m' := by
    intro d
    induction d with
    | zero =>
        intro m hm hlen
        use m
        apply List.prefix_of_prefix_length_le (log_mono enter hm) _ hlen
        use held m, hlog m
    | succ d ih =>
        intro m hm hlen
        by_cases hheld : held m = []
        · use m
          have hall := hlog m
          rw [hheld, List.append_nil] at hall
          rw [hall]
          apply log_mono enter hm
        · obtain ⟨k, hk, hk'⟩ := hleave m hheld
          have hpos := List.length_pos_of_ne_nil hk'
          have hlater := (log_mono leave hk).length_le
          apply ih (k + 1) (by omega)
          rw [log_succ, List.length_append]
          omega
  apply hfrom (log enter n).length n (Nat.le_refl n) (Nat.le_add_left _ _)

/-- A stage that is enabled again and again, and lets something out whenever it is enabled
and holds something, lets everything out. -/
theorem Conserves.delivers_of_fair
    (h : Conserves held enter leave) (h₀ : held 0 = []) {enabled : ℕ → Prop}
    (hfair : ∀ n, ∃ m, n ≤ m ∧ enabled m)
    (hmove : ∀ n, held n ≠ [] → enabled n → leave n ≠ []) :
  Delivers enter leave
  := by
  apply h.delivers h₀
  intro n hheld
  by_contra hnever
  push Not at hnever
  obtain ⟨m, hm, henabled⟩ := hfair n
  apply hmove m (h.held_ne_nil hheld hnever hm) henabled (hnever m hm)

end Clocked
