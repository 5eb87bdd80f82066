import Mathlib.Data.BitVec
import Mathlib.Data.Nat.Basic
import Mathlib.Tactic.SplitIfs

/-!
# Numbers with digits of several bases

A digit of a number has a base of its own, and counts in units that the lower digits count up to.
One more changes a digit only if all lower ones are at their top; one less, if all lower ones are
zero.
-/

namespace Clocked

variable {m b n : ℕ}

/-- The digit of base `b` that counts in units of `m`. -/
def digit (m b n : ℕ) : ℕ := n / m % b

theorem digit_lt (hb : 0 < b) :
  digit m b n < b
  := Nat.mod_lt _ hb

theorem mod_mul_eq (m b n : ℕ) :
  n % (m * b) = n % m + m * digit m b n
  := Nat.mod_mul

/-- What the digits up to this one count is at its top if all of them are. -/
theorem full_mul (hm : 0 < m) (hb : 0 < b) :
  n % (m * b) + 1 = m * b ↔ digit m b n + 1 = b ∧ n % m + 1 = m
  := by
  have hlt := Nat.mod_lt n hm
  have hdigit : digit m b n < b := digit_lt hb
  rw [mod_mul_eq]
  constructor
  · intro hfull
    have htop : digit m b n + 1 = b := by
      by_contra hne
      have hle : m * (digit m b n + 2) ≤ m * b := Nat.mul_le_mul_left m (by omega)
      rw [Nat.mul_add] at hle
      omega
    have hproduct : m * (digit m b n + 1) = m * b := congrArg (m * ·) htop
    rw [Nat.mul_add, Nat.mul_one] at hproduct
    exact ⟨htop, by omega⟩
  · intro ⟨htop, hlow⟩
    have hproduct : m * (digit m b n + 1) = m * b := congrArg (m * ·) htop
    rw [Nat.mul_add, Nat.mul_one] at hproduct
    omega

/-- The digits up to this one are zero if all of them are. -/
theorem empty_mul (hm : 0 < m) :
  n % (m * b) = 0 ↔ digit m b n = 0 ∧ n % m = 0
  := by
  rw [mod_mul_eq, Nat.add_eq_zero_iff, Nat.mul_eq_zero]
  constructor
  · intro ⟨hlow, hdigit⟩
    exact ⟨hdigit.resolve_left (by omega), hlow⟩
  · intro ⟨hdigit, hlow⟩
    exact ⟨hlow, Or.inr hdigit⟩

/-- The units, one later. -/
theorem succ_div (hm : 0 < m) :
  (n + 1) / m = if n % m + 1 = m then n / m + 1 else n / m
  := by
  have hsplit := Nat.div_add_mod n m
  have hlt := Nat.mod_lt n hm
  split_ifs with hfull
  · have hn : n + 1 = m * (n / m + 1) := by
      rw [Nat.mul_add]
      omega
    rw [hn, Nat.mul_div_cancel_left _ hm]
  · have hn : n + 1 = n % m + 1 + m * (n / m) := by omega
    conv_lhs => rw [hn]
    rw [Nat.add_mul_div_left _ _ hm, Nat.div_eq_of_lt (by omega), Nat.zero_add]

theorem succ_mod (hb : 0 < b) :
  (n + 1) % b = if n % b + 1 = b then 0 else n % b + 1
  := by
  have hlt := Nat.mod_lt n hb
  rw [Nat.add_mod]
  split_ifs with hfull
  · rcases Nat.lt_or_eq_of_le (show 1 ≤ b from hb) with hone | rfl
    · rw [Nat.mod_eq_of_lt hone, hfull, Nat.mod_self]
    · apply Nat.mod_one
  · have hone : 1 % b = 1 := Nat.mod_eq_of_lt (by omega)
    rw [hone, Nat.mod_eq_of_lt (by omega)]

/-- A digit, one later. -/
theorem digit_succ (hm : 0 < m) (hb : 0 < b) :
  digit m b (n + 1) =
    if n % m + 1 = m then (if digit m b n + 1 = b then 0 else digit m b n + 1)
    else digit m b n
  := by
  rw [digit, succ_div hm]
  split_ifs with hfull htop
  · rw [succ_mod hb]
    apply if_pos htop
  · rw [succ_mod hb]
    apply if_neg htop
  · rfl

/-- A digit, one earlier. -/
theorem digit_pred (hm : 0 < m) (hb : 0 < b) :
  digit m b n =
    if (n + 1) % m = 0 then
      (if digit m b (n + 1) = 0 then b - 1 else digit m b (n + 1) - 1)
    else digit m b (n + 1)
  := by
  have hdigit : digit m b n < b := digit_lt hb
  have hlt := Nat.mod_lt n hm
  have hempty : (n + 1) % m = 0 ↔ n % m + 1 = m := by
    rw [succ_mod hm]
    split_ifs with hfull
    · simp [hfull]
    · simp [hfull]
  rw [digit_succ hm hb]
  by_cases hfull : n % m + 1 = m
  · rw [if_pos (hempty.mpr hfull), if_pos hfull]
    by_cases htop : digit m b n + 1 = b
    · rw [if_pos htop, if_pos rfl]
      omega
    · rw [if_neg htop, if_neg (by omega)]
      omega
  · rw [if_neg (fun h => hfull (hempty.mp h)), if_neg hfull]

/-! ### Digits in bit vectors -/

variable {w d : ℕ}

/-- A digit is compared with its top. -/
theorem top_le_ofNat (hd : d < b) (hb : b ≤ 2 ^ w) :
  (BitVec.ofNat w (b - 1) ≤ BitVec.ofNat w d) ↔ d + 1 = b
  := by
  rw [BitVec.le_def, BitVec.toNat_ofNat, BitVec.toNat_ofNat, Nat.mod_eq_of_lt (by omega),
    Nat.mod_eq_of_lt (by omega)]
  omega

theorem ofNat_eq_zero (hd : d < 2 ^ w) :
  BitVec.ofNat w d = 0 ↔ d = 0
  := by
  rw [← BitVec.toNat_inj, BitVec.toNat_ofNat, Nat.mod_eq_of_lt hd]
  rfl

end Clocked
