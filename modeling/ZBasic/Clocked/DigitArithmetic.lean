import Mathlib.Data.Int.Basic
import Mathlib.Data.Nat.Basic
import Mathlib.Tactic.Ring
import Mathlib.Tactic.SplitIfs

/-!
# Arithmetic digit by digit

Long division goes by binary digits from the top digit down. Once the digits above the
lowest `m` are divided, there are a quotient and a remainder of these digits; taking in the
next digit, the divisor is subtracted where it fits. Where the divisor is shifted instead, from the
top down, it is subtracted from what is left of the whole number.

Long multiplication goes by the digits of one factor from the lowest digit up. Each gives a
row, the other factor or zero, which is added to the sum of the rows so far at its place.
Where the factors are signed, the rows are made positive by adding a constant to each, and
the top digit, which counts negative, gives a row that is complemented.
-/

namespace Clocked

/-! ### Long division -/

/-- The digits of `n` above the lowest `m`, divided by `d`, leave the quotient `q` and the
remainder `r`. -/
structure Divided (n d m q r : ℕ) : Prop where
  lt : r < d
  eq : n / 2 ^ m = d * q + r

/-- The lowest of the digits of `n` above the lowest `m`. -/
theorem div_two_pow_eq (n m : ℕ) :
  n / 2 ^ m = 2 * (n / 2 ^ (m + 1)) + n / 2 ^ m % 2
  := by
  rw [Nat.pow_succ, ← Nat.div_div_eq_div_mul]
  omega

/-- Below the digit `m` of `n` there are the lowest `m` digits. -/
theorem mod_two_pow_succ (n m : ℕ) :
  n % 2 ^ (m + 1) = n / 2 ^ m % 2 * 2 ^ m + n % 2 ^ m
  := by rw [Nat.pow_succ, Nat.mod_mul, Nat.add_comm, Nat.mul_comm (2 ^ m)]

namespace Divided

variable {n d m q r : ℕ}

/-- Before the first digit there is nothing to divide. -/
theorem start (hn : n < 2 ^ m) (hd : 0 < d) :
  Divided n d m 0 0
  := by
  constructor
  · apply hd
  · rw [Nat.div_eq_of_lt hn, Nat.mul_zero]

/-- What the divisor is compared with: the remainder followed by the next digit. -/
def window (n m r : ℕ) : ℕ := 2 * r + n / 2 ^ m % 2

theorem window_eq (h : Divided n d (m + 1) q r) :
  n / 2 ^ m = d * (2 * q) + window n m r
  := by
  rw [div_two_pow_eq, h.eq, window]
  ring

theorem window_lt (h : Divided n d (m + 1) q r) :
  window n m r < 2 * d
  := by
  have := h.lt
  rw [window]
  omega

/-- The window is no longer than the digits taken in so far. -/
theorem window_le (h : Divided n d (m + 1) q r) :
  window n m r ≤ n / 2 ^ m
  := by
  rw [h.window_eq]
  apply Nat.le_add_left

/-- What taking in the next digit leaves of the window. -/
def left (n d m r : ℕ) : ℕ := if d ≤ window n m r then window n m r - d else window n m r

/-- The digit of the quotient that the next digit gives. -/
def digit (n d m r : ℕ) : ℕ := if d ≤ window n m r then 1 else 0

/-- Where the divisor fits it is subtracted, and the quotient goes on with a one. -/
theorem step (h : Divided n d (m + 1) q r) :
  Divided n d m (2 * q + digit n d m r) (left n d m r)
  := by
  have hlt := h.window_lt
  rw [digit, left]
  split_ifs with hfits
  · constructor
    · omega
    · calc n / 2 ^ m = d * (2 * q) + window n m r := h.window_eq
        _ = d * (2 * q) + d + (window n m r - d) := by omega
        _ = d * (2 * q + 1) + (window n m r - d) := by ring
  · constructor
    · omega
    · apply h.window_eq

/-- The quotient once `m` digits are still to come. -/
theorem quotient (h : Divided n d m q r) :
  q = n / 2 ^ m / d
  := by
  rw [h.eq, Nat.mul_add_div (Nat.zero_lt_of_lt h.lt), Nat.div_eq_of_lt h.lt, Nat.add_zero]

/-- The remainder once `m` digits are still to come. -/
theorem remainder (h : Divided n d m q r) :
  r = n / 2 ^ m % d
  := by rw [h.eq, Nat.mul_add_mod, Nat.mod_eq_of_lt h.lt]

/-- The divisor is the window exactly when the quotient becomes odd and nothing is left. -/
theorem window_eq_iff (h : Divided n d (m + 1) q r) :
  window n m r = d ↔ n / 2 ^ m / d % 2 = 1 ∧ d ∣ n / 2 ^ m
  := by
  rw [Nat.dvd_iff_mod_eq_zero, ← h.step.quotient, ← h.step.remainder, digit, left]
  have hlt := h.window_lt
  split_ifs with hfits <;> omega

end Divided

/-- With the divisor `d` shifted by `m` digits still to be taken from `r`, the digits above these
of the quotient of `n` are `q`. -/
structure Subtracted (n d m q r : ℕ) : Prop where
  lt : r < d * 2 ^ m
  eq : n = d * q + r
  dvd : 2 ^ m ∣ q

namespace Subtracted

variable {n d m q r : ℕ}

/-- The shifted divisor is subtracted where it fits. -/
theorem step (h : Subtracted n d (m + 1) q r) :
  Subtracted n d m (if d * 2 ^ m ≤ r then q + 2 ^ m else q)
    (if d * 2 ^ m ≤ r then r - d * 2 ^ m else r)
  := by
  have hlt := h.lt
  rw [Nat.pow_succ, ← Nat.mul_assoc] at hlt
  have hdvd : 2 ^ m ∣ q := (Nat.pow_dvd_pow 2 (Nat.le_succ m)).trans h.dvd
  split_ifs with hfits
  · constructor
    · omega
    · calc n = d * q + r := h.eq
        _ = d * q + d * 2 ^ m + (r - d * 2 ^ m) := by omega
        _ = d * (q + 2 ^ m) + (r - d * 2 ^ m) := by rw [Nat.mul_add]
    · apply Nat.dvd_add hdvd (Nat.dvd_refl _)
  · constructor
    · omega
    · apply h.eq
    · apply hdvd

/-- When the divisor is shifted back, all of the quotient is there. -/
theorem quotient (h : Subtracted n d 0 q r) :
  q = n / d
  := by
  have hlt := h.lt
  rw [Nat.pow_zero, Nat.mul_one] at hlt
  rw [h.eq, Nat.mul_add_div (Nat.zero_lt_of_lt hlt), Nat.div_eq_of_lt hlt, Nat.add_zero]

end Subtracted

/-- The quotient truncated towards zero is the quotient of the magnitudes, negated where the
signs differ. -/
theorem tdiv_eq_natAbs (a b : ℤ) :
  a.tdiv b = if decide (a < 0) ^^ decide (b < 0) then -((a.natAbs / b.natAbs : ℕ) : ℤ)
    else ((a.natAbs / b.natAbs : ℕ) : ℤ)
  := by
  obtain ⟨n, rfl | rfl⟩ := a.eq_nat_or_neg <;> obtain ⟨m, rfl | rfl⟩ := b.eq_nat_or_neg
  · have hn : ¬ (n : ℤ) < 0 := by omega
    have hm : ¬ (m : ℤ) < 0 := by omega
    simp [hn, hm]
  · rcases Nat.eq_zero_or_pos m with rfl | hm
    · simp
    · simp [Int.tdiv_neg, hm]
  · rcases Nat.eq_zero_or_pos n with rfl | hn
    · simp
    · simp [Int.neg_tdiv, hn]
  · rcases Nat.eq_zero_or_pos n with rfl | hn
    · simp
    · rcases Nat.eq_zero_or_pos m with rfl | hm
      · simp
      · simp [hn, hm]

/-! ### Long multiplication -/

/-- A sum of rows is kept at the top of a word of `2 * n` digits, which moves down by one as
the row `w` is added. -/
def addRow (n p w : ℕ) : ℕ := 2 ^ (n - 1) * (p / 2 ^ n + w) + p % 2 ^ n / 2

/-- After `k` rows, with `m + 1` to come, the sum stands at the place `m + 1`. -/
theorem addRow_eq {n k m : ℕ} (h : k + m + 1 = n) (s w : ℕ) :
  addRow n (s * 2 ^ (m + 1)) w = (s + w * 2 ^ k) * 2 ^ m
  := by
  obtain rfl := h
  have hdouble : s * 2 ^ (m + 1) = 2 * (s * 2 ^ m) := by ring
  have hpow : 2 ^ (k + m + 1) = 2 * 2 ^ (k + m) := Nat.pow_succ'
  rw [addRow, Nat.add_sub_cancel, hdouble, hpow, Nat.mul_div_mul_left _ _ Nat.two_pos,
    Nat.mul_mod_mul_left, Nat.mul_div_cancel_left _ Nat.two_pos]
  calc 2 ^ (k + m) * (s * 2 ^ m / 2 ^ (k + m) + w) + s * 2 ^ m % 2 ^ (k + m)
      = 2 ^ (k + m) * (s * 2 ^ m / 2 ^ (k + m)) + s * 2 ^ m % 2 ^ (k + m)
        + 2 ^ (k + m) * w := by ring
    _ = s * 2 ^ m + 2 ^ (k + m) * w := by rw [Nat.div_add_mod]
    _ = (s + w * 2 ^ k) * 2 ^ m := by ring

/-- The sum of the first `k` rows of `a` times `b`. -/
def rows (a b k : ℕ) : ℕ := a * (b % 2 ^ k)

theorem rows_succ (a b k : ℕ) :
  rows a b (k + 1) = rows a b k + b / 2 ^ k % 2 * a * 2 ^ k
  := by
  rw [rows, rows, mod_two_pow_succ]
  ring

theorem rows_all {a b n : ℕ} (hb : b < 2 ^ n) :
  rows a b n = a * b
  := by rw [rows, Nat.mod_eq_of_lt hb]

/-- The sum of the first `k` rows of `a` times `b`, with `2 ^ n` added to each. -/
def signedRows (n : ℕ) (a : ℤ) (b k : ℕ) : ℤ := a * (b % 2 ^ k : ℕ) + 2 ^ n * (2 ^ k - 1)

theorem signedRows_succ (n : ℕ) (a : ℤ) (b k : ℕ) :
  signedRows n a b (k + 1)
    = signedRows n a b k + ((b / 2 ^ k % 2 : ℕ) * a + 2 ^ n) * 2 ^ k
  := by
  rw [signedRows, signedRows, mod_two_pow_succ]
  push_cast
  ring

/-- The complemented row of the top digit makes the sum that of a signed product, up to a
constant. -/
theorem signedRows_last (n : ℕ) (a : ℤ) (b : ℕ) :
  signedRows n a b n + (2 ^ n - 1 - (b / 2 ^ n % 2 : ℕ) * a) * 2 ^ n
    = a * ((b % 2 ^ n : ℕ) - (b / 2 ^ n % 2 : ℕ) * 2 ^ n) + 2 ^ (n + n + 1) - 2 ^ (n + 1)
  := by
  rw [signedRows]
  ring

end Clocked
