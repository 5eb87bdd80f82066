import Mathlib.Data.BitVec
import Mathlib.Tactic.Use

/-!
# Binary coded decimals

A number whose hexadecimal digits are all at most nine stands for the number with the same
decimal digits.
-/

namespace Bcd

/-- The number that the lowest `k` digits of `x` stand for. -/
def value : ℕ → ℕ → ℕ
  | 0, _ => 0
  | k + 1, x => 10 * value k (x / 16) + x % 16

/-- The lowest `k` digits of `x` are decimal. -/
def Decimal : ℕ → ℕ → Prop
  | 0, _ => True
  | k + 1, x => x % 16 ≤ 9 ∧ Decimal k (x / 16)

instance decidableDecimal : ∀ k x, Decidable (Decimal k x)
  | 0, _ => inferInstanceAs (Decidable True)
  | k + 1, x =>
      have := decidableDecimal k (x / 16)
      inferInstanceAs (Decidable (x % 16 ≤ 9 ∧ Decimal k (x / 16)))

variable {w : ℕ}

theorem toNat_append (x : BitVec w) (d : BitVec 4) :
  (x ++ d).toNat = 16 * x.toNat + d.toNat
  := by
  rw [BitVec.toNat_append, ← Nat.shiftLeft_add_eq_or_of_lt d.isLt, Nat.shiftLeft_eq]
  omega

/-- A further digit. -/
theorem value_append (k : ℕ) (x : BitVec w) (d : BitVec 4) :
  value (k + 1) (x ++ d).toNat = 10 * value k x.toNat + d.toNat
  := by
  have := d.isLt
  rw [toNat_append, value]
  congr 2
  · congr 1
    omega
  · omega

theorem decimal_append {k : ℕ} {x : BitVec w} {d : BitVec 4} :
  Decimal (k + 1) (x ++ d).toNat ↔ d.toNat ≤ 9 ∧ Decimal k x.toNat
  := by
  have := d.isLt
  rw [toNat_append, Decimal]
  have hlow : (16 * x.toNat + d.toNat) % 16 = d.toNat := by omega
  have hhigh : (16 * x.toNat + d.toNat) / 16 = x.toNat := by omega
  rw [hlow, hhigh]

/-- A last, short digit. -/
theorem value_one {x : BitVec w} (hw : w ≤ 4) :
  value 1 x.toNat = x.toNat
  := by
  have hlt : x.toNat < 16 := Nat.lt_of_lt_of_le x.isLt (Nat.pow_le_pow_right (by decide) hw)
  rw [value, value]
  omega

theorem decimal_one {x : BitVec w} (hw : w ≤ 3) :
  Decimal 1 x.toNat
  := by
  have hlt : x.toNat < 8 := Nat.lt_of_lt_of_le x.isLt (Nat.pow_le_pow_right (by decide) hw)
  constructor
  · omega
  · trivial

end Bcd
