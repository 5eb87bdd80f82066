import Mathlib.Data.BitVec

/-!
# Fields of bit vectors

A field of a field is a field, the fields of a concatenation are the fields of its parts,
and writing a field changes that field only.
-/

namespace Clocked

variable {w v m n : ℕ}

/-- A field of a field of `x` is a field of `x`. -/
theorem extract_extract (x : BitVec w) {a b m n : ℕ} (h : b + m ≤ n) :
  (x.extractLsb' a n).extractLsb' b m = x.extractLsb' (a + b) m
  := by
  ext i hi
  simp only [BitVec.getElem_extractLsb', BitVec.getLsbD_extractLsb', Nat.add_assoc]
  simp only [Bool.and_eq_right_iff_imp, decide_eq_true_eq]
  omega

/-- A field below the seam of a concatenation. -/
theorem extract_append_low (x : BitVec w) (y : BitVec v) {a n : ℕ} (h : a + n ≤ v) :
  (x ++ y).extractLsb' a n = y.extractLsb' a n
  := by
  ext i hi
  simp only [BitVec.getElem_extractLsb', BitVec.getLsbD_append]
  rw [if_pos (by omega)]

/-- A field above the seam of a concatenation. -/
theorem extract_append_high (x : BitVec w) (y : BitVec v) {a n : ℕ} (h : v ≤ a) :
  (x ++ y).extractLsb' a n = x.extractLsb' (a - v) n
  := by
  ext i hi
  simp only [BitVec.getElem_extractLsb', BitVec.getLsbD_append]
  rw [if_neg (by omega)]
  congr 1
  omega

/-- The whole vector as a field. -/
theorem extract_all (x : BitVec w) :
  x.extractLsb' 0 w = x
  := by simp

/-- A vector is what its parts above and below bit `n` are put together to. -/
theorem extract_append_extract (x : BitVec (m + n)) :
  x.extractLsb' n m ++ x.extractLsb' 0 n = x
  := by
  ext i hi
  rw [BitVec.getElem_append]
  split_ifs with h
  · rw [BitVec.getElem_extractLsb', Nat.zero_add, BitVec.getLsbD_eq_getElem hi]
  · rw [BitVec.getElem_extractLsb', Nat.add_sub_cancel' (Nat.not_lt.mp h),
      BitVec.getLsbD_eq_getElem hi]

/-- Two vectors whose parts above and below bit `a` agree are equal. -/
theorem eq_of_extract {x y : BitVec w} (a : ℕ) (ha : a ≤ w)
    (hlow : x.extractLsb' 0 a = y.extractLsb' 0 a)
    (hhigh : x.extractLsb' a (w - a) = y.extractLsb' a (w - a)) :
  x = y
  := by
  ext i hi
  rcases Nat.lt_or_ge i a with hlt | hge
  · have := congrArg (·.getLsbD i) hlow
    simpa [hlt, hi] using this
  · have := congrArg (·.getLsbD (i - a)) hhigh
    simpa [show i - a < w - a by omega, show a + (i - a) = i by omega, hi] using this

/-- Fields made of the same digits of `m` bits each are equal. -/
theorem extract_eq_of_digits {x : BitVec w} {y : BitVec v} {a b m n : ℕ}
    (h : ∀ k < n, x.extractLsb' (a + m * k) m = y.extractLsb' (b + m * k) m) :
  x.extractLsb' a (m * n) = y.extractLsb' b (m * n)
  := by
  ext i hi
  have hm : 0 < m := Nat.pos_of_mul_pos_right (Nat.lt_of_le_of_lt (Nat.zero_le i) hi)
  have hdigit := congrArg (·.getLsbD (i % m)) (h (i / m) (Nat.div_lt_of_lt_mul hi))
  simpa [Nat.mod_lt i hm, Nat.add_assoc, Nat.div_add_mod] using hdigit

/-- Neighbouring fields that are zero make a field that is zero. -/
theorem extract_eq_zero_add {x : BitVec w} {a m n : ℕ} (hlow : x.extractLsb' a m = 0)
    (hhigh : x.extractLsb' (a + m) n = 0) :
  x.extractLsb' a (m + n) = 0
  := by
  ext i hi
  rcases Nat.lt_or_ge i m with h | h
  · have := congrArg (·.getLsbD i) hlow
    simpa [h] using this
  · have := congrArg (·.getLsbD (i - m)) hhigh
    simpa [show i - m < n by omega, show a + m + (i - m) = a + i by omega] using this

/-- A vector whose part above bit `n` is zero is its part below that bit. -/
theorem setWidth_extract_of_zero {x : BitVec w} {n : ℕ} (h : x.extractLsb' n (w - n) = 0) :
  (x.extractLsb' 0 n).setWidth w = x
  := by
  ext i hi
  rcases Nat.lt_or_ge i n with hlt | hge
  · simp [hlt, hi]
  · have := congrArg (·.getLsbD (i - n)) h
    simp only [BitVec.getLsbD_extractLsb', Nat.add_sub_cancel' hge,
      show i - n < w - n by omega, decide_true, Bool.true_and] at this
    simp [← BitVec.getLsbD_eq_getElem, this, Nat.not_lt.mpr hge]

/-- Shifting the next digit of `m` bits into a number made of the digits above it. -/
theorem shiftLeft_or_extract (x : BitVec w) (a m n : ℕ) (v : ℕ) :
  (x.extractLsb' (a + m) n).setWidth v <<< m ||| (x.extractLsb' a m).setWidth v
    = (x.extractLsb' a (n + m)).setWidth v
  := by
  ext i hi
  simp only [BitVec.getElem_or, BitVec.getElem_shiftLeft, BitVec.getElem_setWidth,
    BitVec.getLsbD_extractLsb']
  rcases Nat.lt_or_ge i m with h | h
  · simp [h, show i < n + m by omega]
  · have hn : i - m < n ↔ i < n + m := by omega
    simp [Nat.not_lt.mpr h, show a + m + (i - m) = a + i by omega, hn]

/-! ### Writing a field -/

/-- `x` with the field of width `n` from bit `a` on replaced by `g`. -/
def put (x : BitVec w) (a : ℕ) (g : BitVec n) : BitVec w :=
  (x &&& ~~~ ((BitVec.allOnes n).setWidth w <<< a)) ||| (g.setWidth w <<< a)

theorem getLsbD_put (x : BitVec w) (a : ℕ) (g : BitVec n) {i : ℕ} (hi : i < w) :
  (put x a g).getLsbD i = if a ≤ i ∧ i < a + n then g.getLsbD (i - a) else x.getLsbD i
  := by
  simp only [put, BitVec.getLsbD_or, BitVec.getLsbD_and, BitVec.getLsbD_not,
    BitVec.getLsbD_shiftLeft, BitVec.getLsbD_setWidth, BitVec.getLsbD_allOnes, hi]
  have hlt : i - a < w := by omega
  simp only [hlt]
  rcases Nat.lt_or_ge i a with h | h
  · simp [h, Nat.not_le.mpr h]
  · rcases Nat.lt_or_ge i (a + n) with h' | h'
    · simp [h, h', Nat.not_lt.mpr h, show i - a < n by omega]
    · have : g.getLsbD (i - a) = false := BitVec.getLsbD_of_ge _ _ (by omega)
      simp [h, Nat.not_lt.mpr h, Nat.not_lt.mpr h', this, show ¬ i - a < n by omega]

theorem extract_put_same (x : BitVec w) {a : ℕ} (g : BitVec n) (h : a + n ≤ w) :
  (put x a g).extractLsb' a n = g
  := by
  ext i hi
  rw [BitVec.getElem_extractLsb', getLsbD_put x a g (by omega), if_pos (by omega)]
  simp [hi]

theorem extract_put_disjoint (x : BitVec w) {a b m : ℕ} (g : BitVec n) (hb : b + m ≤ w)
    (h : b + m ≤ a ∨ a + n ≤ b) :
  (put x a g).extractLsb' b m = x.extractLsb' b m
  := by
  ext i hi
  rw [BitVec.getElem_extractLsb', getLsbD_put x a g (by omega), if_neg (by omega),
    BitVec.getElem_extractLsb']

theorem toNat_append (x : BitVec w) (y : BitVec v) :
  (x ++ y).toNat = 2 ^ v * x.toNat + y.toNat
  := by
  rw [BitVec.toNat_append, ← Nat.shiftLeft_add_eq_or_of_lt y.isLt, Nat.shiftLeft_eq,
    Nat.mul_comm]

/-- Zeros above a vector. -/
theorem zero_append (x : BitVec v) :
  0#w ++ x = x.setWidth (w + v)
  := by
  have hzero : (0#w).toNat = 0 := by simp
  have hlt : x.toNat < 2 ^ (w + v) :=
    Nat.lt_of_lt_of_le x.isLt (Nat.pow_le_pow_right Nat.two_pos (Nat.le_add_left v w))
  apply BitVec.eq_of_toNat_eq
  rw [toNat_append, hzero, BitVec.toNat_setWidth, Nat.mod_eq_of_lt hlt, Nat.mul_zero,
    Nat.zero_add]

theorem toNat_extract_low (x : BitVec w) :
  (x.extractLsb' 0 n).toNat = x.toNat % 2 ^ n
  := by simp [BitVec.extractLsb'_toNat]

theorem toNat_extract_high (x : BitVec w) {a : ℕ} (h : a + n = w) :
  (x.extractLsb' a n).toNat = x.toNat / 2 ^ a
  := by
  have hlt : x.toNat / 2 ^ a < 2 ^ n := by
    apply Nat.div_lt_of_lt_mul
    rw [← Nat.pow_add, h]
    apply x.isLt
  rw [BitVec.extractLsb'_toNat, Nat.shiftRight_eq_div_pow, Nat.mod_eq_of_lt hlt]

/-- Writing the lowest bits of a number. -/
theorem toNat_put_low (x : BitVec w) (g : BitVec n) (h : n ≤ w) :
  (put x 0 g).toNat = 2 ^ n * (x.toNat / 2 ^ n) + g.toNat
  := by
  have hlow : (put x 0 g).toNat % 2 ^ n = g.toNat := by
    rw [← toNat_extract_low, extract_put_same x g (by omega)]
  have hhigh := congrArg BitVec.toNat
    (extract_put_disjoint x (b := n) (m := w - n) (a := 0) g (by omega) (by omega))
  rw [toNat_extract_high _ (by omega), toNat_extract_high _ (by omega)] at hhigh
  rw [← Nat.div_add_mod (put x 0 g).toNat (2 ^ n), hlow, hhigh]

/-- Writing the highest bits of a number. -/
theorem toNat_put_high (x : BitVec w) {a : ℕ} (g : BitVec n) (h : a + n = w) :
  (put x a g).toNat = 2 ^ a * g.toNat + x.toNat % 2 ^ a
  := by
  have hhigh := congrArg BitVec.toNat (extract_put_same x (a := a) g (by omega))
  rw [toNat_extract_high _ h] at hhigh
  have hlow := congrArg BitVec.toNat
    (extract_put_disjoint x (b := 0) (m := a) (a := a) g (by omega) (by omega))
  rw [toNat_extract_low, toNat_extract_low] at hlow
  rw [← Nat.div_add_mod (put x a g).toNat (2 ^ a), hlow, hhigh]

end Clocked
