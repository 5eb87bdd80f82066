import Mathlib.Data.List.Basic
import ZBasic.Zlib.Udiv

/-!
# Counting leading zeros

`cltz` turns the higher word that is not zero around and counts the zeros below its lowest bit, half
as many at each step.
-/

namespace ZBasic

namespace Udiv

/-- The lowest bit that is set. -/
structure LowestAt (x : BitVec 32) (t : ℕ) : Prop where
  set : x.getLsbD t = true
  clear : ∀ j < t, x.getLsbD j = false

/-- The highest bit that is set. -/
structure HighestAt {w : ℕ} (x : BitVec w) (t : ℕ) : Prop where
  set : x.getLsbD t = true
  clear : ∀ j, t < j → x.getLsbD j = false

theorem zipBitrevLoop_bits {n : ℕ} (r b : BitVec 32) {j : ℕ} (hj : j < 32) :
  (zipBitrevLoop n r b).getLsbD j = if j < n then b.getLsbD (n - 1 - j) else r.getLsbD (j - n)
  := by
  induction n generalizing r b with
  | zero => simp [zipBitrevLoop]
  | succ n ih =>
      rw [zipBitrevLoop, ih]
      rcases Nat.lt_trichotomy j n with hlt | rfl | hgt
      · rw [if_pos hlt, if_pos (by omega), BitVec.getLsbD_ushiftRight]
        congr 1
        omega
      · simp
      · rw [if_neg (by omega), if_neg (by omega)]
        simp only [BitVec.getLsbD_or, BitVec.getLsbD_shiftLeft, BitVec.getLsbD_and]
        simp [show j - n < 32 by omega, show ¬ j - n < 1 by omega, show j - n ≠ 0 by omega]
        congr 1

theorem zipBitrev_bits (a : BitVec 32) {j : ℕ} (hj : j < 32) :
  (zipBitrev a).getLsbD j = a.getLsbD (31 - j)
  := by rw [zipBitrev, zipBitrevLoop_bits _ _ hj, if_pos hj]

/-- Turned around, the highest bit becomes the lowest one. -/
theorem HighestAt.zipBitrev {a : BitVec 32} {t : ℕ} (h : HighestAt a t) :
  LowestAt (zipBitrev a) (31 - t)
  := by
  have ht : t < 32 := BitVec.lt_of_getLsbD h.set
  constructor
  · rw [zipBitrev_bits _ (by omega), show 31 - (31 - t) = t by omega]
    apply h.set
  · intro j hj
    rw [zipBitrev_bits _ (by omega)]
    apply h.clear
    omega

/-- The bits of the mask of a test. -/
theorem mask_bits {w k j : ℕ} (hj : j < w) :
  (BitVec.ofNat w (2 ^ k - 1)).getLsbD j = decide (j < k)
  := by rw [BitVec.getLsbD_ofNat, Nat.testBit_two_pow_sub_one, decide_eq_true hj, Bool.true_and]

theorem and_low_eq_zero {x : BitVec 32} {k : ℕ} :
  x &&& BitVec.ofNat 32 (2 ^ k - 1) = 0 ↔ ∀ j < k, x.getLsbD j = false
  := by
  constructor
  · intro h j hj
    by_cases hj' : j < 32
    · have hbit : (x &&& BitVec.ofNat 32 (2 ^ k - 1)).getLsbD j = false := by
        rw [h]
        apply BitVec.getLsbD_zero
      rwa [BitVec.getLsbD_and, mask_bits hj', decide_eq_true hj, Bool.and_true] at hbit
    · apply BitVec.getLsbD_of_ge _ _ (by omega)
  · intro h
    apply BitVec.eq_of_getLsbD_eq
    intro j hj
    rw [BitVec.getLsbD_and, mask_bits hj]
    by_cases hjk : j < k
    · rw [h j hjk, Bool.false_and]
      apply BitVec.getLsbD_zero.symm
    · rw [decide_eq_false hjk, Bool.and_false]
      apply BitVec.getLsbD_zero.symm

/-- What is skipped is counted. -/
theorem skip_spec {k t : ℕ} {p : ℤ × BitVec 32} (h : LowestAt p.2 t) (ht : t < 2 * k) :
  ∃ t' < k, LowestAt (skip k p).2 t' ∧ (skip k p).1 + t' = p.1 + t
  := by
  rw [skip]
  split_ifs with hzero
  · rw [and_low_eq_zero] at hzero
    have hkt : k ≤ t := by
      by_contra hlt
      have := hzero t (by omega)
      rw [h.set] at this
      cases this
    use t - k, by omega
    refine ⟨⟨?_, ?_⟩, ?_⟩
    · rw [BitVec.getLsbD_ushiftRight, Nat.add_sub_cancel' hkt]
      apply h.set
    · intro j hj
      rw [BitVec.getLsbD_ushiftRight]
      apply h.clear
      omega
    · simp only
      omega
  · rw [and_low_eq_zero] at hzero
    push Not at hzero
    obtain ⟨j, hj, hset⟩ := hzero
    have htk : t < k := by
      by_contra hge
      exact hset (h.clear j (by omega))
    use t, htk, h

/-- All of the zeros are counted. -/
theorem count_spec {t : ℕ} {p : ℤ × BitVec 32} (h : LowestAt p.2 t) (ht : t < 32) :
  (let q := skip 2 (skip 4 (skip 8 (skip 16 p)))
    if q.2 &&& 1 = 0 then q.1 + 1 else q.1) = p.1 + t
  := by
  obtain ⟨t₁, ht₁, h₁, hsum₁⟩ := skip_spec h (k := 16) ht
  obtain ⟨t₂, ht₂, h₂, hsum₂⟩ := skip_spec h₁ (k := 8) ht₁
  obtain ⟨t₃, ht₃, h₃, hsum₃⟩ := skip_spec h₂ (k := 4) ht₂
  obtain ⟨t₄, ht₄, h₄, hsum₄⟩ := skip_spec h₃ (k := 2) ht₃
  have hlow := and_low_eq_zero (x := (skip 2 (skip 4 (skip 8 (skip 16 p)))).2) (k := 1)
  simp only
  split_ifs with hzero
  · have hclear := hlow.mp hzero 0 Nat.one_pos
    have hne : t₄ ≠ 0 := by
      rintro rfl
      rw [h₄.set] at hclear
      cases hclear
    omega
  · have heq : t₄ = 0 := by
      by_contra hne
      apply hzero
      apply hlow.mpr
      intro j hj
      apply h₄.clear
      omega
    omega

theorem HighestAt.ne_zero {w t : ℕ} {x : BitVec w} (h : HighestAt x t) :
  x ≠ 0
  := by
  rintro rfl
  have hset := h.set
  rw [show (0 : BitVec w) = 0#w from rfl, BitVec.getLsbD_zero] at hset
  cases hset

/-- `cltz` counts the bits above the highest one that is set. -/
theorem HighestAt.cltz {v : BitVec 64} {t : ℕ} (h : HighestAt v t) :
  cltz v = 63 - t
  := by
  have ht : t < 64 := BitVec.lt_of_getLsbD h.set
  have hhigh : ∀ j < 32, ((v >>> 32).setWidth 32).getLsbD j = v.getLsbD (32 + j) := by
    intro j hj
    rw [BitVec.getLsbD_setWidth, decide_eq_true hj, Bool.true_and, BitVec.getLsbD_ushiftRight]
  have hlow : ∀ j < 32, ((v &&& 0xffffffff).setWidth 32).getLsbD j = v.getLsbD j := by
    intro j hj
    rw [BitVec.getLsbD_setWidth, decide_eq_true hj, Bool.true_and, BitVec.getLsbD_and,
      show (0xffffffff : BitVec 64) = BitVec.ofNat 64 (2 ^ 32 - 1) from rfl,
      mask_bits (by omega), decide_eq_true hj, Bool.and_true]
  by_cases hup : 32 ≤ t
  · have hat : HighestAt ((v >>> 32).setWidth 32) (t - 32) := by
      constructor
      · rw [hhigh _ (by omega), Nat.add_sub_cancel' hup]
        apply h.set
      · intro j hj
        by_cases hj' : j < 32
        · rw [hhigh j hj']
          apply h.clear
          omega
        · apply BitVec.getLsbD_of_ge _ _ (by omega)
    have hcount := count_spec (p := (0, Udiv.zipBitrev ((v >>> 32).setWidth 32))) hat.zipBitrev
      (by omega)
    simp only [Udiv.cltz, if_neg hat.ne_zero]
    rw [hcount]
    omega
  · have hzero : (v >>> 32).setWidth 32 = (0 : BitVec 32) := by
      apply BitVec.eq_of_getLsbD_eq
      intro j hj
      rw [hhigh j hj, h.clear _ (by omega)]
      apply BitVec.getLsbD_zero.symm
    have hat : HighestAt ((v &&& 0xffffffff).setWidth 32) t := by
      constructor
      · rw [hlow t (by omega)]
        apply h.set
      · intro j hj
        by_cases hj' : j < 32
        · rw [hlow j hj']
          apply h.clear j hj
        · apply BitVec.getLsbD_of_ge _ _ (by omega)
    have hcount := count_spec (p := (32, Udiv.zipBitrev ((v &&& 0xffffffff).setWidth 32)))
      hat.zipBitrev (by omega)
    simp only [Udiv.cltz, if_pos hzero]
    rw [hcount]
    omega

theorem clz_lt {v : BitVec 64} (hv : v ≠ 0) :
  v.clz.toNat < 64
  := by
  have hlt := BitVec.clz_lt_iff_ne_zero.mpr hv
  apply BitVec.lt_def.mp hlt

/-- Of a number that is not zero `cltz` gives the number of leading zeros. -/
theorem cltz_eq {v : BitVec 64} (hv : v ≠ 0) :
  cltz v = v.clz.toNat
  := by
  have hlt := clz_lt hv
  have hat : HighestAt v (63 - v.clz.toNat) := by
    constructor
    · apply BitVec.getLsbD_true_clz_of_ne_zero (by decide) hv
    · intro j hj
      rw [← BitVec.testBit_toNat]
      apply Nat.testBit_lt_two_pow
      apply Nat.lt_of_lt_of_le BitVec.toNat_lt_two_pow_sub_clz
      apply Nat.pow_le_pow_right (by decide)
      omega
  rw [hat.cltz]
  omega

end Udiv

end ZBasic
