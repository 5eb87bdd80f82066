import ZBasic.Clocked.DigitArithmetic
import ZBasic.Zlib.Cltz

/-!
# The quotient of 64 bits

`__udivdi3` gives the quotient, whichever way it takes, and `__divdi3` gives it with its sign.
-/

namespace ZBasic

open Clocked

namespace Udiv

/-! ### The loop -/

/-- A bit is set below the bits that are there. -/
theorem toNat_or_bit {r m : BitVec 64} {j : ℕ} (hm : m.toNat = 2 ^ j) (hr : 2 ^ (j + 1) ∣ r.toNat) :
  (r ||| m).toNat = r.toNat + 2 ^ j
  := by
  obtain ⟨q, hq⟩ := hr
  rw [BitVec.toNat_or, hm, hq, Nat.two_pow_add_eq_or_of_lt]
  apply Nat.pow_lt_pow_right (by decide) (Nat.lt_succ_self j)

theorem toNat_half {m : BitVec 64} {x : ℕ} (hm : m.toNat = 2 * x) :
  (m >>> 1).toNat = x
  := by
  rw [BitVec.toNat_ushiftRight, Nat.shiftRight_eq_div_pow, hm]
  omega

/-- A turn of the loop takes one digit of the long division. -/
theorem udivLoop_turn {n d j : ℕ} {a b m r : BitVec 64} (hb : b.toNat = d * 2 ^ j)
    (hm : m.toNat = 2 ^ j) (h : Subtracted n d (j + 1) r.toNat a.toNat) :
  ∃ a' r', udivLoop a b m r = udivLoop a' (b >>> 1) (m >>> 1) r'
    ∧ Subtracted n d j r'.toNat a'.toNat
  := by
  have hnonzero : m ≠ 0 := by
    rintro rfl
    have := Nat.two_pow_pos j
    rw [← hm] at this
    cases this
  have hstep := h.step
  rw [udivLoop, if_neg hnonzero]
  by_cases hfits : b ≤ a
  · have hfits' : d * 2 ^ j ≤ a.toNat := by
      rw [← hb]
      apply hfits
    use a - b, r ||| m
    rw [if_pos hfits', if_pos hfits'] at hstep
    rw [if_pos hfits, BitVec.toNat_sub_of_le hfits, hb, toNat_or_bit hm h.dvd]
    exact ⟨rfl, hstep⟩
  · have hfits' : ¬ d * 2 ^ j ≤ a.toNat := by
      rw [← hb]
      apply hfits
    use a, r
    rw [if_neg hfits', if_neg hfits'] at hstep
    rw [if_neg hfits]
    exact ⟨rfl, hstep⟩

/-- The loop takes all digits, down to the last one. -/
theorem udivLoop_spec {n d j : ℕ} {a b m r : BitVec 64} (hb : b.toNat = d * 2 ^ j)
    (hm : m.toNat = 2 ^ j) (h : Subtracted n d (j + 1) r.toNat a.toNat) :
  (udivLoop a b m r).toNat = n / d
  := by
  induction j generalizing a b m r with
  | zero =>
      obtain ⟨a', r', hturn, hnext⟩ := udivLoop_turn hb hm h
      have hlast : m >>> 1 = 0 := by
        apply BitVec.eq_of_toNat_eq
        rw [BitVec.toNat_ushiftRight, hm]
        rfl
      rw [hturn, udivLoop, if_pos hlast]
      apply hnext.quotient
  | succ j ih =>
      obtain ⟨a', r', hturn, hnext⟩ := udivLoop_turn hb hm h
      rw [hturn]
      apply ih _ _ hnext
      · apply toNat_half
        rw [hb, Nat.pow_succ]
        ring
      · apply toNat_half
        rw [hm, Nat.pow_succ, Nat.mul_comm]

/-! ### Shifts -/

theorem shl_of_lt (a : BitVec 64) {n : ℕ} (hn : n < 64) :
  shl a n = some (a <<< n)
  := by rw [shl, if_pos (by omega), Int.toNat_natCast]

/-- A number that has `n` leading zeros can be shifted by as many bits. -/
theorem toNat_shl {a : BitVec 64} {n : ℕ} (hn : n ≤ a.clz.toNat) :
  (a <<< n).toNat = a.toNat * 2 ^ n
  := by
  have hlt := BitVec.toNat_lt_two_pow_sub_clz (x := a)
  have hle : a.clz.toNat ≤ 64 := by
    apply BitVec.le_def.mp (BitVec.clz_le (x := a))
  rw [BitVec.toNat_shiftLeft, Nat.shiftLeft_eq, Nat.mod_eq_of_lt]
  calc a.toNat * 2 ^ n < 2 ^ (64 - a.clz.toNat) * 2 ^ n :=
        Nat.mul_lt_mul_of_pos_right hlt (Nat.two_pow_pos n)
    _ = 2 ^ (64 - a.clz.toNat + n) := (Nat.pow_add 2 _ _).symm
    _ ≤ 2 ^ 64 := Nat.pow_le_pow_right (by decide) (by omega)

/-- Shifted by all of its leading zeros, a number has its highest bit set. -/
theorem le_shl_clz {a : BitVec 64} (ha : a ≠ 0) :
  2 ^ 63 ≤ a.toNat * 2 ^ a.clz.toNat
  := by
  have hlt := clz_lt ha
  calc 2 ^ 63 = 2 ^ (64 - 1 - a.clz.toNat) * 2 ^ a.clz.toNat := by
        rw [← Nat.pow_add]
        congr 1
        omega
    _ ≤ a.toNat * 2 ^ a.clz.toNat :=
        Nat.mul_le_mul_right _ (BitVec.two_pow_sub_clz_le_toNat_of_ne_zero (by decide) ha)

/-- A larger number has no more leading zeros. -/
theorem clz_le_of_le {a b : BitVec 64} (hb : b ≠ 0) (hle : b ≤ a) :
  a.clz.toNat ≤ b.clz.toNat
  := by
  by_contra hgt
  have hlt := clz_lt hb
  have ha := BitVec.toNat_lt_two_pow_sub_clz (x := a)
  have hb' := BitVec.two_pow_sub_clz_le_toNat_of_ne_zero (x := b) (by decide) hb
  have hpow : 2 ^ (64 - a.clz.toNat) ≤ 2 ^ (64 - 1 - b.clz.toNat) :=
    Nat.pow_le_pow_right (by decide) (by omega)
  have hle' : b.toNat ≤ a.toNat := hle
  omega

/-! ### The ways to the quotient -/

variable {a b : BitVec 64}

/-- In general the quotient is found by shifting and subtracting. -/
theorem general_spec {k la lb : ℕ} {x : BitVec 64} (hb : b ≠ 0) (hlb : lb = b.clz.toNat)
    (hx : x.toNat = k * 2 ^ la) (hle : la ≤ lb) :
  general x b la lb = some (BitVec.ofNat 64 (k / b.toNat))
  := by
  have hlb' : lb < 64 := by
    rw [hlb]
    apply clz_lt hb
  have hdiff : (lb : ℤ) - la = (lb - la : ℕ) := by omega
  have hshift : (b <<< lb).toNat = b.toNat * 2 ^ la * 2 ^ (lb - la) := by
    rw [toNat_shl (Nat.le_of_eq hlb), Nat.mul_assoc, ← Nat.pow_add, Nat.add_sub_cancel' hle]
  have hone : ((1 : BitVec 64) <<< (lb - la)).toNat = 2 ^ (lb - la) := by
    rw [BitVec.toNat_shiftLeft, Nat.shiftLeft_eq, show (1 : BitVec 64).toNat = 1 from rfl,
      Nat.one_mul, Nat.mod_eq_of_lt (Nat.pow_lt_pow_right (by decide) (by omega))]
  have hstart : Subtracted (k * 2 ^ la) (b.toNat * 2 ^ la) (lb - la + 1) (0 : BitVec 64).toNat
      x.toNat := by
    constructor
    · have hhigh := le_shl_clz hb
      have hlt := x.isLt
      rw [← hlb, ← toNat_shl (Nat.le_of_eq hlb), hshift] at hhigh
      rw [Nat.pow_succ, ← Nat.mul_assoc]
      omega
    · rw [hx, show (0 : BitVec 64).toNat = 0 from rfl, Nat.mul_zero, Nat.zero_add]
    · apply Nat.dvd_zero
  have hquotient : (udivLoop x (b <<< lb) ((1 : BitVec 64) <<< (lb - la)) 0).toNat
      = k / b.toNat := by
    rw [udivLoop_spec hshift hone hstart, Nat.mul_div_mul_right _ _ (Nat.two_pow_pos la)]
  rw [general, shl_of_lt b hlb', hdiff, shl_of_lt 1 (by omega), ← hquotient, BitVec.ofNat_toNat]
  rfl

theorem toNat_low (x : BitVec 64) :
  (x &&& 0xffffffff).toNat = x.toNat % 2 ^ 32
  := by
  rw [BitVec.toNat_and]
  apply Nat.and_two_pow_sub_one_eq_mod x.toNat 32

theorem toNat_high (x : BitVec 64) :
  ((x >>> 32).setWidth 32).toNat = x.toNat / 2 ^ 32
  := by
  have hlt := x.isLt
  rw [BitVec.toNat_setWidth, BitVec.toNat_ushiftRight, Nat.shiftRight_eq_div_pow,
    Nat.mod_eq_of_lt (by omega)]

theorem div32_spec {x y : BitVec 32} (hy : y ≠ 0) :
  (do let ir ← div32 x y; return ir.setWidth 64) = some (BitVec.ofNat 64 (x.toNat / y.toNat))
  := by
  rw [div32, if_neg hy]
  apply congrArg some
  apply BitVec.eq_of_toNat_eq
  have hle : x.toNat / y.toNat ≤ x.toNat := Nat.div_le_self _ _
  have hlt := x.isLt
  rw [BitVec.toNat_setWidth, BitVec.toNat_udiv, BitVec.toNat_ofNat]

/-- Where the lower word of the divisor is zero, the higher words are divided. -/
theorem high_spec {k d : ℕ} {x y : BitVec 64} (hx : x.toNat = k * d) (hy : y.toNat = b.toNat * d)
    (hd : 0 < d) (hy' : y ≠ 0) (hlow : y &&& 0xffffffff = 0) :
  (do let ir ← div32 ((x >>> 32).setWidth 32) ((y >>> 32).setWidth 32); return ir.setWidth 64)
    = some (BitVec.ofNat 64 (k / b.toNat))
  := by
  have hmod : y.toNat % 2 ^ 32 = 0 := by
    rw [← toNat_low, hlow]
    rfl
  have hwhole : y.toNat = 2 ^ 32 * (y.toNat / 2 ^ 32) := by omega
  have hhigh : (y >>> 32).setWidth 32 ≠ (0 : BitVec 32) := by
    intro hzero
    have hnone := toNat_high y
    rw [hzero] at hnone
    apply hy'
    apply BitVec.eq_of_toNat_eq
    rw [hwhole, ← hnone]
    rfl
  rw [div32_spec hhigh, toNat_high, toNat_high, Nat.div_div_eq_div_mul, ← hwhole, hx, hy,
    Nat.mul_div_mul_right _ _ hd]

theorem toNat_of_high_zero {x : BitVec 64} (hx : x >>> 32 = 0) :
  (x.setWidth 32).toNat = x.toNat
  := by
  have hzero := congrArg BitVec.toNat hx
  rw [BitVec.toNat_ushiftRight, Nat.shiftRight_eq_div_pow] at hzero
  change x.toNat / 2 ^ 32 = 0 at hzero
  rw [BitVec.toNat_setWidth]
  omega

/-- `__udivdi3` gives the quotient. -/
theorem udivdi3_eq (a : BitVec 64) (hb : b ≠ 0) :
  udivdi3 a b = some (BitVec.ofNat 64 (a.toNat / b.toNat))
  := by
  rw [udivdi3]
  split_ifs with hlt hsmall
  · rw [Nat.div_eq_of_lt hlt]
    rfl
  · obtain ⟨hb', ha'⟩ := hsmall
    rw [← toNat_of_high_zero ha', ← toNat_of_high_zero hb']
    apply div32_spec
    intro hzero
    apply hb
    apply BitVec.eq_of_toNat_eq
    rw [← toNat_of_high_zero hb', hzero]
    rfl
  · have hba : b ≤ a := BitVec.not_lt.mp hlt
    have ha : a ≠ 0 := by
      rintro rfl
      apply hb
      apply BitVec.eq_of_toNat_eq
      apply Nat.le_zero.mp hba
    have hle := clz_le_of_le hb hba
    have ha' := clz_lt ha
    have hx := toNat_shl (Nat.le_refl a.clz.toNat)
    have hy := toNat_shl hle
    rw [cltz_eq ha, cltz_eq hb]
    simp only [shl_of_lt a ha', Option.bind_eq_bind, Option.bind_some]
    obtain ⟨z, hz, hlow⟩ : ∃ z, lowZero b a.clz.toNat b.clz.toNat = some z
        ∧ (z = true → b <<< a.clz.toNat &&& 0xffffffff = 0) := by
      rw [lowZero]
      split_ifs with hnear
      · use decide (b <<< a.clz.toNat &&& 0xffffffff = 0)
        rw [shl_of_lt b ha']
        exact ⟨rfl, of_decide_eq_true⟩
      · use false, rfl
        intro hfalse
        cases hfalse
    rw [hz]
    cases z with
    | true =>
        have hnonzero : b <<< a.clz.toNat ≠ 0 := by
          intro hzero
          rw [hzero] at hy
          have hb' : b.toNat ≠ 0 := fun h => hb (BitVec.eq_of_toNat_eq h)
          apply Nat.mul_ne_zero hb' (Nat.ne_of_gt (Nat.two_pow_pos a.clz.toNat)) hy.symm
        rw [Option.bind_some, if_pos rfl, shl_of_lt b ha', Option.bind_some]
        apply high_spec hx hy (Nat.two_pow_pos _) hnonzero (hlow rfl)
    | false =>
        rw [Option.bind_some, if_neg Bool.false_ne_true]
        apply general_spec hb rfl hx hle

/-- The general way gives what the faster ways give, wherever its shifts are defined. -/
theorem general_agrees (hb : b ≠ 0) (hle : cltz a ≤ cltz b) :
  (do let x ← shl a (cltz a); general x b (cltz a) (cltz b)) = udivdi3 a b
  := by
  rw [udivdi3_eq a hb]
  rw [cltz_eq hb] at hle ⊢
  by_cases ha : a = 0
  · have hzero : cltz a = (63 : ℕ) := by
      rw [ha]
      decide +kernel
    rw [hzero] at hle ⊢
    have hshift : (a <<< 63).toNat = a.toNat * 2 ^ 63 := by
      rw [ha]
      rfl
    rw [shl_of_lt a (by decide)]
    apply general_spec hb rfl hshift (by omega)
  · rw [cltz_eq ha] at hle ⊢
    rw [shl_of_lt a (clz_lt ha)]
    apply general_spec hb rfl (toNat_shl (Nat.le_refl _)) (by omega)

/-! ### Signs -/

/-- The magnitude of a number in two's complement. -/
theorem toNat_magnitude (a : BitVec 64) :
  (if a.slt 0 then -a else a).toNat = a.toInt.natAbs
  := by
  have hlt := a.isLt
  rw [BitVec.slt, show (0 : BitVec 64).toInt = 0 from rfl]
  by_cases hneg : 2 * a.toNat < 2 ^ 64
  · have hint : a.toInt = a.toNat := by rw [BitVec.toInt_eq_toNat_cond, if_pos hneg]
    rw [hint, if_neg (by simp), Int.natAbs_natCast]
  · have hint : a.toInt = a.toNat - 2 ^ 64 := by
      rw [BitVec.toInt_eq_toNat_cond, if_neg hneg]
      rfl
    rw [hint, if_pos (decide_eq_true (by omega)), BitVec.toNat_neg]
    omega

/-- `__divdi3` gives the quotient truncated towards zero. -/
theorem divdi3_eq (a : BitVec 64) (hb : b ≠ 0) :
  divdi3 a b = some (BitVec.ofInt 64 (a.toInt.tdiv b.toInt))
  := by
  have hb' : (if b.slt 0 then -b else b) ≠ 0 := by
    split_ifs
    · intro hzero
      apply hb
      rw [← BitVec.neg_neg (x := b), hzero]
      rfl
    · apply hb
  rw [divdi3]
  simp only [udivdi3_eq _ hb', toNat_magnitude, Option.bind_eq_bind, Option.bind_some]
  apply congrArg some
  rw [tdiv_eq_natAbs]
  have hslt : ∀ x : BitVec 64, x.slt 0 = decide (x.toInt < 0) := fun _ => rfl
  rw [hslt a, hslt b]
  split_ifs
  · rw [BitVec.ofInt_neg]
    rfl
  · rfl

/-- Division is exact, the faster ways agree with the general one, and leading zeros are counted. -/
theorem divides_exactly (a b : BitVec 64) (hb : b ≠ 0) :
  udivdi3 a b = some (BitVec.ofNat 64 (a.toNat / b.toNat))
    ∧ divdi3 a b = some (BitVec.ofInt 64 (a.toInt.tdiv b.toInt))
    ∧ (cltz a ≤ cltz b →
      (do let x ← shl a (cltz a); general x b (cltz a) (cltz b)) = udivdi3 a b)
    ∧ cltz b = b.clz.toNat
  := ⟨udivdi3_eq a hb, divdi3_eq a hb, general_agrees hb, cltz_eq hb⟩

/-- The minimum value divided by -1. -/
theorem divides_exactly_minimum :
  udivdi3 0x8000000000000000 0xffffffffffffffff
      = some (BitVec.ofNat 64 ((0x8000000000000000 : BitVec 64).toNat
        / (0xffffffffffffffff : BitVec 64).toNat))
    ∧ divdi3 0x8000000000000000 0xffffffffffffffff
      = some (BitVec.ofInt 64 ((0x8000000000000000 : BitVec 64).toInt.tdiv
        (0xffffffffffffffff : BitVec 64).toInt))
    ∧ (cltz 0x8000000000000000 ≤ cltz 0xffffffffffffffff →
      (do
        let x ← shl 0x8000000000000000 (cltz 0x8000000000000000)
        general x 0xffffffffffffffff (cltz 0x8000000000000000) (cltz 0xffffffffffffffff))
        = udivdi3 0x8000000000000000 0xffffffffffffffff)
    ∧ cltz 0xffffffffffffffff = (0xffffffffffffffff : BitVec 64).clz.toNat
  := divides_exactly 0x8000000000000000 0xffffffffffffffff (by decide)

end Udiv

end ZBasic
