import ZBasic.Clocked.Ring

/-!
# Counters

What a counter of some width counts, before it overflows.
-/

namespace Clocked

variable {w : ℕ} {v : BitVec w}

/-- A counter that is not zero counts down. -/
theorem toNat_pred (h : 0 < v.toNat) :
  (v - 1).toNat = v.toNat - 1
  := by
  have hone : (1 : BitVec w).toNat = 1 := toNat_one_of_lt (by have := v.isLt; omega)
  rw [BitVec.toNat_sub_of_le, hone]
  rw [BitVec.le_def, hone]
  apply h

/-- A counter that is not full counts up. -/
theorem toNat_succ (h : v.toNat + 1 < 2 ^ w) :
  (v + 1).toNat = v.toNat + 1
  := by
  have hone : (1 : BitVec w).toNat = 1 := toNat_one_of_lt (by omega)
  rw [BitVec.toNat_add_of_lt, hone]
  rw [hone]
  apply h

theorem eq_one_iff (hw : 1 < 2 ^ w) :
  v = 1 ↔ v.toNat = 1
  := by rw [← BitVec.toNat_inj, toNat_one_of_lt hw]

theorem beq_one (hw : 1 < 2 ^ w) :
  (v == 1) = (v.toNat == 1)
  := by rw [Bool.eq_iff_iff, beq_iff_eq, beq_iff_eq, eq_one_iff hw]

end Clocked
