import Mathlib.Data.BitVec
import Mathlib.Tactic.Ring

/-!
# Pointers into a ring of slots

A ring of `2 ^ m` slots is addressed by free-running pointers; the distance from a read
pointer `y` to a write pointer `x` is `(x - y).toNat`.
-/

namespace Clocked

theorem toNat_one_of_lt {w : ℕ} (h : 1 < 2 ^ w) :
  (1 : BitVec w).toNat = 1
  := by simp [Nat.mod_eq_of_lt h]

/-- Advancing the write pointer increases the distance. -/
theorem toNat_succ_sub {w : ℕ} (x y : BitVec w) (h : (x - y).toNat + 1 < 2 ^ w) :
  (x + 1 - y).toNat = (x - y).toNat + 1
  := by
  have hcomm : x + 1 - y = (x - y) + 1 := by ring
  rw [hcomm, BitVec.toNat_add, toNat_one_of_lt (by omega), Nat.mod_eq_of_lt h]

/-- Advancing the read pointer decreases the distance. -/
theorem toNat_sub_succ {w : ℕ} (x y : BitVec w) (h : (x - y).toNat ≠ 0) :
  (x - (y + 1)).toNat = (x - y).toNat - 1
  := by
  have hlt := (x - y).isLt
  have hlt' := (x - (y + 1)).isLt
  have hback : x - y = (x - (y + 1)) + 1 := by ring
  have hsum : (x - y).toNat = ((x - (y + 1)).toNat + 1) % 2 ^ w := by
    conv_lhs => rw [hback, BitVec.toNat_add, toNat_one_of_lt (by omega)]
  rcases Nat.lt_or_ge ((x - (y + 1)).toNat + 1) (2 ^ w) with hd | hd
  · rw [Nat.mod_eq_of_lt hd] at hsum
    omega
  · have hwrap : (x - (y + 1)).toNat + 1 = 2 ^ w := by omega
    rw [hwrap, Nat.mod_self] at hsum
    omega

theorem sub_eq_zero_iff {w : ℕ} (x y : BitVec w) :
  (x - y).toNat = 0 ↔ x = y
  := by
  rw [← BitVec.toNat_zero, BitVec.toNat_inj]
  apply sub_eq_zero

/-- The pointer that would catch up with the next step is as far ahead as it can be. -/
theorem add_one_eq_iff {w : ℕ} (hw : 1 < 2 ^ w) (x y : BitVec w) :
  x + 1 = y ↔ (x - y).toNat + 1 = 2 ^ w
  := by
  have hlt := (x - y).isLt
  have hcomm : x + 1 - y = (x - y) + 1 := by ring
  rw [← sub_eq_zero_iff, hcomm, BitVec.toNat_add, toNat_one_of_lt hw]
  rcases Nat.lt_or_ge ((x - y).toNat + 1) (2 ^ w) with hroom | hfull
  · rw [Nat.mod_eq_of_lt hroom]
    omega
  · have hwrap : (x - y).toNat + 1 = 2 ^ w := by omega
    rw [hwrap, Nat.mod_self]
    simp

private theorem mod_of_lt_double {c p : ℕ} (h : c < p + p) :
  c % p = if c < p then c else c - p
  := by
  split
  · apply Nat.mod_eq_of_lt (by assumption)
  · rw [Nat.mod_eq_sub_mod (by omega), Nat.mod_eq_of_lt (by omega)]

/-- With one bit more than the slots need, the pointers of a full ring agree on the slot
and differ in the extra bit. -/
theorem ring_full_iff {m : ℕ} (x y : BitVec (m + 1)) :
  (x.setWidth m = y.setWidth m ∧ x.msb ≠ y.msb) ↔ (x - y).toNat = 2 ^ m
  := by
  have hx := x.isLt
  have hy := y.isLt
  have hdouble : 2 ^ (m + 1) = 2 ^ m + 2 ^ m := by rw [pow_succ, mul_two]
  rw [hdouble] at hx hy
  simp only [ne_eq, ← BitVec.toNat_inj, BitVec.toNat_setWidth, BitVec.msb_eq_decide,
    BitVec.toNat_sub, Nat.add_sub_cancel, decide_eq_decide, hdouble]
  generalize x.toNat = a at *
  generalize y.toNat = b at *
  generalize 2 ^ m = p at *
  rw [mod_of_lt_double hx, mod_of_lt_double hy, mod_of_lt_double (c := p + p - b + a) (by omega)]
  split_ifs <;> omega

/-- Slots of a ring less than its length apart are different. -/
theorem slot_ne {m w : ℕ} (hm : m ≤ w) (y : BitVec w) {i j : ℕ} (hi : i < j)
    (hj : j < i + 2 ^ m) :
  (y + BitVec.ofNat w i).setWidth m ≠ (y + BitVec.ofNat w j).setWidth m
  := by
  intro h
  have hmod := congrArg BitVec.toNat h
  simp only [BitVec.toNat_setWidth, BitVec.toNat_add, BitVec.toNat_ofNat, Nat.add_mod_mod] at hmod
  rw [Nat.mod_mod_of_dvd _ (pow_dvd_pow 2 hm), Nat.mod_mod_of_dvd _ (pow_dvd_pow 2 hm)] at hmod
  have hij : i ≡ j [MOD 2 ^ m] := Nat.ModEq.add_left_cancel' _ hmod
  have hle := Nat.le_of_dvd (by omega) ((Nat.modEq_iff_dvd' hi.le).mp hij)
  omega

/-! ### Segments -/

variable {α : Type*}

/-- The `k` slots of the memory `mem` from the pointer `r` on. -/
def segment {m : ℕ} (mem : BitVec m → α) (r : BitVec (m + 1)) (k : ℕ) : List α :=
  (List.range k).map fun j => mem ((r + BitVec.ofNat (m + 1) j).setWidth m)

@[simp]
theorem segment_zero {m : ℕ} (mem : BitVec m → α) (r : BitVec (m + 1)) :
  segment mem r 0 = []
  := rfl

theorem segment_cons {m : ℕ} (mem : BitVec m → α) (r : BitVec (m + 1)) (k : ℕ) :
  segment mem r (k + 1) = mem (r.setWidth m) :: segment mem (r + 1) k
  := by
  have hshift : ∀ j, r + BitVec.ofNat (m + 1) (j + 1) = r + 1 + BitVec.ofNat (m + 1) j := by
    intro j
    rw [BitVec.add_assoc, Nat.add_comm j 1, BitVec.ofNat_add]
    rfl
  rw [segment, List.range_succ_eq_map, List.map_cons, List.map_map]
  congr 1
  · simp
  · apply List.map_congr_left
    intro j _
    simp only [Function.comp, Nat.succ_eq_add_one, hshift]

theorem segment_snoc {m : ℕ} (mem : BitVec m → α) (r : BitVec (m + 1)) (k : ℕ) :
  segment mem r (k + 1)
    = segment mem r k ++ [mem ((r + BitVec.ofNat (m + 1) k).setWidth m)]
  := by simp [segment, List.range_succ]

/-- Writing the slot after a segment that does not fill the ring leaves the segment as it
is. -/
theorem segment_update {m : ℕ} (mem : BitVec m → α) (r : BitVec (m + 1)) {k : ℕ}
    (hk : k < 2 ^ m) (w : α) :
  segment (Function.update mem ((r + BitVec.ofNat (m + 1) k).setWidth m) w) r k
    = segment mem r k
  := by
  apply List.map_congr_left
  intro j hj
  rw [List.mem_range] at hj
  apply Function.update_of_ne
  apply slot_ne (Nat.le_succ m) r hj (by omega)

/-! ### Slots from a pointer without the extra bit -/

/-- The `k` slots of the memory `mem` from the slot `r` on. -/
def slots {m : ℕ} (mem : BitVec m → α) (r : BitVec m) (k : ℕ) : List α :=
  (List.range k).map fun j => mem (r + BitVec.ofNat m j)

@[simp]
theorem slots_zero {m : ℕ} (mem : BitVec m → α) (r : BitVec m) :
  slots mem r 0 = []
  := rfl

@[simp]
theorem length_slots {m : ℕ} (mem : BitVec m → α) (r : BitVec m) (k : ℕ) :
  (slots mem r k).length = k
  := by simp [slots]

theorem slots_cons {m : ℕ} (mem : BitVec m → α) (r : BitVec m) (k : ℕ) :
  slots mem r (k + 1) = mem r :: slots mem (r + 1) k
  := by
  have hshift : ∀ j, r + BitVec.ofNat m (j + 1) = r + 1 + BitVec.ofNat m j := by
    intro j
    rw [BitVec.add_assoc, Nat.add_comm j 1, BitVec.ofNat_add]
    rfl
  rw [slots, List.range_succ_eq_map, List.map_cons, List.map_map]
  congr 1
  · simp
  · apply List.map_congr_left
    intro j _
    simp only [Function.comp, Nat.succ_eq_add_one, hshift]

theorem slots_snoc {m : ℕ} (mem : BitVec m → α) (r : BitVec m) (k : ℕ) :
  slots mem r (k + 1) = slots mem r k ++ [mem (r + BitVec.ofNat m k)]
  := by simp [slots, List.range_succ]

/-- Writing the slot after the first `k` leaves these as they are. -/
theorem slots_update {m : ℕ} (mem : BitVec m → α) (r : BitVec m) {k : ℕ} (hk : k < 2 ^ m)
    (w : α) :
  slots (Function.update mem (r + BitVec.ofNat m k) w) r k = slots mem r k
  := by
  apply List.map_congr_left
  intro j hj
  rw [List.mem_range] at hj
  apply Function.update_of_ne
  have hne := slot_ne (Nat.le_refl m) r hj (by omega)
  rwa [BitVec.setWidth_eq, BitVec.setWidth_eq] at hne

/-! ### The recent past -/

/-- The slots of the memory `mem` behind the pointer `p` hold the values `past`, the most
recent one first, as far back as the ring reaches. The slot at `p` itself may hold
anything. -/
def Recent {m : ℕ} (mem : BitVec m → α) (p : BitVec m) (past : List α) : Prop :=
  ∀ k v, past[k]? = some v → k + 1 < 2 ^ m → mem (p - BitVec.ofNat m (k + 1)) = v

namespace Recent

variable {m : ℕ} {mem : BitVec m → α} {p : BitVec m} {past : List α}

theorem nil (mem : BitVec m → α) (p : BitVec m) :
  Recent mem p []
  := by
  intro k v hk
  simp at hk

theorem behind_ne (p : BitVec m) {k : ℕ} (hk : k + 1 < 2 ^ m) :
  p - BitVec.ofNat m (k + 1) ≠ p
  := by
  intro h
  have hzero : BitVec.ofNat m (k + 1) = 0 := sub_eq_self.mp h
  have := congrArg BitVec.toNat hzero
  simp [Nat.mod_eq_of_lt hk] at this

/-- Writing the slot at the pointer leaves the past as it is. -/
theorem update (h : Recent mem p past) (w : α) :
  Recent (Function.update mem p w) p past
  := by
  intro k v hk hlt
  rw [Function.update_of_ne (behind_ne p hlt)]
  apply h k v hk hlt

/-- Advancing the pointer makes what its slot held the most recent value. -/
theorem push (h : Recent mem p past) (w : α) :
  Recent (Function.update mem p w) (p + 1) (w :: past)
  := by
  intro k v hk hlt
  cases k with
  | zero =>
      have hp : p + 1 - BitVec.ofNat m (0 + 1) = p := add_sub_cancel_right p 1
      rw [hp, Function.update_self]
      simpa using hk
  | succ k =>
      have hp : p + 1 - BitVec.ofNat m (k + 1 + 1) = p - BitVec.ofNat m (k + 1) := by
        rw [BitVec.ofNat_add (k + 1) 1]
        apply add_sub_add_right_eq_sub p (BitVec.ofNat m (k + 1)) 1
      rw [hp]
      apply h.update w k v (by simpa using hk) (by omega)

end Recent

/-- The slots of the memory `mem` behind the pointer `p`, and around to the slot at `p` itself,
hold the end of the values `written`, the last of them right behind `p`. -/
def Filled {m : ℕ} (mem : BitVec m → α) (p : BitVec m) (written : List α) : Prop :=
  ∀ k v, written.reverse[k]? = some v → k < 2 ^ m → mem (p - BitVec.ofNat m (k + 1)) = v

namespace Filled

variable {m : ℕ} {mem : BitVec m → α} {p : BitVec m} {written : List α}

theorem nil (mem : BitVec m → α) (p : BitVec m) :
  Filled mem p []
  := by
  intro k v hk
  simp at hk

/-- The next value goes into the slot at the pointer, which is advanced. -/
theorem snoc (h : Filled mem p written) (w : α) :
  Filled (Function.update mem p w) (p + 1) (written ++ [w])
  := by
  intro k v hk hlt
  rw [List.reverse_append, List.reverse_singleton, List.singleton_append] at hk
  cases k with
  | zero =>
      have hp : p + 1 - BitVec.ofNat m (0 + 1) = p := add_sub_cancel_right p 1
      rw [hp, Function.update_self]
      simpa using hk
  | succ k =>
      have hp : p + 1 - BitVec.ofNat m (k + 1 + 1) = p - BitVec.ofNat m (k + 1) := by
        rw [BitVec.ofNat_add (k + 1) 1]
        apply add_sub_add_right_eq_sub p (BitVec.ofNat m (k + 1)) 1
      rw [hp, Function.update_of_ne (Recent.behind_ne p hlt)]
      apply h k v (by simpa using hk) (Nat.lt_of_succ_lt hlt)

/-- From the pointer on, once around, are the last values that were written. -/
theorem slots_eq (h : Filled mem p written) (hfull : 2 ^ m ≤ written.length) :
  slots mem p (2 ^ m) = written.drop (written.length - 2 ^ m)
  := by
  apply List.ext_getElem?
  intro j
  rcases Nat.lt_or_ge j (2 ^ m) with hj | hj
  · have hback : p + BitVec.ofNat m j = p - BitVec.ofNat m (2 ^ m - 1 - j + 1) := by
      have hsum : BitVec.ofNat m j + BitVec.ofNat m (2 ^ m - 1 - j + 1) = 0 := by
        rw [← BitVec.ofNat_add, show j + (2 ^ m - 1 - j + 1) = 2 ^ m by omega]
        apply BitVec.eq_of_toNat_eq
        rw [BitVec.toNat_ofNat, Nat.mod_self]
        rfl
      rw [eq_neg_of_add_eq_zero_left hsum]
      apply (sub_eq_add_neg _ _).symm
    have hin : written.length - 2 ^ m + j < written.length := by omega
    rw [slots, List.getElem?_map, List.getElem?_range hj, Option.map_some, List.getElem?_drop,
      List.getElem?_eq_getElem hin, hback]
    apply congrArg some
    apply h _ _ _ (by omega)
    rw [List.getElem?_reverse (by omega), ← List.getElem?_eq_getElem hin]
    congr 1
    omega
  · rw [List.getElem?_eq_none (by rw [length_slots]; exact hj),
      List.getElem?_eq_none (by rw [List.length_drop]; omega)]

end Filled

end Clocked
