import Mathlib.Data.BitVec
import Mathlib.Data.List.Basic
import Mathlib.Data.List.GetD
import Mathlib.Data.Nat.Basic

/-!
# Blocks of memory

A block of memory has a size, and bytes at the offsets below it. Bytes are stored in it and loaded
from it in sequences; what lies beyond its end can be neither stored nor loaded. Numbers are kept in
it with the lowest byte first.
-/

namespace Memory

/-- A block of memory. -/
structure Block where
  size : ℕ
  bytes : ℕ → BitVec 8

namespace Block

/-- The `n` bytes from offset `o` on. -/
def load (b : Block) (o n : ℕ) : Option (List (BitVec 8)) :=
  if o + n ≤ b.size then some ((List.range n).map fun i => b.bytes (o + i)) else none

/-- The block with the bytes `bs` from offset `o` on. -/
def store (b : Block) (o : ℕ) (bs : List (BitVec 8)) : Option Block :=
  if o + bs.length ≤ b.size then
    some { b with
      bytes := fun a => if o ≤ a ∧ a < o + bs.length then bs.getD (a - o) 0 else b.bytes a }
  else none

variable {b b' : Block} {o n p : ℕ} {bs : List (BitVec 8)}

/-- What fits can be stored. -/
theorem exists_store (h : o + bs.length ≤ b.size) :
  ∃ b', b.store o bs = some b'
  := ⟨_, if_pos h⟩

theorem size_store (h : b.store o bs = some b') :
  b'.size = b.size
  := by
  rw [store] at h
  split_ifs at h with hfits
  cases h
  rfl

/-- What was stored is loaded again. -/
theorem load_store_same (h : b.store o bs = some b') :
  b'.load o bs.length = some bs
  := by
  rw [store] at h
  split_ifs at h with hfits
  cases h
  rw [load, if_pos hfits]
  apply congrArg some
  apply List.ext_getElem
  · simp
  · intro i hi hi'
    rw [List.getElem_map, List.getElem_range]
    dsimp only
    rw [if_pos ⟨Nat.le_add_right o i, by omega⟩, Nat.add_sub_cancel_left,
      List.getD_eq_getElem _ _ hi']

/-- What is stored elsewhere leaves the rest as it is. -/
theorem load_store_apart (h : b.store o bs = some b')
    (hapart : p + n ≤ o ∨ o + bs.length ≤ p) :
  b'.load p n = b.load p n
  := by
  rw [store] at h
  split_ifs at h with hfits
  cases h
  rw [load, load]
  split_ifs with hin
  · apply congrArg some
    apply List.map_congr_left
    intro i hi
    rw [List.mem_range] at hi
    apply if_neg
    omega
  · rfl

end Block

/-! ### Numbers -/

/-- The lowest `k` bytes of a number, the lowest one first. -/
def bytesOf : ℕ → ℕ → List (BitVec 8)
  | 0, _ => []
  | k + 1, v => BitVec.ofNat 8 v :: bytesOf k (v / 256)

/-- The number that is made of some bytes. -/
def ofBytes : List (BitVec 8) → ℕ
  | [] => 0
  | b :: bs => b.toNat + 256 * ofBytes bs

@[simp]
theorem length_bytesOf (k v : ℕ) :
  (bytesOf k v).length = k
  := by
  induction k generalizing v with
  | zero => rfl
  | succ k ih => rw [bytesOf, List.length_cons, ih]

theorem ofBytes_bytesOf {k v : ℕ} (h : v < 256 ^ k) :
  ofBytes (bytesOf k v) = v
  := by
  induction k generalizing v with
  | zero =>
      rw [Nat.pow_zero] at h
      rw [bytesOf, ofBytes]
      omega
  | succ k ih =>
      rw [Nat.pow_succ] at h
      rw [bytesOf, ofBytes, ih (by omega), BitVec.toNat_ofNat]
      omega

namespace Block

/-- The number of `k` bytes at offset `o`. -/
def loadNat (b : Block) (o k : ℕ) : Option ℕ := (b.load o k).map ofBytes

variable {b b' : Block} {o n p k v : ℕ} {bs : List (BitVec 8)}

theorem loadNat_store_same (h : b.store o (bytesOf k v) = some b') (hv : v < 256 ^ k) :
  b'.loadNat o k = some v
  := by
  have hload := load_store_same h
  rw [length_bytesOf] at hload
  rw [loadNat, hload, Option.map_some, ofBytes_bytesOf hv]

theorem loadNat_store_apart (h : b.store o bs = some b')
    (hapart : p + k ≤ o ∨ o + bs.length ≤ p) :
  b'.loadNat p k = b.loadNat p k
  := by rw [loadNat, loadNat, load_store_apart h hapart]

end Block

end Memory
