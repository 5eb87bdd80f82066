import ZBasic.Clocked.Crc

/-!
# Blocks of the SD card

What the receiver and the transmitter of a block share: its checksum, its words and its place in
memory.
-/

namespace ZBasic

open Clocked

namespace SdBlock

/-- `CRC_POLYNOMIAL`, the polynomial `x^16 + x^12 + x^5 + 1` -/
def crcPolynomial : BitVec 16 := 0x1021

/-- The checksum of a block. -/
def crc16 (bs : List (BitVec 8)) : BitVec 16 := crcOfBytes crcPolynomial bs

/-- The words that are taken for a block of `2 ^ k` bytes. Of a block of eight bytes it is the
first word only, for `lastaddr` is set from the start. -/
def words (k : ℕ) : ℕ := if k = 3 then 1 else 2 ^ (k - 2)

/-- The first address of the half of the memory that is selected. -/
def base (f : Bool) : BitVec 8 := BitVec.ofBool f ++ 0#7

theorem words_pos (k : ℕ) :
  0 < words k
  := by
  rw [words]
  split_ifs
  · apply Nat.one_pos
  · apply Nat.two_pow_pos

/-- A block of more than eight bytes is taken as a whole. -/
theorem words_of_ne {k : ℕ} (hk : 3 ≤ k) (hne : k ≠ 3) :
  4 * words k = 2 ^ k
  := by rw [words, if_neg hne, ← Nat.pow_add 2 2 (k - 2), Nat.add_sub_cancel' (Nat.le_of_lt hk)]

/-- A word is made of its bytes. -/
theorem eq_bytes (x : BitVec 32) :
  x = x.extractLsb' (8 * 3) 8 ++ x.extractLsb' (8 * 2) 8 ++ x.extractLsb' (8 * 1) 8
    ++ x.extractLsb' (8 * 0) 8
  := by
  ext i hi
  simp only [← BitVec.getLsbD_eq_getElem, BitVec.getLsbD_append, BitVec.getLsbD_extractLsb']
  grind

theorem eq_append_iff {x : BitVec 16} {a b : BitVec 8} :
  x = a ++ b ↔ x.extractLsb' 8 8 = a ∧ x.extractLsb' 0 8 = b
  := by
  constructor
  · rintro rfl
    rw [extract_append_high _ _ (by decide), extract_append_low _ _ (by decide)]
    exact ⟨extract_all a, extract_all b⟩
  · rintro ⟨rfl, rfl⟩
    apply (extract_append_extract (m := 8) (n := 8) x).symm

end SdBlock

end ZBasic
