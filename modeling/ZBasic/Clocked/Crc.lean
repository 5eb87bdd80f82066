import ZBasic.Clocked.Bits
import Mathlib.Data.List.Basic

/-!
# Checksums

The checksum of a string of bits is the remainder that a shift register is left with which takes
the bits in one after the other. The register divides by a polynomial, whose coefficients below
the highest one are the bits of `poly`.
-/

namespace Clocked

variable {w n : ℕ}

/-- The bits of a vector, the highest one first. -/
def bitsOf (x : BitVec n) : List Bool := (List.range n).map x.getMsbD

@[simp]
theorem length_bitsOf (x : BitVec n) :
  (bitsOf x).length = n
  := by simp [bitsOf]

theorem getElem_bitsOf (x : BitVec n) {k : ℕ} (hk : k < (bitsOf x).length) :
  (bitsOf x)[k] = x.getMsbD k
  := by simp [bitsOf]

/-- The bits up to the end of a field are those before it, followed by the bits of the field. -/
theorem take_bitsOf_add (x : BitVec n) {a b m : ℕ} (h : a + m + b = n) :
  (bitsOf x).take (a + m) = (bitsOf x).take a ++ bitsOf (x.extractLsb' b m)
  := by
  rw [List.take_add, List.append_cancel_left_eq]
  apply List.ext_getElem
  · simp
    omega
  · intro k hk _
    have hkm : k < m := by
      rw [List.length_take] at hk
      omega
    rw [List.getElem_take, List.getElem_drop, getElem_bitsOf, getElem_bitsOf, BitVec.getMsbD,
      BitVec.getMsbD, BitVec.getLsbD_extractLsb']
    simp only [show a + k < n by omega, hkm, decide_true, Bool.true_and,
      show m - 1 - k < m by omega, show b + (m - 1 - k) = n - 1 - (a + k) by omega]

theorem take_bitsOf_succ (x : BitVec n) {k : ℕ} (hk : k < n) :
  (bitsOf x).take (k + 1) = (bitsOf x).take k ++ [x.getMsbD k]
  := by
  rw [List.take_add_one, List.getElem?_eq_getElem (by simpa using hk), getElem_bitsOf]
  rfl

theorem take_bitsOf (x : BitVec n) :
  (bitsOf x).take n = bitsOf x
  := by
  apply List.take_of_length_le
  rw [length_bitsOf]

/-- A bit comes into the register. -/
def crcBit (poly c : BitVec w) (x : Bool) : BitVec w :=
  if c.msb ^^ x then (c <<< 1) ^^^ poly else c <<< 1

/-- The checksum of a string of bits. -/
def crcOf (poly : BitVec w) (xs : List Bool) : BitVec w := xs.foldl (crcBit poly) 0

/-- The checksum of a string of bytes, each with its highest bit first. -/
def crcOfBytes (poly : BitVec w) (bs : List (BitVec 8)) : BitVec w := crcOf poly (bs.flatMap bitsOf)

theorem crcOf_append (poly : BitVec w) (xs ys : List Bool) :
  crcOf poly (xs ++ ys) = ys.foldl (crcBit poly) (crcOf poly xs)
  := List.foldl_append

/-- The bits come in two at a time. -/
theorem crcOf_take_two (poly : BitVec w) (x : BitVec n) (xs : List Bool) {k : ℕ} (hk : k + 1 < n) :
  crcOf poly (xs ++ (bitsOf x).take (k + 2))
    = crcBit poly (crcBit poly (crcOf poly (xs ++ (bitsOf x).take k)) (x.getMsbD k))
      (x.getMsbD (k + 1))
  := by
  rw [take_bitsOf_succ x hk, take_bitsOf_succ x (by omega), ← List.append_assoc,
    ← List.append_assoc, crcOf_append, crcOf_append]
  rfl

end Clocked
