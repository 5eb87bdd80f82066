import Mathlib.Data.BitVec
import Mathlib.Data.Int.Basic

/-!
# Division of 64 bits

`udiv.c` divides numbers of 64 bits by means of a division of 32 bits and of shifts. A division by
zero and a shift by 64 or more have no result.
-/

namespace ZBasic

namespace Udiv

/-- The loop of `zip_bitrev`. -/
def zipBitrevLoop : ℕ → BitVec 32 → BitVec 32 → BitVec 32
  | 0, r, _ => r
  | n + 1, r, b => zipBitrevLoop n ((r <<< 1) ||| (b &&& 1)) (b >>> 1)

/-- `zip_bitrev` -/
def zipBitrev (a : BitVec 32) : BitVec 32 := zipBitrevLoop 32 0 a

/-- A test of the lowest `k` bits, which are skipped where they are zero. -/
def skip (k : ℕ) (p : ℤ × BitVec 32) : ℤ × BitVec 32 :=
  if p.2 &&& BitVec.ofNat 32 (2 ^ k - 1) = 0 then (p.1 + k, p.2 >>> k) else p

/-- `cltz` -/
def cltz (v : BitVec 64) : ℤ :=
  let hv := (v >>> 32).setWidth 32
  let p := if hv = 0 then (32, (v &&& 0xffffffff).setWidth 32) else (0, hv)
  let p := (p.1, zipBitrev p.2)
  let p := skip 2 (skip 4 (skip 8 (skip 16 p)))
  if p.2 &&& 1 = 0 then p.1 + 1 else p.1

/-- A shift to the left of 64 bits, by an `int`. -/
def shl (a : BitVec 64) (n : ℤ) : Option (BitVec 64) :=
  if 0 ≤ n ∧ n < 64 then some (a <<< n.toNat) else none

/-- A division of 32 bits. -/
def div32 (a b : BitVec 32) : Option (BitVec 32) := if b = 0 then none else some (a / b)

/-- The loop of `__udivdi3`. -/
def udivLoop (a b m r : BitVec 64) : BitVec 64 :=
  if m = 0 then r
  else if b ≤ a then udivLoop (a - b) (b >>> 1) (m >>> 1) (r ||| m)
  else udivLoop a (b >>> 1) (m >>> 1) r
termination_by m.toNat
decreasing_by
  all_goals
    rename_i hm _
    have hpos : m.toNat ≠ 0 := fun h => hm (BitVec.eq_of_toNat_eq h)
    rw [BitVec.toNat_ushiftRight, Nat.shiftRight_eq_div_pow]
    omega

/-- What `__udivdi3` does in general with a dividend that is shifted by `la` already. -/
def general (a b : BitVec 64) (la lb : ℤ) : Option (BitVec 64) := do
  let b ← shl b lb
  let m ← shl 1 (lb - la)
  return udivLoop a b m 0

/-- `lb - la < 32 && ((b << la) & 0x0ffffffff) == 0` -/
def lowZero (b : BitVec 64) (la lb : ℤ) : Option Bool :=
  if lb - la < 32 then (shl b la).map fun x => x &&& 0xffffffff = 0 else some false

/-- `__udivdi3` -/
def udivdi3 (a b : BitVec 64) : Option (BitVec 64) :=
  if a < b then some 0
  else if b >>> 32 = 0 ∧ a >>> 32 = 0 then do
    let ir ← div32 (a.setWidth 32) (b.setWidth 32)
    return ir.setWidth 64
  else do
    let la := cltz a
    let lb := cltz b
    let a ← shl a la
    if ← lowZero b la lb then
      let b ← shl b la
      let ir ← div32 ((a >>> 32).setWidth 32) ((b >>> 32).setWidth 32)
      return ir.setWidth 64
    else general a b la lb

/-- `__divdi3`, in two's complement. -/
def divdi3 (a b : BitVec 64) : Option (BitVec 64) := do
  let s := a.slt 0
  let a := if a.slt 0 then -a else a
  let s := s ^^ b.slt 0
  let b := if b.slt 0 then -b else b
  let r ← udivdi3 a b
  return if s then -r else r

end Udiv

end ZBasic
