import ZBasic.Clocked.Bits

/-!
# NOR flash

A flash is a memory of bytes. Erasing a sector sets all of its bits. Programming can only clear
bits, and stays in a page.
-/

namespace Nor

open Clocked

/-- The content of a flash. -/
abbrev Content := ℕ → BitVec 8

/-- The sector of `a` is erased, in a flash with sectors of `sz` bytes. -/
def erase (sz : ℕ) (flash : Content) (a : ℕ) : Content :=
  fun x => if x / sz = a / sz then BitVec.allOnes 8 else flash x

/-- The `len` bytes `data` are programmed from `a` on, in a flash with pages of `pg` bytes. -/
def program (pg : ℕ) (flash : Content) (a len : ℕ) (data : ℕ → BitVec 8) : Content :=
  fun x =>
    if x / pg = a / pg ∧ a ≤ x ∧ x < a + len then flash x &&& data (x - a) else flash x

theorem erase_of_mem {sz a x : ℕ} (flash : Content) (hx : x / sz = a / sz) :
  erase sz flash a x = BitVec.allOnes 8
  := if_pos hx

theorem erase_of_ne {sz a x : ℕ} (flash : Content) (hx : x / sz ≠ a / sz) :
  erase sz flash a x = flash x
  := if_neg hx

/-- Programming leaves alone what is not in its range. -/
theorem program_of_out {pg a len x : ℕ} (flash : Content) (data : ℕ → BitVec 8)
    (hx : x < a ∨ a + len ≤ x) :
  program pg flash a len data x = flash x
  := by
  rw [program, if_neg]
  omega

/-- Where no bit needs to be set, the data can be programmed. -/
theorem program_of_mem {pg a len x : ℕ} {flash : Content} {data : ℕ → BitVec 8}
    (hpage : a / pg = (a + len - 1) / pg) (hx : a ≤ x) (hx' : x < a + len)
    (hclear : flash x &&& data (x - a) = data (x - a)) :
  program pg flash a len data x = data (x - a)
  := by
  have hsame : x / pg = a / pg := by
    have hle : a / pg ≤ x / pg := Nat.div_le_div_right hx
    have hge : x / pg ≤ (a + len - 1) / pg := Nat.div_le_div_right (by omega)
    omega
  rw [program, if_pos ⟨hsame, hx, hx'⟩, hclear]

/-! ### Words -/

/-- The word of four bytes, the first of them on top. -/
def word (m : ℕ → BitVec 8) (a : ℕ) : BitVec 32 := m a ++ m (a + 1) ++ m (a + 2) ++ m (a + 3)

theorem extract_word (m : ℕ → BitVec 8) (a : ℕ) {i : ℕ} (hi : i < 4) :
  (word m a).extractLsb' (8 * (3 - i)) 8 = m (a + i)
  := by
  obtain rfl | rfl | rfl | rfl : i = 0 ∨ i = 1 ∨ i = 2 ∨ i = 3 := by omega
  · rw [word, extract_append_high _ _ (by omega), extract_append_high _ _ (by omega),
      extract_append_high _ _ (by omega)]
    apply extract_all
  · rw [word, extract_append_high _ _ (by omega), extract_append_high _ _ (by omega),
      extract_append_low _ _ (by omega)]
    apply extract_all
  · rw [word, extract_append_high _ _ (by omega), extract_append_low _ _ (by omega)]
    apply extract_all
  · rw [word, extract_append_low _ _ (by omega)]
    apply extract_all

/-- Words are equal when their bytes are. -/
theorem word_inj {m m' : ℕ → BitVec 8} {a a' : ℕ} :
  word m a = word m' a' ↔ ∀ i < 4, m (a + i) = m' (a' + i)
  := by
  constructor
  · intro h i hi
    rw [← extract_word m a hi, h, extract_word m' a' hi]
  · intro h
    rw [word, word, h 1 (by omega), h 2 (by omega), h 3 (by omega)]
    rw [show m a = m' a' from h 0 (by omega)]

end Nor
