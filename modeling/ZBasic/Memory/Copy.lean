import Mathlib.Logic.Function.Basic
import Mathlib.Order.Basic

/-!
# Copying words from place to place

A copy is given by where its words come from and where they go to: `src j` and `dst j`
are the places of word `j`. It proceeds in blocks, each of which is read before any of it
is written, so the places may overlap.
-/

namespace Memory

variable {A V : Type*} [DecidableEq A]

/-- The memory after the first `k` of the words `word` were written, one after the other,
to the places `place`. -/
def writes (mem : A → V) (place : ℕ → A) (word : ℕ → V) : ℕ → A → V
  | 0 => mem
  | k + 1 => Function.update (writes mem place word k) (place k) (word k)

/-- The memory after a block of `n` words was read, and then written. -/
def copyBlock (mem : A → V) (src dst : ℕ → A) (n : ℕ) : A → V :=
  writes mem dst (fun j => mem (src j)) n

/-- The memory after `len` words, from word `o` on, were copied in blocks of `b + 1`
words. -/
def copy (b : ℕ) (src dst : ℕ → A) (mem : A → V) (o len : ℕ) : A → V :=
  if len = 0 then mem
  else
    copy b src dst
      (copyBlock mem (fun j => src (o + j)) (fun j => dst (o + j)) (min (b + 1) len))
      (o + min (b + 1) len) (len - min (b + 1) len)
termination_by len

@[simp]
theorem copy_zero (b : ℕ) (src dst : ℕ → A) (mem : A → V) (o : ℕ) :
  copy b src dst mem o 0 = mem
  := by rw [copy, if_pos rfl]

/-- A copy starts with its first block. -/
theorem copy_pos (b : ℕ) (src dst : ℕ → A) (mem : A → V) (o : ℕ) {len : ℕ} (h : 0 < len) :
  copy b src dst mem o len
    = copy b src dst
      (copyBlock mem (fun j => src (o + j)) (fun j => dst (o + j)) (min (b + 1) len))
      (o + min (b + 1) len) (len - min (b + 1) len)
  := by rw [copy, if_neg (by omega)]

end Memory
