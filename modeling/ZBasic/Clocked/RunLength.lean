import Mathlib.Data.List.Basic
import Mathlib.Data.List.Flatten

/-!
# Run-length records

A record of a sequence is a list of words. A word is a value, or a count that stands for more of
the value before it; how many it stands for is a function of the count, which is a parameter. A
recorder that sees one item after the other replaces a count at the end of its record by the next
one. It can do so with two words in hand, without touching a word that it has written.
-/

namespace Clocked

/-- A word of a record. -/
inductive Word (α : Type*) where
  | value (a : α)
  | count (k : ℕ)
deriving DecidableEq

namespace Word

variable {α β : Type*}

/-- The word is a count. -/
def isCount : Word α → Bool
  | value _ => false
  | count _ => true

@[simp]
theorem isCount_value (a : α) :
  (value a).isCount = false
  := rfl

@[simp]
theorem isCount_count (k : ℕ) :
  (count k : Word α).isCount = true
  := rfl

theorem eq_value_of_isCount {w : Word α} (h : w.isCount = false) :
  ∃ a, w = value a
  := by
  cases w with
  | value a => use a
  | count k => cases h

/-! ### What a record stands for -/

section Decode

variable (f : ℕ → ℕ)

/-- What words stand for after the value `a`. -/
def decodeAfter (a : α) : List (Word α) → List α
  | [] => []
  | value b :: ws => b :: decodeAfter b ws
  | count k :: ws => List.replicate (f k) a ++ decodeAfter a ws

/-- What words stand for from the first value on. -/
def decode : List (Word α) → List α
  | [] => []
  | value b :: ws => b :: decodeAfter f b ws
  | count _ :: ws => decode ws

/-- A count of `k` for `k + 1` more, with the first count lost. -/
example : decode (· + 1) [count 2, value 'a', count 1, value 'b'] = ['a', 'a', 'a', 'b'] := rfl

/-- The last value of words after the value `a`. -/
def lastAfter (a : α) : List (Word α) → α
  | [] => a
  | value b :: ws => lastAfter b ws
  | count _ :: ws => lastAfter a ws

variable {f}

theorem decodeAfter_append (a : α) (us vs : List (Word α)) :
  decodeAfter f a (us ++ vs) = decodeAfter f a us ++ decodeAfter f (lastAfter a us) vs
  := by
  induction us generalizing a with
  | nil => rfl
  | cons w us ih =>
      cases w with
      | value b => simp only [List.cons_append, decodeAfter, lastAfter, ih]
      | count k => simp only [List.cons_append, decodeAfter, lastAfter, ih, List.append_assoc]

/-- What words stand for ends with their last value. -/
theorem getLast?_decodeAfter (a : α) (ws : List (Word α)) :
  (a :: decodeAfter f a ws).getLast? = some (lastAfter a ws)
  := by
  induction ws generalizing a with
  | nil => rfl
  | cons w ws ih =>
      cases w with
      | value b => rw [decodeAfter, lastAfter, List.getLast?_cons_cons, ih]
      | count k =>
          have hrun : a :: (List.replicate (f k) a ++ decodeAfter f a ws)
              = List.replicate (f k) a ++ a :: decodeAfter f a ws := by
            rw [← List.cons_append, ← List.replicate_succ, List.replicate_succ', List.append_assoc,
              List.singleton_append]
          rw [decodeAfter, lastAfter, hrun, List.getLast?_append, ih, Option.some_or]

/-- A value adds itself. -/
theorem decode_snoc_value (ws : List (Word α)) (a : α) :
  decode f (ws ++ [value a]) = decode f ws ++ [a]
  := by
  induction ws with
  | nil => rfl
  | cons w ws ih =>
      cases w with
      | value b => rw [List.cons_append, decode, decode, decodeAfter_append, decodeAfter,
          decodeAfter, List.cons_append]
      | count k => rw [List.cons_append, decode, decode, ih]

/-- A count adds the last item, as often as it stands for. -/
theorem decode_snoc_count {ws : List (Word α)} {a : α} (h : (decode f ws).getLast? = some a)
    (k : ℕ) :
  decode f (ws ++ [count k]) = decode f ws ++ List.replicate (f k) a
  := by
  induction ws with
  | nil => cases h
  | cons w ws ih =>
      cases w with
      | value b =>
          rw [decode, getLast?_decodeAfter, Option.some.injEq] at h
          rw [List.cons_append, decode, decode, decodeAfter_append, h, decodeAfter, decodeAfter,
            List.append_nil, List.cons_append]
      | count k => rw [List.cons_append, decode, decode, ih h]

theorem getLast?_append_replicate {l : List α} {a : α} (h : l.getLast? = some a) (n : ℕ) :
  (l ++ List.replicate n a).getLast? = some a
  := by
  rw [List.getLast?_append, List.getLast?_replicate]
  split_ifs
  · rw [Option.none_or, h]
  · rfl

/-- A count leaves the last item as it is. -/
theorem getLast?_decode_snoc_count (ws : List (Word α)) (k : ℕ) :
  (decode f (ws ++ [count k])).getLast? = (decode f ws).getLast?
  := by
  induction ws with
  | nil => rfl
  | cons w ws ih =>
      cases w with
      | value b =>
          have hlast : (decode f (value b :: ws)).getLast? = some (lastAfter b ws) :=
            getLast?_decodeAfter b ws
          rw [decode_snoc_count hlast, getLast?_append_replicate hlast, hlast]
      | count j => apply ih

theorem decode_suffix_decodeAfter (a : α) (ws : List (Word α)) :
  decode f ws <:+ decodeAfter f a ws
  := by
  induction ws with
  | nil => apply List.suffix_refl
  | cons w ws ih =>
      cases w with
      | value b => apply List.suffix_refl
      | count k => apply ih.trans (List.suffix_append _ _)

/-- The end of a record stands for an end of what the record stands for. -/
theorem decode_suffix (us vs : List (Word α)) :
  decode f vs <:+ decode f (us ++ vs)
  := by
  induction us with
  | nil => apply List.suffix_refl
  | cons w us ih =>
      cases w with
      | value b =>
          rw [List.cons_append, decode, decodeAfter_append]
          apply (decode_suffix_decodeAfter _ vs).trans
          apply List.suffix_append (b :: decodeAfter f b us)
      | count k => apply ih

end Decode

/-! ### Recorders -/

/-- The record with another word, a count taking the place of one before it. -/
def add (ws : List (Word α)) (w : Word α) : List (Word α) :=
  if w.isCount && ws.getLast?.any isCount then ws.dropLast ++ [w] else ws ++ [w]

/-- The count for one more of the same item. -/
def next (ws : List (Word α)) : ℕ :=
  match ws.getLast? with
  | some (count k) => k + 1
  | _ => 0

theorem add_value (ws : List (Word α)) (a : α) :
  add ws (value a) = ws ++ [value a]
  := rfl

theorem length_add_value (ws : List (Word α)) (a : α) :
  (add ws (value a)).length = ws.length + 1
  := by rw [add_value, List.length_append, List.length_singleton]

theorem add_count_value (ws : List (Word α)) (a : α) (k : ℕ) :
  add (ws ++ [value a]) (count k) = ws ++ [value a] ++ [count k]
  := by rw [add, List.getLast?_concat, Option.any_some, isCount_value, Bool.and_false,
    if_neg Bool.false_ne_true]

theorem add_count_count (ws : List (Word α)) (j k : ℕ) :
  add (ws ++ [count j]) (count k) = ws ++ [count k]
  := by rw [add, List.getLast?_concat, Option.any_some, isCount_count, isCount_count,
    Bool.and_self, if_pos rfl, List.dropLast_concat]

/-- What comes before a value stays. -/
theorem add_append_value (us vs : List (Word α)) (a : α) (w : Word α) :
  add (us ++ value a :: vs) w = us ++ value a :: add vs w
  := by
  rcases List.eq_nil_or_concat' vs with rfl | ⟨vs, x, rfl⟩
  · have hnil : add [] w = [w] := by simp [add]
    rw [hnil, add, List.getLast?_concat, Option.any_some, isCount_value, Bool.and_false,
      if_neg Bool.false_ne_true, List.append_assoc]
    rfl
  · rw [← List.cons_append, ← List.append_assoc, add, add, List.getLast?_concat,
      List.getLast?_concat, List.dropLast_concat, List.dropLast_concat]
    split_ifs
    · simp
    · simp

theorem next_add_value (ws : List (Word α)) (a : α) :
  next (add ws (value a)) = 0
  := by rw [add_value, next, List.getLast?_concat]

theorem next_add_count (ws : List (Word α)) (k : ℕ) :
  next (add ws (count k)) = k + 1
  := by
  rw [add]
  split_ifs
  · rw [next, List.getLast?_concat]
  · rw [next, List.getLast?_concat]

theorem length_le_add (ws : List (Word α)) (w : Word α) :
  ws.length ≤ (add ws w).length
  := by
  rw [add]
  split_ifs
  · rw [List.length_append, List.length_dropLast, List.length_singleton]
    omega
  · rw [List.length_append]
    apply Nat.le_add_right

/-- One more item, as a count where it is the same as the last one. When the first count stands for
one item, and each further one for one more, nothing is missing or added. -/
theorem decode_add_count {f : ℕ → ℕ} (hfirst : f 0 = 1) (hnext : ∀ k, f (k + 1) = f k + 1)
    {ws : List (Word α)} {a : α} (h : (decode f ws).getLast? = some a) :
  decode f (add ws (count (next ws))) = decode f ws ++ [a]
  := by
  rcases List.eq_nil_or_concat' ws with rfl | ⟨us, w, rfl⟩
  · cases h
  · cases w with
    | value b =>
        rw [next, List.getLast?_concat, add_count_value, decode_snoc_count h, hfirst]
        rfl
    | count k =>
        rw [getLast?_decode_snoc_count] at h
        rw [next, List.getLast?_concat, add_count_count, decode_snoc_count h, decode_snoc_count h,
          hnext, List.replicate_succ', List.append_assoc]

/-- What a recorder with the words `old` and `new` in hand has still to write. -/
def inHand (old new : Word α) : List (Word α) :=
  if old.isCount && new.isCount then [new] else [old, new]

/-- What it writes before it takes the next word. -/
def written (old new : Word α) : List (Word α) :=
  if old.isCount && new.isCount then [] else [old]

theorem length_inHand (old new : Word α) :
  (inHand old new).length = (written old new).length + 1
  := by
  rw [inHand, written]
  split_ifs
  · rfl
  · rfl

/-- A recorder with two words in hand adds the next word to its record. -/
theorem written_inHand (ws : List (Word α)) (old new w : Word α) :
  ws ++ written old new ++ inHand new w = add (ws ++ inHand old new) w
  := by
  rw [written, inHand, inHand]
  cases hboth : old.isCount && new.isCount with
  | true =>
      rw [if_pos rfl, if_pos rfl, List.append_nil, add, List.getLast?_concat, Option.any_some]
      have hnew : new.isCount = true := (Bool.and_eq_true _ _ ▸ hboth).2
      rw [hnew, Bool.true_and, Bool.and_true, List.dropLast_concat]
      split_ifs
      · rfl
      · rw [List.append_assoc]
        rfl
  | false =>
      rw [if_neg Bool.false_ne_true, if_neg Bool.false_ne_true, List.append_cons ws old [new], add,
        List.getLast?_concat, List.dropLast_concat, Option.any_some, Bool.and_comm w.isCount]
      split_ifs
      · rfl
      · simp

end Word

end Clocked
