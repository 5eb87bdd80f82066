import Mathlib.Algebra.Order.Sub.Basic
import Mathlib.Data.BitVec
import Mathlib.Data.List.TakeWhile
import Mathlib.Logic.Function.Iterate
import Mathlib.Tactic.Linarith

/-!
# Reading code characters

`lclreadcode` reads what the device has sent into a buffer and keeps, in place, the
characters that are part of a code. It moves the wrong way: a character that is kept is
overwritten by an earlier one, unless all the characters before it are kept as well.
-/

namespace ZBasic

/-- `chardec` -/
def chardec (b : BitVec 8) : BitVec 32 :=
  if 0x30#8 ≤ b ∧ b ≤ 0x39#8 then (b - 0x30#8).setWidth 32
  else if 0x41#8 ≤ b ∧ b ≤ 0x5a#8 then (b - 0x41#8 + 10#8).setWidth 32
  else if 0x61#8 ≤ b ∧ b ≤ 0x7a#8 then (b - 0x61#8 + 36#8).setWidth 32
  else if b = 0x40#8 then 0x3e
  else if b = 0x25#8 then 0x3f
  else 0x100

/-- The character is part of a code: `chardec(b)&(~0x3f)` is zero. -/
def isCode (b : BitVec 8) : Bool := chardec b &&& ~~~0x3f#32 == 0#32

/-! ### The buffer -/

/-- The bytes of a buffer. -/
abbrev Buffer := ℕ → BitVec 8

namespace Buffer

/-- The bytes `bs` are stored from `p` on. -/
def store (buf : Buffer) (p : ℕ) (bs : List (BitVec 8)) : Buffer :=
  fun a => if p ≤ a ∧ a < p + bs.length then bs.getD (a - p) 0 else buf a

/-- The `n` bytes from `p` on. -/
def window (buf : Buffer) (p n : ℕ) : List (BitVec 8) := (List.range n).map fun j => buf (p + j)

variable {buf : Buffer} {p n : ℕ} {bs : List (BitVec 8)}

@[simp]
theorem length_window (buf : Buffer) (p n : ℕ) :
  (buf.window p n).length = n
  := by simp [window]

theorem getElem_window {j : ℕ} (hj : j < (buf.window p n).length) :
  (buf.window p n)[j] = buf (p + j)
  := by simp [window]

theorem mem_window {b : BitVec 8} :
  b ∈ buf.window p n ↔ ∃ j < n, buf (p + j) = b
  := by simp [window]

theorem window_add (buf : Buffer) (p m n : ℕ) :
  buf.window p (m + n) = buf.window p m ++ buf.window (p + m) n
  := by simp [window, List.range_add, Function.comp_def, Nat.add_assoc]

theorem window_congr {buf' : Buffer} (h : ∀ j < n, buf (p + j) = buf' (p + j)) :
  buf.window p n = buf'.window p n
  := by
  apply List.map_congr_left
  intro j hj
  apply h j (List.mem_range.mp hj)

theorem store_of_lt {j : ℕ} (hj : j < bs.length) :
  buf.store p bs (p + j) = bs[j]
  := by simp [store, hj]

theorem store_of_outside {a : ℕ} (ha : a < p ∨ p + bs.length ≤ a) :
  buf.store p bs a = buf a
  := by
  rw [store, if_neg]
  omega

end Buffer

/-! ### The loop of `lclreadcode` -/

/-- The buffer, the pointers `sp` and `dp`, and `ret`. -/
structure Scan where
  buf : Buffer
  sp : ℕ
  dp : ℕ
  ret : ℕ

/-- The body of the loop. -/
def Scan.next (s : Scan) : Scan :=
  if isCode (s.buf s.sp) then
    { s with
      buf := Function.update s.buf s.sp (s.buf s.dp)
      sp := s.sp + 1
      dp := s.dp + 1 }
  else { s with sp := s.sp + 1, ret := s.ret - 1 }

/-- The loop, after the bytes `bs` have been read to `p`. -/
def scan (buf : Buffer) (p : ℕ) (bs : List (BitVec 8)) (k : ℕ) : Scan :=
  Scan.next^[k] ⟨buf.store p bs, p, p, bs.length⟩

/-- `lclreadcode`, when the device returns the bytes `bs`: the buffer, from `p` on, and the
value returned. -/
def lclreadcode (buf : Buffer) (p : ℕ) (bs : List (BitVec 8)) : Buffer × ℕ :=
  ((scan buf p bs bs.length).buf, (scan buf p bs bs.length).ret)

/-- All code characters come before all others. -/
def CodesFirst (bs : List (BitVec 8)) : Prop := ∀ b ∈ bs.dropWhile isCode, isCode b = false

instance : DecidablePred CodesFirst := by
  unfold CodesFirst
  infer_instance

variable {buf : Buffer} {p : ℕ} {bs : List (BitVec 8)}

theorem scan_succ (buf : Buffer) (p : ℕ) (bs : List (BitVec 8)) (k : ℕ) :
  scan buf p bs (k + 1) = (scan buf p bs k).next
  := Function.iterate_succ_apply' _ _ _

/-- What the loop has done after `k` characters. -/
structure Scanned (buf : Buffer) (p : ℕ) (bs : List (BitVec 8)) (k : ℕ) (s : Scan) : Prop where
  sp : s.sp = p + k
  dp : s.dp = p + (bs.take k).countP isCode
  ret : s.ret + k = bs.length + (bs.take k).countP isCode
  frame : ∀ a, a < p ∨ p + k ≤ a → s.buf a = buf.store p bs a
  /-- A character stays where it is if it is not a code character, or if all those before
  it are. -/
  kept : ∀ j (hj : j < bs.length), j < k →
    isCode bs[j] = false ∨ (∀ b ∈ bs.take j, isCode b = true) → s.buf (p + j) = bs[j]

theorem scanned_scan (buf : Buffer) (p : ℕ) (bs : List (BitVec 8)) {k : ℕ} (hk : k ≤ bs.length) :
  Scanned buf p bs k (scan buf p bs k)
  := by
  induction k with
  | zero =>
      constructor
      · rfl
      · rfl
      · rfl
      · intro a _
        rfl
      · intro j _ hj
        cases hj
  | succ k ih =>
      obtain ⟨hsp, hdp, hret, hframe, hkept⟩ := ih (Nat.le_of_lt hk)
      have hnext : (bs.take (k + 1)).countP isCode
          = (bs.take k).countP isCode + if isCode bs[k] then 1 else 0 := by
        rw [← List.take_append_getElem hk, List.countP_append, List.countP_singleton]
      have hread : (scan buf p bs k).buf (scan buf p bs k).sp = bs[k] := by
        rw [hsp, hframe _ (Or.inr (Nat.le_refl _)), Buffer.store_of_lt hk]
      have hcount : (bs.take k).countP isCode ≤ k := by
        have := List.countP_le_length (p := isCode) (l := bs.take k)
        rw [List.length_take] at this
        omega
      rw [scan_succ, Scan.next, hread]
      cases hcode : isCode bs[k] with
      | true =>
          rw [if_pos rfl]
          constructor
          · simp [hsp, Nat.add_assoc]
          · simp [hnext, hcode, hdp, Nat.add_assoc]
          · simp only [hnext, hcode, if_pos]
            omega
          · intro a ha
            have hne : a ≠ p + k := by omega
            simp only [hsp, Function.update_of_ne hne]
            apply hframe a (by omega)
          · intro j hj hjk hor
            rcases Nat.lt_succ_iff_lt_or_eq.mp hjk with hlt | rfl
            · have hne : p + j ≠ p + k := by omega
              simp only [hsp, Function.update_of_ne hne]
              apply hkept j hj hlt hor
            · -- all before it were kept, so that the two pointers are equal
              have hall : ∀ b ∈ bs.take j, isCode b = true := by
                rcases hor with hnot | hall
                · rw [hcode] at hnot
                  cases hnot
                · apply hall
              have hsame : (scan buf p bs j).dp = (scan buf p bs j).sp := by
                rw [hdp, hsp, List.countP_eq_length.mpr hall, List.length_take,
                  Nat.min_eq_left (Nat.le_of_lt hj)]
              simp only [hsame, hread]
              rw [hsp, Function.update_self]
      | false =>
          rw [if_neg (by simp)]
          constructor
          · simp [hsp, Nat.add_assoc]
          · simp [hnext, hcode, hdp]
          · simp only [hnext, hcode, Bool.false_eq_true, if_false]
            omega
          · intro a ha
            apply hframe a (by omega)
          · intro j hj hjk hor
            rcases Nat.lt_succ_iff_lt_or_eq.mp hjk with hlt | rfl
            · apply hkept j hj hlt hor
            · rw [← hread, hsp]

/-! ### When the code characters are kept -/

/-- The value returned is the number of code characters. -/
theorem lclreadcode_ret (buf : Buffer) (p : ℕ) (bs : List (BitVec 8)) :
  (lclreadcode buf p bs).2 = (bs.filter isCode).length
  := by
  have h := (scanned_scan buf p bs (Nat.le_refl _)).ret
  rw [List.take_length] at h
  rw [← List.countP_eq_length_filter, lclreadcode]
  omega

/-- Nothing is changed outside of the bytes read. -/
theorem lclreadcode_frame {a : ℕ} (ha : a < p ∨ p + bs.length ≤ a) :
  (lclreadcode buf p bs).1 a = buf a
  := by
  have h := (scanned_scan buf p bs (Nat.le_refl _)).frame a ha
  rw [Buffer.store_of_outside ha] at h
  apply h

theorem lclreadcode_kept {j : ℕ} (hj : j < bs.length)
    (h : isCode bs[j] = false ∨ ∀ b ∈ bs.take j, isCode b = true) :
  (lclreadcode buf p bs).1 (p + j) = bs[j]
  := (scanned_scan buf p bs (Nat.le_refl _)).kept j hj hj h

/-- The code characters at the front, and the rest. -/
theorem exists_codes (bs : List (BitVec 8)) :
  ∃ vs os, bs = vs ++ os ∧ (∀ b ∈ vs, isCode b = true) ∧ bs.dropWhile isCode = os
  := by
  use bs.takeWhile isCode, bs.dropWhile isCode
  refine ⟨List.takeWhile_append_dropWhile.symm, ?_, rfl⟩
  intro b hb
  apply List.mem_takeWhile_imp hb

/-- Where the code characters come first they are not moved. -/
theorem window_of_codesFirst (h : CodesFirst bs) :
  (lclreadcode buf p bs).1.window p (bs.filter isCode).length = bs.filter isCode
  := by
  obtain ⟨vs, os, rfl, hvs, hos⟩ := exists_codes bs
  rw [CodesFirst, hos] at h
  have hfilter : (vs ++ os).filter isCode = vs := by
    rw [List.filter_append, List.filter_eq_self.mpr hvs,
      List.filter_eq_nil_iff.mpr (by simpa using h), List.append_nil]
  rw [hfilter]
  apply List.ext_getElem (Buffer.length_window _ _ _)
  intro j hwindow hj
  have hlt : j < (vs ++ os).length := by
    rw [List.length_append]
    omega
  have hkept : (lclreadcode buf p (vs ++ os)).1 (p + j) = (vs ++ os)[j] := by
    apply lclreadcode_kept
    right
    intro b hb
    rw [List.take_append_of_le_length hj.le] at hb
    apply hvs b (List.mem_of_mem_take hb)
  rw [Buffer.getElem_window hwindow, hkept, List.getElem_append_left hj]

/-- Where a code character follows another character, that one is among those returned. -/
theorem codesFirst_of_window
    (h : (lclreadcode buf p bs).1.window p (bs.filter isCode).length = bs.filter isCode) :
  CodesFirst bs
  := by
  obtain ⟨vs, os, rfl, hvs, hos⟩ := exists_codes bs
  rw [CodesFirst, hos]
  cases os with
  | nil => simp
  | cons x os =>
      have hx : isCode x = false := by
        have hne : (vs ++ x :: os).dropWhile isCode ≠ [] := by simp [hos]
        have := List.head_dropWhile_not isCode hne
        simpa [hos] using this
      have hfilter : (vs ++ x :: os).filter isCode = vs ++ os.filter isCode := by
        rw [List.filter_append, List.filter_eq_self.mpr hvs, List.filter_cons, hx]
        rfl
      have hrest : os.filter isCode = [] := by
        by_contra hne
        -- the first other character stays behind the first code characters
        have hlen : vs.length < ((vs ++ x :: os).filter isCode).length := by
          have := List.length_pos_of_ne_nil hne
          rw [hfilter, List.length_append]
          omega
        have hkept : (lclreadcode buf p (vs ++ x :: os)).1 (p + vs.length) = x := by
          rw [lclreadcode_kept (by simp)]
          · simp
          · left
            simpa using hx
        have hmem : x ∈ (vs ++ x :: os).filter isCode := by
          rw [← h, Buffer.mem_window]
          use vs.length, hlen, hkept
        rw [List.mem_filter, hx] at hmem
        cases hmem.2
      intro b hb
      rcases List.mem_cons.mp hb with rfl | hb
      · apply hx
      · have := List.filter_eq_nil_iff.mp hrest b hb
        simpa using this

/-- `lclreadcode` returns the code characters, in their order, exactly when they come before
all others. -/
theorem window_iff (buf : Buffer) (p : ℕ) (bs : List (BitVec 8)) :
  (lclreadcode buf p bs).1.window p (bs.filter isCode).length = bs.filter isCode ↔ CodesFirst bs
  := ⟨codesFirst_of_window, window_of_codesFirst⟩

/-! ### Completing a codeword -/

/-- What a `read` of up to `len` bytes returns of the bytes that are still to come: some, as
many as the link likes. -/
def arriving (chunk : ℕ → ℕ) (len : ℕ) (rest : List (BitVec 8)) : List (BitVec 8) :=
  rest.take (min (max 1 (chunk rest.length)) len)

theorem arriving_ne_nil {chunk : ℕ → ℕ} {len : ℕ} {rest : List (BitVec 8)} (hlen : 0 < len)
    (hrest : rest ≠ []) :
  0 < (arriving chunk len rest).length
  := by
  have := List.length_pos_of_ne_nil hrest
  rw [arriving, List.length_take]
  omega

theorem length_arriving_le (chunk : ℕ → ℕ) (len : ℕ) (rest : List (BitVec 8)) :
  (arriving chunk len rest).length ≤ len
  := by
  rw [arriving, List.length_take]
  omega

theorem arriving_append (chunk : ℕ → ℕ) (len : ℕ) (rest : List (BitVec 8)) :
  arriving chunk len rest ++ rest.drop (arriving chunk len rest).length = rest
  := by
  rw [arriving, List.length_take]
  rcases Nat.le_total (min (max 1 (chunk rest.length)) len) rest.length with hle | hle
  · rw [Nat.min_eq_left hle, List.take_append_drop]
  · rw [Nat.min_eq_right hle, List.take_of_length_le hle, List.drop_length, List.append_nil]

/-- The loop `do nr += lclreadcode(&m_buf[nr], want-nr); while (nr < want)`: the buffer and
what is still to come, unless it waits for more. -/
def readcodes (chunk : ℕ → ℕ) (want nr : ℕ) (buf : Buffer) (rest : List (BitVec 8)) :
    Option (Buffer × List (BitVec 8)) :=
  if _hrest : rest = [] then none
  else
    let bs := arriving chunk (want - nr) rest
    let got := lclreadcode buf nr bs
    if _hmore : nr + got.2 < want then
      readcodes chunk want (nr + got.2) got.1 (rest.drop bs.length)
    else some (got.1, rest.drop bs.length)
termination_by rest.length
decreasing_by
  have := List.length_pos_of_ne_nil _hrest
  have : 0 < (arriving chunk (want - nr) rest).length := arriving_ne_nil (by omega) _hrest
  rw [List.length_drop]
  omega

/-- What the calls of `lclreadcode` in the loop are given by the device. -/
def arrivals (chunk : ℕ → ℕ) (want nr : ℕ) (rest : List (BitVec 8)) : List (List (BitVec 8)) :=
  if _hrest : rest = [] then []
  else
    let bs := arriving chunk (want - nr) rest
    let nr' := nr + (bs.filter isCode).length
    if _hmore : nr' < want then bs :: arrivals chunk want nr' (rest.drop bs.length)
    else [bs]
termination_by rest.length
decreasing_by
  have := List.length_pos_of_ne_nil _hrest
  have : 0 < (arriving chunk (want - nr) rest).length := arriving_ne_nil (by omega) _hrest
  rw [List.length_drop]
  omega

/-- The loop ends with the next code characters of the stream. -/
def Completes (chunk : ℕ → ℕ) (want nr : ℕ) (buf : Buffer) (rest : List (BitVec 8)) : Prop :=
  ∃ buf' rest', readcodes chunk want nr buf rest = some (buf', rest')
    ∧ buf'.window nr (want - nr) = (rest.filter isCode).take (want - nr)

/-- What the loop does to the buffer and the stream, when enough code characters come. -/
theorem readcodes_spec (chunk : ℕ → ℕ) {want nr : ℕ} (buf : Buffer) {rest : List (BitVec 8)}
    (hnr : nr < want) (henough : want - nr ≤ (rest.filter isCode).length) :
  ∃ buf' rest', readcodes chunk want nr buf rest = some (buf', rest')
    ∧ (∀ a < nr, buf' a = buf a)
    ∧ (buf'.window nr (want - nr) = (rest.filter isCode).take (want - nr)
      ↔ ∀ bs ∈ arrivals chunk want nr rest, CodesFirst bs)
  := by
  induction hlen : rest.length using Nat.strongRecOn generalizing nr buf rest with
  | ind n ih =>
      have hrest : rest ≠ [] := by
        rintro rfl
        simp at henough
        omega
      rw [readcodes, dif_neg hrest, arrivals, dif_neg hrest]
      have hbs := length_arriving_le chunk (want - nr) rest
      have hpos : 0 < (arriving chunk (want - nr) rest).length :=
        arriving_ne_nil (by omega) hrest
      have hsplit := arriving_append chunk (want - nr) rest
      generalize arriving chunk (want - nr) rest = bs at *
      generalize rest.drop bs.length = rest' at *
      subst hsplit
      have hcount : (bs.filter isCode).length ≤ bs.length := List.length_filter_le _ _
      have hret := lclreadcode_ret buf nr bs
      have hwindow := window_iff buf nr bs
      have hframe : ∀ a < nr, (lclreadcode buf nr bs).1 a = buf a := by
        intro a ha
        apply lclreadcode_frame (Or.inl ha)
      rw [List.filter_append, List.length_append] at henough
      rw [List.filter_append]
      simp only [hret, List.drop_left]
      by_cases hmore : nr + (bs.filter isCode).length < want
      · rw [dif_pos hmore, dif_pos hmore]
        obtain ⟨buf', rest'', hcodes, hframe', hiff⟩ :=
          ih rest'.length (by rw [List.length_append] at hlen; omega) (lclreadcode buf nr bs).1
            hmore (by omega) rfl
        use buf', rest'', hcodes
        constructor
        · intro a ha
          rw [hframe' a (by omega), hframe a ha]
        · have hwant : want - nr = (bs.filter isCode).length
              + (want - (nr + (bs.filter isCode).length)) := by omega
          have hfirst : buf'.window nr (bs.filter isCode).length
              = (lclreadcode buf nr bs).1.window nr (bs.filter isCode).length := by
            apply Buffer.window_congr
            intro j hj
            apply hframe' _ (by omega)
          rw [hwant, Buffer.window_add, List.take_length_add_append, List.forall_mem_cons,
            ← hwindow, ← hiff, hfirst]
          constructor
          · intro heq
            apply List.append_inj heq (by simp)
          · rintro ⟨hl, hr⟩
            rw [hl, hr]
      · rw [dif_neg hmore, dif_neg hmore]
        use (lclreadcode buf nr bs).1, rest', rfl, hframe
        have hwant : want - nr = (bs.filter isCode).length := by omega
        rw [hwant, List.take_left, List.forall_mem_singleton, hwindow]

theorem completes_iff {chunk : ℕ → ℕ} {want nr : ℕ} {buf : Buffer} {rest : List (BitVec 8)}
    (hnr : nr < want) (henough : want - nr ≤ (rest.filter isCode).length) :
  Completes chunk want nr buf rest ↔ ∀ bs ∈ arrivals chunk want nr rest, CodesFirst bs
  := by
  obtain ⟨buf', rest', hcodes, -, hiff⟩ := readcodes_spec chunk buf hnr henough
  rw [← hiff, Completes, hcodes]
  simp

/-- `lclreadcode` returns the code characters of what it reads, in their order, exactly when
they come before all others; and a codeword is completed with the next code characters of
the stream exactly when this is so at each of the calls that complete it. -/
theorem keepsCodes_iff
    (buf : Buffer) (p : ℕ) (bs : List (BitVec 8)) {chunk : ℕ → ℕ} {want nr : ℕ}
    {rest : List (BitVec 8)} (hnr : nr < want) (henough : want - nr ≤ (rest.filter isCode).length) :
  (((lclreadcode buf p bs).2 = (bs.filter isCode).length
      ∧ (lclreadcode buf p bs).1.window p (lclreadcode buf p bs).2 = bs.filter isCode)
      ↔ CodesFirst bs)
    ∧ (Completes chunk want nr buf rest ↔ ∀ bs ∈ arrivals chunk want nr rest, CodesFirst bs)
  := by
  constructor
  · rw [lclreadcode_ret, window_iff]
    simp
  · apply completes_iff hnr henough

/-- A newline behind the second character of a codeword is dropped as it should be. -/
theorem keepsCodes_iff_newlineLast :
  Completes (fun _ => 2) 3 1 (fun _ => 0x38) [0x31, 0x32, 0x0a]
  := by
  apply (keepsCodes_iff _ 0 [] (by decide) (by decide)).2.mpr
  rw [arrivals]
  decide

/-- A newline before a code character is returned in its place. -/
theorem newline_keptForCode :
  (lclreadcode (fun _ => 0) 0 [0x0a, 0x41]).2 = 1
    ∧ (lclreadcode (fun _ => 0) 0 [0x0a, 0x41]).1.window 0 1 = [0x0a]
    ∧ ([0x0a, 0x41] : List (BitVec 8)).filter isCode = [0x41]
    ∧ ¬ Completes (fun _ => 2) 3 1 (fun _ => 0x38) [0x0a, 0x31, 0x32]
  := by
  refine ⟨by decide, by decide, by decide, ?_⟩
  intro h
  have := (completes_iff (by decide) (by decide)).mp h
  rw [arrivals] at this
  revert this
  decide

end ZBasic
