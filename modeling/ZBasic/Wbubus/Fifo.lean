import ZBasic.Clocked.Ring
import ZBasic.Clocked.Run

/-!
# The codeword FIFO

`wbufifo` is a synchronous FIFO of `2 ^ lgflen` words with a registered output. Its
contents are the word in the output register, when there is one, followed by the words
between the two pointers. Between two resets a run loses, duplicates and reorders nothing,
also where it is read while it is empty or written while it is full.
-/

namespace ZBasic

open Clocked

/-- The registers of `wbufifo`. -/
structure Wbufifo (α : Type*) (lgflen : ℕ) where
  fifo : BitVec lgflen → α
  rWrptr : BitVec (lgflen + 1)
  rRdptr : BitVec (lgflen + 1)
  willOverflow : Bool
  willUnderflow : Bool
  oData : α
  oEmptyN : Bool

namespace Wbufifo

variable {α : Type*} {lgflen : ℕ}

/-- The inputs of `wbufifo` at a clock: the reset, the word written, if any, and the
read strobe. -/
structure Input (α : Type*) where
  iReset : Bool
  iWr : Option α
  iRd : Bool

/-- The registers at power up; the memory and the output register have no initial
value. -/
def initial (fifo : BitVec lgflen → α) (oData : α) : Wbufifo α lgflen where
  fifo := fifo
  rWrptr := 0
  rRdptr := 0
  willOverflow := false
  willUnderflow := true
  oData := oData
  oEmptyN := false

/-- `w_write` -/
def wWrite (s : Wbufifo α lgflen) (i : Input α) : Bool :=
  i.iWr.isSome && (!s.willOverflow || i.iRd)

/-- `w_read` -/
def wRead (s : Wbufifo α lgflen) (i : Input α) : Bool :=
  (i.iRd || !s.oEmptyN) && !s.willUnderflow

/-- `r_empty_n` -/
def rEmptyN (s : Wbufifo α lgflen) : Bool := !s.willUnderflow

/-- One clock of `wbufifo`. -/
def step (s : Wbufifo α lgflen) (i : Input α) : Wbufifo α lgflen where
  willOverflow :=
    if i.iReset then false
    else if i.iRd then s.willOverflow && i.iWr.isSome
    else if s.wWrite i then
      (s.rWrptr + 1).setWidth lgflen == s.rRdptr.setWidth lgflen
        && (s.rWrptr + 1).msb != s.rRdptr.msb
    else s.willOverflow
  rWrptr :=
    if i.iReset then 0
    else if s.wWrite i then s.rWrptr + 1
    else s.rWrptr
  fifo :=
    match i.iWr with
    | some w =>
        if s.wWrite i then Function.update s.fifo (s.rWrptr.setWidth lgflen) w else s.fifo
    | none => s.fifo
  willUnderflow :=
    if i.iReset then true
    else if i.iWr.isSome then false
    else if s.wRead i then s.willUnderflow || s.rRdptr + 1 == s.rWrptr
    else s.willUnderflow
  rRdptr :=
    if i.iReset then 0
    else if s.wRead i && s.rEmptyN then s.rRdptr + 1
    else s.rRdptr
  oData :=
    if s.wRead i && s.rEmptyN then s.fifo (s.rRdptr.setWidth lgflen) else s.oData
  oEmptyN :=
    if i.iReset then false
    else if !s.oEmptyN || i.iRd then s.rEmptyN
    else s.oEmptyN

/-! ### Contents -/

/-- The number of words between the pointers. -/
def fill (s : Wbufifo α lgflen) : ℕ := (s.rWrptr - s.rRdptr).toNat

/-- The word in the output register, when it is valid. -/
def shown (s : Wbufifo α lgflen) : List α :=
  if s.oEmptyN then [s.oData] else []

/-- Everything the FIFO holds, the oldest word first. -/
def contents (s : Wbufifo α lgflen) : List α :=
  s.shown ++ segment s.fifo s.rRdptr s.fill

/-- The word the FIFO takes in at this clock. -/
def accepted (s : Wbufifo α lgflen) (i : Input α) : List α :=
  if s.wWrite i then i.iWr.toList else []

/-- The word read from the FIFO at this clock. -/
def popped (s : Wbufifo α lgflen) (i : Input α) : List α :=
  if i.iRd then s.shown else []

/-- What the flags say of the pointers. -/
structure Inv (s : Wbufifo α lgflen) : Prop where
  fill_le : s.fill ≤ 2 ^ lgflen
  underflow_iff : s.willUnderflow = true ↔ s.fill = 0
  overflow_iff : s.willOverflow = true ↔ s.fill = 2 ^ lgflen
  shown_of_fill : 1 < s.fill → s.oEmptyN = true

theorem initial_fill (fifo : BitVec lgflen → α) (oData : α) :
  (initial fifo oData).fill = 0
  := by simp [fill, initial]

theorem initial_inv (fifo : BitVec lgflen → α) (oData : α) :
  (initial fifo oData).Inv
  := by
  have hpos : 0 < 2 ^ lgflen := Nat.two_pow_pos lgflen
  constructor <;> rw [initial_fill]
  · apply hpos.le
  · simp [initial]
  · simp [initial, hpos.ne]
  · intro h
    omega

theorem initial_contents (fifo : BitVec lgflen → α) (oData : α) :
  (initial fifo oData).contents = []
  := by simp [contents, shown, fill, initial]

theorem wRead_fill {s : Wbufifo α lgflen} (h : s.Inv) {i : Input α} (hr : s.wRead i = true) :
  s.fill ≠ 0
  := by
  intro h0
  simp [wRead, h.underflow_iff.mpr h0] at hr

theorem wWrite_fill {s : Wbufifo α lgflen} (h : s.Inv) {i : Input α}
    (hpos : 0 < 2 ^ lgflen) (hw : s.wWrite i = true) (hr : s.wRead i = false) :
  s.fill < 2 ^ lgflen
  := by
  apply lt_of_le_of_ne h.fill_le
  intro hfull
  have hov := h.overflow_iff.mpr hfull
  have hnu : s.willUnderflow = false := by
    have := h.underflow_iff
    grind
  simp only [wWrite, hov, Bool.not_true, Bool.false_or, Bool.and_eq_true] at hw
  simp [wRead, hw.2, hnu] at hr

theorem wRead_and_rEmptyN (s : Wbufifo α lgflen) (i : Input α) :
  (s.wRead i && s.rEmptyN) = s.wRead i
  := by
  simp only [wRead, rEmptyN]
  grind

theorem step_rWrptr {s : Wbufifo α lgflen} {i : Input α} (hi : i.iReset = false) :
  (s.step i).rWrptr = if s.wWrite i then s.rWrptr + 1 else s.rWrptr
  := by simp [step, hi]

theorem step_rRdptr {s : Wbufifo α lgflen} {i : Input α} (hi : i.iReset = false) :
  (s.step i).rRdptr = if s.wRead i then s.rRdptr + 1 else s.rRdptr
  := by simp only [step, hi, wRead_and_rEmptyN, Bool.false_eq_true, if_false]

/-- The number of words between the pointers after a clock. -/
theorem step_fill {s : Wbufifo α lgflen} (h : s.Inv) {i : Input α} (hi : i.iReset = false) :
  (s.step i).fill
    = s.fill + (if s.wWrite i then 1 else 0) - (if s.wRead i then 1 else 0)
  := by
  have hpos : 0 < 2 ^ lgflen := Nat.two_pow_pos lgflen
  have hdouble : 2 ^ (lgflen + 1) = 2 ^ lgflen + 2 ^ lgflen := by rw [pow_succ, mul_two]
  rw [fill, step_rWrptr hi, step_rRdptr hi]
  cases hw : s.wWrite i with
  | false =>
      cases hr : s.wRead i with
      | false => rfl
      | true => apply toNat_sub_succ s.rWrptr s.rRdptr (wRead_fill h hr)
  | true =>
      cases hr : s.wRead i with
      | false =>
          have hlt := wWrite_fill h hpos hw hr
          apply toNat_succ_sub s.rWrptr s.rRdptr
          unfold fill at hlt
          omega
      | true =>
          have hsame : s.rWrptr + 1 - (s.rRdptr + 1) = s.rWrptr - s.rRdptr := by ring
          simp only [if_true, hsame]
          rfl

theorem step_underflow {s : Wbufifo α lgflen} (h : s.Inv) {i : Input α} (hi : i.iReset = false)
    (hpos : 1 < 2 ^ lgflen) :
  (s.step i).willUnderflow = true ↔ (s.step i).fill = 0
  := by
  rw [step_fill h hi]
  have hpop : s.fill ≠ 0 → (s.rRdptr + 1 = s.rWrptr ↔ s.fill = 1) := by
    intro h0
    have := toNat_sub_succ s.rWrptr s.rRdptr h0
    rw [eq_comm, ← sub_eq_zero_iff, this]
    unfold fill at h0 ⊢
    omega
  have hr := wRead_fill h (i := i)
  have hund := h.underflow_iff
  have hovf := h.overflow_iff
  have hshown := h.shown_of_fill
  simp only [step, hi, wWrite, wRead] at hr ⊢
  grind

theorem step_overflow {s : Wbufifo α lgflen} (h : s.Inv) {i : Input α} (hi : i.iReset = false)
    (hpos : 2 < 2 ^ lgflen) :
  (s.step i).willOverflow = true ↔ (s.step i).fill = 2 ^ lgflen
  := by
  rw [step_fill h hi]
  have hpush : s.fill < 2 ^ lgflen →
      (((s.rWrptr + 1).setWidth lgflen = s.rRdptr.setWidth lgflen
          ∧ (s.rWrptr + 1).msb ≠ s.rRdptr.msb) ↔ s.fill + 1 = 2 ^ lgflen) := by
    intro hlt
    have hdouble : 2 ^ (lgflen + 1) = 2 ^ lgflen + 2 ^ lgflen := by rw [pow_succ, mul_two]
    rw [ring_full_iff, toNat_succ_sub _ _ (by unfold fill at hlt; omega)]
    rfl
  have hle := h.fill_le
  have hund := h.underflow_iff
  have hovf := h.overflow_iff
  have hshown := h.shown_of_fill
  simp only [step, hi, wWrite, wRead]
  grind

/-- The flags keep describing the pointers. -/
theorem step_inv {s : Wbufifo α lgflen} (h : s.Inv) {i : Input α} (hi : i.iReset = false)
    (hlg : 2 ≤ lgflen) :
  (s.step i).Inv
  := by
  have hfour : 4 ≤ 2 ^ lgflen := by
    calc 4 = 2 ^ 2 := rfl
      _ ≤ 2 ^ lgflen := Nat.pow_le_pow_right (by omega) hlg
  constructor
  · have hw := wWrite_fill h (i := i) (by omega)
    have hle := h.fill_le
    rw [step_fill h hi]
    grind
  · apply step_underflow h hi (by omega)
  · apply step_overflow h hi (by omega)
  · have hund := h.underflow_iff
    have hshown := h.shown_of_fill
    rw [step_fill h hi]
    simp only [step, hi, rEmptyN, wWrite, wRead]
    grind

theorem step_fifo (s : Wbufifo α lgflen) (i : Input α) :
  (s.step i).fifo = match s.accepted i with
    | w :: _ => Function.update s.fifo (s.rWrptr.setWidth lgflen) w
    | [] => s.fifo
  := by
  cases hi : i.iWr with
  | none => simp [step, accepted, hi]
  | some w =>
      cases hw : s.wWrite i with
      | false => simp [step, accepted, hi, hw]
      | true => simp [step, accepted, hi, hw]

/-- The write pointer is the end of the words held. -/
theorem rRdptr_add_fill (s : Wbufifo α lgflen) :
  s.rRdptr + BitVec.ofNat (lgflen + 1) s.fill = s.rWrptr
  := by
  rw [fill, BitVec.ofNat_toNat, BitVec.setWidth_eq]
  ring

/-- Words that end at the write pointer are followed, after a clock, by the one written. -/
theorem segment_accepted
    (s : Wbufifo α lgflen) (i : Input α) {r : BitVec (lgflen + 1)} {k : ℕ}
    (hend : r + BitVec.ofNat (lgflen + 1) k = s.rWrptr)
    (hfull : s.wWrite i = true → k < 2 ^ lgflen) :
  segment (s.step i).fifo r (k + if s.wWrite i then 1 else 0)
    = segment s.fifo r k ++ s.accepted i
  := by
  rw [step_fifo]
  cases hw : s.wWrite i with
  | false => simp [accepted, hw]
  | true =>
      have hsome : i.iWr.isSome := by
        simp only [wWrite, Bool.and_eq_true] at hw
        apply hw.1
      obtain ⟨w, hi⟩ := Option.isSome_iff_exists.mp hsome
      have hacc : s.accepted i = [w] := by simp [accepted, hw, hi]
      simp only [hacc, if_true]
      rw [segment_snoc, ← hend, segment_update _ _ (hfull hw), Function.update_self]

/-- The words between the pointers after a clock, preceded by the one read out of
them. -/
theorem step_segment {s : Wbufifo α lgflen} (h : s.Inv) {i : Input α} (hi : i.iReset = false) :
  (if s.wRead i then [s.fifo (s.rRdptr.setWidth lgflen)] else [])
      ++ segment (s.step i).fifo (s.step i).rRdptr (s.step i).fill
    = segment s.fifo s.rRdptr s.fill ++ s.accepted i
  := by
  have hend := s.rRdptr_add_fill
  rw [step_fill h hi, step_rRdptr hi]
  cases hr : s.wRead i with
  | false =>
      have hlt : s.wWrite i = true → s.fill < 2 ^ lgflen :=
        fun hw => wWrite_fill h (Nat.two_pow_pos lgflen) hw hr
      simp only [Bool.false_eq_true, if_false, List.nil_append, Nat.sub_zero]
      apply segment_accepted s i hend hlt
  | true =>
      obtain ⟨k, hk⟩ := Nat.exists_eq_succ_of_ne_zero (wRead_fill h hr)
      have hle := h.fill_le
      rw [hk] at hend hle ⊢
      have hend' : s.rRdptr + 1 + BitVec.ofNat (lgflen + 1) k = s.rWrptr := by
        rw [← hend, Nat.succ_eq_add_one, BitVec.ofNat_add, BitVec.add_assoc, BitVec.add_comm 1]
        rfl
      have hcount : k.succ + (if s.wWrite i then 1 else 0) - 1
          = k + if s.wWrite i then 1 else 0 := by omega
      simp only [if_true, hcount]
      rw [segment_accepted s i hend' (fun _ => hle), segment_cons]
      rfl

/-- A FIFO lets out first what it took in first, and holds the rest. -/
theorem step_contents {s : Wbufifo α lgflen} (h : s.Inv) {i : Input α} (hi : i.iReset = false) :
  s.popped i ++ (s.step i).contents = s.contents ++ s.accepted i
  := by
  have hregister : s.popped i ++ (s.step i).shown
      = s.shown ++ if s.wRead i then [s.fifo (s.rRdptr.setWidth lgflen)] else [] := by
    simp only [popped, shown, step, hi, wRead, rEmptyN]
    grind
  rw [contents, contents, List.append_assoc, ← step_segment h hi, ← List.append_assoc,
    ← List.append_assoc, hregister]

/-! ### Reset -/

theorem fill_step_of_reset {s : Wbufifo α lgflen} {i : Input α} (h : i.iReset = true) :
  (s.step i).fill = 0
  := by simp [fill, step, h]

theorem step_inv_of_reset {s : Wbufifo α lgflen} {i : Input α} (h : i.iReset = true) :
  (s.step i).Inv
  := by
  have hpos : 0 < 2 ^ lgflen := Nat.two_pow_pos lgflen
  constructor <;> rw [fill_step_of_reset h]
  · apply hpos.le
  · simp [step, h]
  · simp [step, h, hpos.ne]
  · intro hlt
    omega

/-- A reset drops everything. -/
theorem contents_step_of_reset {s : Wbufifo α lgflen} {i : Input α} (h : i.iReset = true) :
  (s.step i).contents = []
  := by
  rw [contents, fill_step_of_reset h]
  simp [shown, step, h]

/-! ### Errors -/

/-- `o_err` -/
def oErr (s : Wbufifo α lgflen) (i : Input α) : Bool :=
  i.iWr.isSome && s.willOverflow && !i.iRd || i.iRd && !s.oEmptyN

/-- A write is refused exactly when the memory is full and nothing is read. -/
theorem accepted_iff {s : Wbufifo α lgflen} (h : s.Inv) {i : Input α} {w : α}
    (hi : i.iWr = some w) :
  s.accepted i = [w] ↔ ¬ (s.fill = 2 ^ lgflen ∧ i.iRd = false)
  := by
  rw [← h.overflow_iff]
  simp only [accepted, wWrite, hi]
  grind

theorem length_contents (s : Wbufifo α lgflen) :
  s.contents.length = s.oEmptyN.toNat + s.fill
  := by
  rw [contents, List.length_append, shown, Clocked.segment, List.length_map, List.length_range]
  cases s.oEmptyN <;> rfl

/-- When the memory is full so is the output register. -/
theorem length_contents_of_full {s : Wbufifo α lgflen} (h : s.Inv) (hpos : 1 < 2 ^ lgflen)
    (hfull : s.fill = 2 ^ lgflen) :
  s.contents.length = 2 ^ lgflen + 1
  := by
  rw [length_contents, h.shown_of_fill (hfull ▸ hpos), hfull, Nat.add_comm]
  rfl

theorem length_contents_le {s : Wbufifo α lgflen} (h : s.Inv) :
  s.contents.length ≤ 2 ^ lgflen + 1
  := by
  have hle := h.fill_le
  have := Bool.toNat_le s.oEmptyN
  rw [length_contents]
  omega

/-- An error is reported exactly when a write is refused or nothing is there to be read. -/
theorem oErr_iff (s : Wbufifo α lgflen) (i : Input α) :
  s.oErr i = true
    ↔ (i.iWr.isSome = true ∧ s.accepted i = []) ∨ (i.iRd = true ∧ s.oEmptyN = false)
  := by
  cases hi : i.iWr with
  | none => simp [oErr, accepted, hi]
  | some w =>
      simp only [oErr, accepted, wWrite, hi]
      grind

/-- A word between the pointers is moved to the output register when there is room. -/
theorem step_oEmptyN {s : Wbufifo α lgflen} (h : s.Inv) {i : Input α} (hi : i.iReset = false)
    (hfill : s.fill ≠ 0) :
  (s.step i).oEmptyN = true
  := by
  have hund := h.underflow_iff
  simp only [step, hi, rEmptyN]
  grind

/-- What is held and not read is shown at the next clock. -/
theorem step_oEmptyN_of_contents {s : Wbufifo α lgflen} (h : s.Inv) {i : Input α}
    (hi : i.iReset = false) (hheld : s.contents ≠ []) (hpopped : s.popped i = []) :
  (s.step i).oEmptyN = true
  := by
  by_cases hfill : s.fill = 0
  · have hshown : s.oEmptyN = true := by
      by_contra hshown
      simp [contents, shown, hfill, hshown] at hheld
    have hrd : i.iRd = false := by
      by_contra hrd
      simp [popped, shown, hrd, hshown] at hpopped
    simp [step, hi, hshown, hrd]
  · apply step_oEmptyN h hi hfill

/-! ### Runs -/

section Runs

variable (s₀ : Wbufifo α lgflen) (inp : ℕ → Input α)

/-- The words accepted since the last reset before clock `n`. -/
def written (n : ℕ) : List α :=
  logSince (fun k => (inp k).iReset) (fun k => (run step s₀ inp k).accepted (inp k)) n

/-- The words returned by the reads since the last reset before clock `n`. -/
def returned (n : ℕ) : List α :=
  logSince (fun k => (inp k).iReset) (fun k => (run step s₀ inp k).popped (inp k)) n

/-- What makes the run from `s₀` on `inp` that of a queue. A reset drops what is held, and
what is written at that clock. -/
structure IsQueue : Prop where
  /-- The words returned are those accepted, in order, up to the words still held. -/
  faithful : ∀ n, returned s₀ inp n ++ (run step s₀ inp n).contents = written s₀ inp n
  /-- Also the word read at the clock of a reset is the next one. -/
  next : ∀ n, returned s₀ inp n ++ (run step s₀ inp n).popped (inp n) <+: written s₀ inp n
  /-- A write is accepted unless the memory is full and nothing is read at that clock. -/
  accepts : ∀ n w, (inp n).iWr = some w →
    ((run step s₀ inp n).accepted (inp n) = [w]
      ↔ ¬ ((run step s₀ inp n).fill = 2 ^ lgflen ∧ (inp n).iRd = false))
  /-- An error is reported exactly when a write is refused or a read finds nothing. -/
  errs : ∀ n, (run step s₀ inp n).oErr (inp n) = true
    ↔ ((inp n).iWr.isSome = true ∧ (run step s₀ inp n).accepted (inp n) = [])
      ∨ ((inp n).iRd = true ∧ (run step s₀ inp n).oEmptyN = false)
  /-- A word that is held is shown at the next clock at the latest. -/
  shows : ∀ n, (run step s₀ inp n).contents ≠ [] → (inp n).iReset = false →
    (run step s₀ inp n).oEmptyN = true ∨ (run step s₀ inp (n + 1)).oEmptyN = true
  /-- Two clocks after a write that is accepted a word is shown. -/
  showsWritten : ∀ n, (run step s₀ inp n).accepted (inp n) ≠ [] → (inp n).iReset = false →
    (inp (n + 1)).iReset = false → (run step s₀ inp (n + 2)).oEmptyN = true
  /-- The pointers never differ by more than the length of the memory. -/
  fill_le : ∀ n, (run step s₀ inp n).fill ≤ 2 ^ lgflen

variable {s₀} {inp}

theorem run_inv (hlg : 2 ≤ lgflen) (h₀ : s₀.Inv) (n : ℕ) :
  (run step s₀ inp n).Inv
  := by
  apply run_induction h₀
  intro n s hs
  cases hi : (inp n).iReset with
  | true => apply step_inv_of_reset hi
  | false => apply step_inv hs hi hlg

/-- Since the last reset, which drops everything, the words returned and held are those
accepted. -/
theorem returned_append_contents (hlg : 2 ≤ lgflen) (h₀ : s₀.Inv) (hempty : s₀.contents = [])
    (n : ℕ) :
  returned s₀ inp n ++ (run step s₀ inp n).contents = written s₀ inp n
  := by
  apply logSince_eq
  · apply hempty
  · intro k hk
    apply contents_step_of_reset hk
  · intro k hk
    apply step_contents (run_inv hlg h₀ k) hk

theorem popped_prefix_contents (s : Wbufifo α lgflen) (i : Input α) :
  s.popped i <+: s.contents
  := by
  rw [popped, contents]
  split
  · apply List.prefix_append
  · apply List.nil_prefix

/-- A word that has been accepted is between the pointers at the next clock. -/
theorem fill_of_accepted {s : Wbufifo α lgflen} (h : s.Inv) {i : Input α} (hi : i.iReset = false)
    (hacc : s.accepted i ≠ []) :
  (s.step i).fill ≠ 0
  := by
  have hw : s.wWrite i = true := by
    by_contra hw
    simp [accepted, hw] at hacc
  have hr := wRead_fill h (i := i)
  rw [step_fill h hi, hw]
  grind

end Runs

/-- `wbufifo` is a queue, whatever it is written, read and reset. -/
theorem isQueue (hlg : 2 ≤ lgflen) (fifo : BitVec lgflen → α) (oData : α) (inp : ℕ → Input α) :
  IsQueue (initial fifo oData) inp
  := by
  have h₀ := initial_inv fifo oData
  have hinv : ∀ n, (run step (initial fifo oData) inp n).Inv := run_inv hlg h₀
  have hfaithful : ∀ n, returned (initial fifo oData) inp n
      ++ (run step (initial fifo oData) inp n).contents = written (initial fifo oData) inp n :=
    returned_append_contents hlg h₀ (initial_contents fifo oData)
  constructor
  · apply hfaithful
  · intro n
    rw [← hfaithful n, List.prefix_append_right_inj]
    apply popped_prefix_contents
  · intro n w hw
    apply accepted_iff (hinv n) hw
  · intro n
    apply oErr_iff
  · intro n hheld hreset
    by_cases hfill : (run step (initial fifo oData) inp n).fill = 0
    · left
      by_contra hshown
      simp [contents, shown, hfill, hshown] at hheld
    · right
      apply step_oEmptyN (hinv n) hreset hfill
  · intro n hacc hreset hreset'
    apply step_oEmptyN (hinv (n + 1)) hreset' (fill_of_accepted (hinv n) hreset hacc)
  · intro n
    apply (hinv n).fill_le

/-- The smallest FIFO of bytes, written and read at every clock and reset at every tenth. -/
theorem isQueue_four :
  IsQueue (initial (fun _ : BitVec 2 => 0#8) 0)
    (fun n => ⟨n % 10 = 9, some (BitVec.ofNat 8 n), true⟩)
  := isQueue (by decide) _ _ _

end Wbufifo

end ZBasic
