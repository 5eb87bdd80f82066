import ZBasic.Clocked.Bits
import ZBasic.Clocked.Ring
import ZBasic.Clocked.Run

/-!
# The UART FIFO

`ufifo` holds up to `2 ^ lgflen - 1` words and shows the oldest of them without being asked.
That word comes from a register of its own when it was written while nothing else was held,
and from a register loaded at the last read otherwise.
-/

namespace ZBasic

open Clocked

/-- The registers of `ufifo`. -/
structure Ufifo (α : Type*) (lgflen : ℕ) where
  fifo : BitVec lgflen → α
  rData : α
  lastWrite : α
  wrAddr : BitVec lgflen
  rdAddr : BitVec lgflen
  rNext : BitVec lgflen
  willOverflow : Bool
  willUnderflow : Bool
  osrc : Bool
  rFill : BitVec lgflen

namespace Ufifo

variable {α : Type*} {lgflen : ℕ}

/-- The inputs of `ufifo` at a clock. -/
structure Input (α : Type*) where
  iReset : Bool
  iWr : Bool
  iData : α
  iRd : Bool

/-- The value of `r_fill` when nothing is held; a transmit FIFO counts the words that can
still be written. -/
def emptyFill (rxfifo : Bool) : BitVec lgflen := if rxfifo then 0 else -1

/-- The registers at power up; the memory and the data registers have no initial value. -/
def initial (rxfifo : Bool) (fifo : BitVec lgflen → α) (rData lastWrite : α) :
    Ufifo α lgflen where
  fifo := fifo
  rData := rData
  lastWrite := lastWrite
  wrAddr := 0
  rdAddr := 0
  rNext := 1
  willOverflow := false
  willUnderflow := true
  osrc := false
  rFill := emptyFill rxfifo

/-- `o_empty_n` -/
def oEmptyN (s : Ufifo α lgflen) : Bool := !s.willUnderflow

/-- `o_data` -/
def oData (s : Ufifo α lgflen) : α := if s.osrc then s.lastWrite else s.rData

/-- `w_write` -/
def wWrite (s : Ufifo α lgflen) (i : Input α) : Bool := i.iWr && (!s.willOverflow || i.iRd)

/-- `w_read` -/
def wRead (s : Ufifo α lgflen) (i : Input α) : Bool := i.iRd && s.oEmptyN

/-- `o_err` -/
def oErr (s : Ufifo α lgflen) (i : Input α) : Bool := i.iWr && !s.wWrite i

/-- What is written at this clock is all that is held at the next one. -/
def bypass (s : Ufifo α lgflen) (i : Input α) : Bool :=
  i.iWr && (!s.oEmptyN || s.wRead i && s.rNext == s.wrAddr)

/-- One clock of `ufifo`. -/
def step (rxfifo : Bool) (s : Ufifo α lgflen) (i : Input α) : Ufifo α lgflen where
  willOverflow :=
    if i.iReset then false
    else if i.iRd then s.willOverflow && i.iWr
    else if s.wWrite i then s.willOverflow || s.wrAddr + 2 == s.rdAddr
    else if s.wrAddr + 1 == s.rdAddr then true
    else s.willOverflow
  wrAddr :=
    if i.iReset then 0
    else if s.wWrite i then s.wrAddr + 1
    else s.wrAddr
  fifo := if s.wWrite i then Function.update s.fifo s.wrAddr i.iData else s.fifo
  willUnderflow :=
    if i.iReset then true
    else if i.iWr then false
    else if s.wRead i then s.willUnderflow || s.rNext == s.wrAddr
    else s.willUnderflow
  rdAddr :=
    if i.iReset then 0
    else if s.wRead i then s.rdAddr + 1
    else s.rdAddr
  rNext :=
    if i.iReset then 1
    else if s.wRead i then s.rdAddr + 2
    else s.rNext
  rData := if s.wRead i then s.fifo s.rNext else s.rData
  lastWrite := if s.bypass i then i.iData else s.lastWrite
  osrc :=
    if i.iReset then false
    else if s.bypass i then true
    else if i.iRd then false
    else s.osrc
  rFill :=
    if i.iReset then emptyFill rxfifo
    else
      match s.wWrite i, s.wRead i with
      | false, true => if rxfifo then s.rFill - 1 else s.rFill + 1
      | true, false => if rxfifo then s.rFill + 1 else s.rFill - 1
      | _, _ => s.rFill

/-- `o_status` -/
def oStatus (rxfifo : Bool) (s : Ufifo α lgflen) : BitVec 16 :=
  BitVec.ofNat 4 lgflen ++ s.rFill.setWidth 10 ++ BitVec.ofBool s.rFill.msb
    ++ BitVec.ofBool (if rxfifo then !s.willUnderflow else !s.willOverflow)

/-- The fill field of `o_status`. -/
def fillField (status : BitVec 16) : ℕ := (status.extractLsb' 2 10).toNat

/-! ### Contents -/

/-- The number of words held. -/
def fill (s : Ufifo α lgflen) : ℕ := (s.wrAddr - s.rdAddr).toNat

/-- The words held, the oldest one first. -/
def contents (s : Ufifo α lgflen) : List α := slots s.fifo s.rdAddr s.fill

/-- The word taken in at this clock. -/
def accepted (s : Ufifo α lgflen) (i : Input α) : List α :=
  if i.iWr && !s.oErr i then [i.iData] else []

/-- The word read at this clock. -/
def popped (s : Ufifo α lgflen) (i : Input α) : List α :=
  if i.iRd && s.oEmptyN then [s.oData] else []

/-- What the registers say of each other. -/
structure Inv (rxfifo : Bool) (s : Ufifo α lgflen) : Prop where
  rNext : s.rNext = s.rdAddr + 1
  underflow_iff : s.willUnderflow = true ↔ s.fill = 0
  overflow_iff : s.willOverflow = true ↔ s.fill + 1 = 2 ^ lgflen
  oData : s.fill ≠ 0 → s.oData = s.fifo s.rdAddr
  rFill : s.rFill = if rxfifo then s.wrAddr - s.rdAddr else -1 - (s.wrAddr - s.rdAddr)

section Step

variable {rxfifo : Bool} {s : Ufifo α lgflen} {i : Input α}

theorem fill_lt (s : Ufifo α lgflen) :
  s.fill < 2 ^ lgflen
  := (s.wrAddr - s.rdAddr).isLt

theorem wWrite_eq (s : Ufifo α lgflen) (i : Input α) :
  (i.iWr && !s.oErr i) = s.wWrite i
  := by
  simp only [oErr, wWrite]
  grind

theorem initial_inv (hpos : 1 < 2 ^ lgflen) (fifo : BitVec lgflen → α) (rData lastWrite : α) :
  (initial rxfifo fifo rData lastWrite).Inv rxfifo
  := by
  have hfill : (initial rxfifo fifo rData lastWrite).fill = 0 := by simp [fill, initial]
  constructor
  · simp [initial]
  · rw [hfill]
    simp [initial]
  · rw [hfill]
    simp [initial]
    omega
  · rw [hfill]
    simp
  · simp [initial, emptyFill]

theorem wRead_fill (h : s.Inv rxfifo) (hr : s.wRead i = true) :
  s.fill ≠ 0
  := by
  intro hzero
  simp [wRead, oEmptyN, h.underflow_iff.mpr hzero] at hr

theorem wWrite_fill (h : s.Inv rxfifo) (hpos : 1 < 2 ^ lgflen) (hw : s.wWrite i = true)
    (hr : s.wRead i = false) :
  s.fill + 1 < 2 ^ lgflen
  := by
  have hlt := s.fill_lt
  have hfull := h.overflow_iff
  have hempty := h.underflow_iff
  simp only [wWrite, wRead, oEmptyN] at hw hr
  grind

/-- The number of words held after a clock. -/
theorem step_fill (h : s.Inv rxfifo) (hpos : 1 < 2 ^ lgflen) (hi : i.iReset = false) :
  (s.step rxfifo i).fill
    = s.fill + (if s.wWrite i then 1 else 0) - (if s.wRead i then 1 else 0)
  := by
  simp only [fill, step, hi, Bool.false_eq_true, if_false]
  cases hw : s.wWrite i with
  | false =>
      cases hr : s.wRead i with
      | false => rfl
      | true => apply toNat_sub_succ s.wrAddr s.rdAddr (wRead_fill h hr)
  | true =>
      cases hr : s.wRead i with
      | false => apply toNat_succ_sub s.wrAddr s.rdAddr (wWrite_fill h hpos hw hr)
      | true =>
          have hsame : s.wrAddr + 1 - (s.rdAddr + 1) = s.wrAddr - s.rdAddr := by ring
          simp only [if_true, hsame]
          rfl

theorem rNext_eq_iff (h : s.Inv rxfifo) (hfill : s.fill ≠ 0) :
  s.rNext = s.wrAddr ↔ s.fill = 1
  := by
  have hpop := toNat_sub_succ s.wrAddr s.rdAddr hfill
  rw [h.rNext, eq_comm, ← sub_eq_zero_iff, hpop]
  unfold fill at hfill ⊢
  omega

theorem wrAddr_add_two_iff (hpos : 1 < 2 ^ lgflen) (hroom : s.fill + 1 < 2 ^ lgflen) :
  s.wrAddr + 2 = s.rdAddr ↔ s.fill + 2 = 2 ^ lgflen
  := by
  have htwo : s.wrAddr + 2 = s.wrAddr + 1 + 1 := by ring
  rw [htwo, add_one_eq_iff hpos, toNat_succ_sub s.wrAddr s.rdAddr hroom]
  rfl

theorem step_underflow (h : s.Inv rxfifo) (hpos : 1 < 2 ^ lgflen) (hi : i.iReset = false) :
  (s.step rxfifo i).willUnderflow = true ↔ (s.step rxfifo i).fill = 0
  := by
  rw [step_fill h hpos hi]
  have hlast := rNext_eq_iff h
  have hread := wRead_fill h (i := i)
  have hempty := h.underflow_iff
  have hfull := h.overflow_iff
  simp only [step, hi, wWrite, wRead, oEmptyN] at hread ⊢
  grind

theorem step_overflow (h : s.Inv rxfifo) (hpos : 2 < 2 ^ lgflen) (hi : i.iReset = false) :
  (s.step rxfifo i).willOverflow = true ↔ (s.step rxfifo i).fill + 1 = 2 ^ lgflen
  := by
  have hone : 1 < 2 ^ lgflen := by omega
  rw [step_fill h hone hi]
  have hlt := s.fill_lt
  have hadd : s.wrAddr + 1 = s.rdAddr ↔ s.fill + 1 = 2 ^ lgflen := add_one_eq_iff hone _ _
  have htwo := wrAddr_add_two_iff (s := s) hone
  have hread := wRead_fill h (i := i)
  have hempty := h.underflow_iff
  have hfull := h.overflow_iff
  simp only [step, hi, wWrite, wRead, oEmptyN] at hread ⊢
  grind

/-- The write pointer is the end of the words held. -/
theorem rdAddr_add_fill (s : Ufifo α lgflen) :
  s.rdAddr + BitVec.ofNat lgflen s.fill = s.wrAddr
  := by
  rw [fill, BitVec.ofNat_toNat, BitVec.setWidth_eq]
  ring

theorem rdAddr_ne (s : Ufifo α lgflen) (hfill : s.fill ≠ 0) :
  s.rdAddr ≠ s.wrAddr
  := by
  intro heq
  apply hfill
  rw [fill, sub_eq_zero_iff, heq]

theorem step_rFill (h : s.Inv rxfifo) (hi : i.iReset = false) :
  (s.step rxfifo i).rFill
    = if rxfifo then (s.step rxfifo i).wrAddr - (s.step rxfifo i).rdAddr
      else -1 - ((s.step rxfifo i).wrAddr - (s.step rxfifo i).rdAddr)
  := by
  simp only [step, hi, h.rFill, Bool.false_eq_true, if_false]
  cases rxfifo <;> cases s.wWrite i <;> cases s.wRead i <;>
    simp only [Bool.false_eq_true, if_false, if_true] <;> ring

/-- The word shown after a clock is the oldest one. -/
theorem step_oData (h : s.Inv rxfifo) (hpos : 1 < 2 ^ lgflen) (hi : i.iReset = false)
    (hfill : (s.step rxfifo i).fill ≠ 0) :
  (s.step rxfifo i).oData = (s.step rxfifo i).fifo (s.step rxfifo i).rdAddr
  := by
  rw [step_fill h hpos hi] at hfill
  have hempty := h.underflow_iff
  have hlast := rNext_eq_iff h
  have hwr : s.fill = 0 → s.rdAddr = s.wrAddr := fun hzero =>
    ((sub_eq_zero_iff s.wrAddr s.rdAddr).mp hzero).symm
  have hkeep : ∀ {a}, a ≠ s.wrAddr →
      (if s.wWrite i then Function.update s.fifo s.wrAddr i.iData else s.fifo) a = s.fifo a := by
    intro a ha
    split
    · apply Function.update_of_ne ha
    · rfl
  simp only [step, hi, oData, Bool.false_eq_true, if_false, bypass]
  by_cases hheld : s.fill = 0
  · -- nothing is held: the word shown is the one written at this clock
    have hnone : s.oEmptyN = false := by simp [oEmptyN, hempty.mpr hheld]
    have hread : s.wRead i = false := by simp [wRead, hnone]
    have hwrite : s.wWrite i = true := by
      by_contra hno
      simp [hheld, hno] at hfill
    have hwr' : i.iWr = true := by
      simp only [wWrite, Bool.and_eq_true] at hwrite
      apply hwrite.1
    simp [hnone, hread, hwrite, hwr', hwr hheld]
  · have hsome : s.oEmptyN = true := by
      have : s.willUnderflow = false := by grind
      simp [oEmptyN, this]
    by_cases hread : s.wRead i = true
    · have hrd : i.iRd = true := by
        simp only [wRead, Bool.and_eq_true] at hread
        apply hread.1
      by_cases hone : s.fill = 1
      · -- the last word is read: the word shown is the one written at this clock
        have hnext := (hlast hheld).mpr hone
        have hwrite : s.wWrite i = true := by
          by_contra hno
          simp [hone, hread, hno] at hfill
        have hwr' : i.iWr = true := by
          simp only [wWrite, Bool.and_eq_true] at hwrite
          apply hwrite.1
        rw [← h.rNext]
        simp [hwr', hnext, hwrite, hread]
      · have hnext : s.rNext ≠ s.wrAddr := fun heq => hone ((hlast hheld).mp heq)
        rw [← h.rNext]
        simp [hsome, hrd, hread, hnext, hkeep hnext]
    · rw [Bool.not_eq_true] at hread
      have hrd : i.iRd = false := by simpa [wRead, hsome] using hread
      have hshown := h.oData hheld
      rw [oData] at hshown
      simp [hsome, hrd, hread, hshown, hkeep (s.rdAddr_ne hheld)]

theorem step_inv (h : s.Inv rxfifo) (hlg : 2 ≤ lgflen) (hi : i.iReset = false) :
  (s.step rxfifo i).Inv rxfifo
  := by
  have hfour : 2 ^ 2 ≤ 2 ^ lgflen := Nat.pow_le_pow_right (by omega) hlg
  constructor
  · simp only [step, hi, h.rNext, Bool.false_eq_true, if_false]
    split
    · ring
    · rfl
  · apply step_underflow h (by omega) hi
  · apply step_overflow h (by omega) hi
  · apply step_oData h (by omega) hi
  · apply step_rFill h hi

/-- Words that end at the write pointer are followed, after a clock, by the one written. -/
theorem slots_accepted (s : Ufifo α lgflen) (i : Input α) {r : BitVec lgflen} {k : ℕ}
    (hend : r + BitVec.ofNat lgflen k = s.wrAddr) (hk : k < 2 ^ lgflen) :
  slots (s.step rxfifo i).fifo r (k + if s.wWrite i then 1 else 0)
    = slots s.fifo r k ++ s.accepted i
  := by
  simp only [step, accepted, wWrite_eq]
  cases s.wWrite i with
  | false => simp
  | true =>
      simp only [if_true]
      rw [slots_snoc, ← hend, slots_update _ _ hk, Function.update_self]

/-- What is read is the oldest word held, and what is written is held behind the others. -/
theorem step_contents (h : s.Inv rxfifo) (hpos : 1 < 2 ^ lgflen) (hi : i.iReset = false) :
  s.popped i ++ (s.step rxfifo i).contents = s.contents ++ s.accepted i
  := by
  have hend := s.rdAddr_add_fill
  have hrd : (s.step rxfifo i).rdAddr = if s.wRead i then s.rdAddr + 1 else s.rdAddr := by
    simp [step, hi]
  have hpopped : s.popped i = if s.wRead i then [s.oData] else [] := rfl
  rw [hpopped, contents, contents, step_fill h hpos hi, hrd]
  cases hread : s.wRead i with
  | false => apply slots_accepted s i hend s.fill_lt
  | true =>
      have hheld := wRead_fill h hread
      have hlt := s.fill_lt
      rw [h.oData hheld]
      obtain ⟨k, hk⟩ := Nat.exists_eq_succ_of_ne_zero hheld
      rw [hk] at hend hlt ⊢
      have hend' : s.rdAddr + 1 + BitVec.ofNat lgflen k = s.wrAddr := by
        rw [← hend, Nat.succ_eq_add_one, BitVec.ofNat_add, BitVec.add_assoc, BitVec.add_comm 1]
        rfl
      have hcount : k.succ + (if s.wWrite i then 1 else 0) - 1
          = k + if s.wWrite i then 1 else 0 := by omega
      simp only [if_true, hcount]
      rw [slots_accepted s i hend' (Nat.lt_of_succ_lt hlt), slots_cons]
      rfl

/-! ### Reset -/

theorem fill_step_of_reset (hi : i.iReset = true) :
  (s.step rxfifo i).fill = 0
  := by simp [fill, step, hi]

theorem step_inv_of_reset (hpos : 1 < 2 ^ lgflen) (hi : i.iReset = true) :
  (s.step rxfifo i).Inv rxfifo
  := by
  constructor
  · simp [step, hi]
  · rw [fill_step_of_reset hi]
    simp [step, hi]
  · rw [fill_step_of_reset hi]
    simp [step, hi, hpos.ne]
  · rw [fill_step_of_reset hi]
    simp
  · simp [step, hi, emptyFill]

/-! ### Outputs -/

theorem length_contents (s : Ufifo α lgflen) :
  s.contents.length = s.fill
  := length_slots _ _ _

/-- The word shown is the oldest one held. -/
theorem contents_head (h : s.Inv rxfifo) :
  s.contents.head? = if s.oEmptyN then some s.oData else none
  := by
  have hempty := h.underflow_iff
  rcases Nat.eq_zero_or_pos s.fill with hzero | hheld
  · simp [contents, hzero, oEmptyN, hempty.mpr hzero]
  · have hsome : s.oEmptyN = true := by
      have : s.willUnderflow = false := by grind
      simp [oEmptyN, this]
    obtain ⟨k, hk⟩ := Nat.exists_eq_succ_of_ne_zero hheld.ne'
    rw [contents, hk, slots_cons, hsome, if_pos rfl, h.oData hheld.ne']
    rfl

/-- A write is refused exactly when the FIFO is full and nothing is read. -/
theorem oErr_iff (h : s.Inv rxfifo) :
  s.oErr i = true ↔ i.iWr = true ∧ s.fill + 1 = 2 ^ lgflen ∧ i.iRd = false
  := by
  rw [← h.overflow_iff]
  simp only [oErr, wWrite]
  grind

/-- The fill field counts the words held, or those that can still be written. -/
theorem fillField_oStatus (h : s.Inv rxfifo) (hlg : lgflen ≤ 10) :
  fillField (s.oStatus rxfifo)
    = if rxfifo then s.fill else 2 ^ lgflen - 1 - s.fill
  := by
  have hlt := s.fill_lt
  have hfield : (s.oStatus rxfifo).extractLsb' 2 10 = s.rFill.setWidth 10 := by
    rw [oStatus, extract_append_high _ _ (by omega), extract_append_high _ _ (by omega),
      extract_append_low _ _ (by omega)]
    apply extract_all
  have hle : 2 ^ lgflen ≤ 2 ^ 10 := Nat.pow_le_pow_right (by omega) hlg
  have hrFill := s.rFill.isLt
  rw [fillField, hfield, BitVec.toNat_setWidth, Nat.mod_eq_of_lt (by omega), h.rFill]
  cases rxfifo with
  | true => rfl
  | false =>
      have hones : (-1 : BitVec lgflen) = BitVec.allOnes lgflen := BitVec.neg_one_eq_allOnes
      rw [if_neg Bool.false_ne_true, hones, BitVec.allOnes_sub_eq_not, BitVec.toNat_not]
      rfl

end Step

/-! ### Runs -/

section Runs

variable (rxfifo : Bool) (s₀ : Ufifo α lgflen) (inp : ℕ → Input α)

/-- The words accepted since the last reset before clock `n`. -/
def written (n : ℕ) : List α :=
  logSince (fun k => (inp k).iReset) (fun k => (run (step rxfifo) s₀ inp k).accepted (inp k)) n

/-- The words read since the last reset before clock `n`. -/
def returned (n : ℕ) : List α :=
  logSince (fun k => (inp k).iReset) (fun k => (run (step rxfifo) s₀ inp k).popped (inp k)) n

/-- The words accepted and not yet read before clock `n`. -/
def unread (n : ℕ) : List α :=
  (written rxfifo s₀ inp n).drop (returned rxfifo s₀ inp n).length

/-- What makes the run from `s₀` on `inp` that of a FIFO that shows its oldest word. -/
structure ShowsOldest : Prop where
  /-- The words read are those accepted, in order. -/
  faithful : ∀ n, returned rxfifo s₀ inp n ++ unread rxfifo s₀ inp n = written rxfifo s₀ inp n
  /-- The word shown is the oldest one that has not been read; none is shown when there is
  none. -/
  shows : ∀ n, (unread rxfifo s₀ inp n).head?
    = if (run (step rxfifo) s₀ inp n).oEmptyN then some (run (step rxfifo) s₀ inp n).oData
      else none
  /-- A write is refused exactly when the FIFO is full and nothing is read. -/
  refuses : ∀ n, (run (step rxfifo) s₀ inp n).oErr (inp n) = true
    ↔ (inp n).iWr = true ∧ (unread rxfifo s₀ inp n).length = 2 ^ lgflen - 1
      ∧ (inp n).iRd = false
  /-- The fill field counts the words held, or those that can still be written. -/
  status : ∀ n, fillField ((run (step rxfifo) s₀ inp n).oStatus rxfifo)
    = if rxfifo then (unread rxfifo s₀ inp n).length
      else 2 ^ lgflen - 1 - (unread rxfifo s₀ inp n).length

variable {rxfifo} {s₀} {inp}

theorem run_inv (hlg : 2 ≤ lgflen) (h₀ : s₀.Inv rxfifo) (n : ℕ) :
  (run (step rxfifo) s₀ inp n).Inv rxfifo
  := by
  apply run_induction h₀
  intro n s hs
  cases hi : (inp n).iReset with
  | true => apply step_inv_of_reset (Nat.one_lt_two_pow (by omega)) hi
  | false => apply step_inv hs hlg hi

/-- What has not been read is in the memory. -/
theorem unread_eq_contents (hlg : 2 ≤ lgflen) (h₀ : s₀.Inv rxfifo) (hempty : s₀.contents = [])
    (n : ℕ) :
  returned rxfifo s₀ inp n ++ (run (step rxfifo) s₀ inp n).contents = written rxfifo s₀ inp n
    ∧ unread rxfifo s₀ inp n = (run (step rxfifo) s₀ inp n).contents
  := by
  have hpos : 1 < 2 ^ lgflen := Nat.one_lt_two_pow (by omega)
  have heq : returned rxfifo s₀ inp n ++ (run (step rxfifo) s₀ inp n).contents
      = written rxfifo s₀ inp n := by
    apply logSince_eq
    · apply hempty
    · intro k hk
      rw [run_succ, contents, fill_step_of_reset hk, slots_zero]
    · intro k hk
      apply step_contents (run_inv hlg h₀ k) hpos hk
  use heq
  rw [unread, ← heq, List.drop_left]

end Runs

/-- `ufifo` shows the oldest word it holds, whatever it is written, read and reset. -/
theorem showsOldest (rxfifo : Bool) (hlg : 2 ≤ lgflen) (hlg' : lgflen ≤ 10)
    (fifo : BitVec lgflen → α) (rData lastWrite : α) (inp : ℕ → Input α) :
  ShowsOldest rxfifo (initial rxfifo fifo rData lastWrite) inp
  := by
  have hpos : 1 < 2 ^ lgflen := Nat.one_lt_two_pow (by omega)
  have h₀ : (initial rxfifo fifo rData lastWrite).Inv rxfifo :=
    initial_inv hpos fifo rData lastWrite
  have hempty : (initial rxfifo fifo rData lastWrite).contents = [] := by
    simp [contents, fill, initial]
  have hinv := @run_inv _ _ rxfifo _ inp hlg h₀
  have hunread := @unread_eq_contents _ _ rxfifo _ inp hlg h₀ hempty
  constructor
  · intro n
    rw [(hunread n).2, (hunread n).1]
  · intro n
    rw [(hunread n).2, contents_head (hinv n)]
  · intro n
    rw [(hunread n).2, length_contents, oErr_iff (hinv n)]
    have hlt := (run (step rxfifo) (initial rxfifo fifo rData lastWrite) inp n).fill_lt
    grind
  · intro n
    rw [(hunread n).2, length_contents, fillField_oStatus (hinv n) hlg']

/-- A transmit FIFO of sixteen bytes, written and read at every clock. -/
theorem showsOldest_transmit :
  ShowsOldest false (initial false (fun _ : BitVec 4 => 0#8) 0 0)
    (fun n => ⟨false, true, BitVec.ofNat 8 n, true⟩)
  := showsOldest false (by decide) (by decide) _ _ _ _

end Ufifo

end ZBasic
