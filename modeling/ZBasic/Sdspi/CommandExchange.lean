import Mathlib.Data.List.GetD
import Mathlib.Data.Nat.Count
import Mathlib.Tactic.IntervalCases
import ZBasic.Clocked.Counter
import ZBasic.Clocked.Crc
import ZBasic.Clocked.Run
import ZBasic.Sdspi.Spicmd

/-!
# Exchanging a command with the card

From an idle `spicmd`, a command is sent with its checksum, its response is received, and then
`spicmd` is idle again.
-/

namespace ZBasic

open Clocked

namespace Spicmd

/-! ### What is sent -/

/-- The first five bytes of a command. -/
def commandBytes (cmd : BitVec 6) (arg : BitVec 32) : List (BitVec 8) :=
  [1#2 ++ cmd, arg.extractLsb' 24 8, arg.extractLsb' 16 8, arg.extractLsb' 8 8,
    arg.extractLsb' 0 8]

/-- The checksum of a command, with the polynomial `x^7 + x^3 + 1`. -/
def crc7 (bs : List (BitVec 8)) : BitVec 7 := crcOfBytes 0x09#7 bs

/-- The six bytes of a command. -/
def commandFrame (cmd : BitVec 6) (arg : BitVec 32) : List (BitVec 8) :=
  commandBytes cmd arg ++ [crc7 (commandBytes cmd arg) ++ 1#1]

example : commandFrame 0 0 = [0x40, 0, 0, 0, 0, 0x95] := by decide +kernel

/-- The command as it is loaded. -/
def command (cmd : BitVec 6) (arg : BitVec 32) : BitVec 40 := 1#2 ++ cmd ++ arg

theorem extract_command (cmd : BitVec 6) (arg : BitVec 32) {j : ℕ} (hj : j < 5) :
  (command cmd arg).extractLsb' (32 - 8 * j) 8 = (commandBytes cmd arg).getD j 0xff
  := by
  have hhigh : (command cmd arg).extractLsb' 32 8 = 1#2 ++ cmd := by
    rw [command, extract_append_high _ _ (by decide), extract_all]
  have hlow : ∀ a, a + 8 ≤ 32 → (command cmd arg).extractLsb' a 8 = arg.extractLsb' a 8 := by
    intro a ha
    rw [command, extract_append_low _ _ ha]
  interval_cases j
  · apply hhigh
  · apply hlow 24 (by decide)
  · apply hlow 16 (by decide)
  · apply hlow 8 (by decide)
  · apply hlow 0 (by decide)

/-- The bits of the command are those of its five bytes. -/
theorem bitsOf_command (cmd : BitVec 6) (arg : BitVec 32) :
  bitsOf (command cmd arg) = (commandBytes cmd arg).flatMap bitsOf
  := by
  have hbyte : ∀ j < 5, (bitsOf (command cmd arg)).take (8 * j + 8)
      = (bitsOf (command cmd arg)).take (8 * j)
        ++ bitsOf ((commandBytes cmd arg).getD j 0xff) := by
    intro j hj
    rw [take_bitsOf_add (b := 32 - 8 * j) _ (by omega), extract_command cmd arg hj]
  rw [← take_bitsOf, hbyte 4 (by decide), hbyte 3 (by decide), hbyte 2 (by decide),
    hbyte 1 (by decide), hbyte 0 (by decide)]
  simp [commandBytes]

/-- Two bits of the command come into the checksum. -/
theorem nextCrcByte_eq (s : Spicmd) (c : BitVec 7) (h : s.crcByte = c ++ 1#1) :
  s.nextCrcByte
    = crcBit 0x09 (crcBit 0x09 c (s.crcShiftReg.getLsbD 39)) (s.crcShiftReg.getLsbD 38)
  := by
  have htop : s.crcByte.getLsbD 7 = c.msb := by
    rw [h, BitVec.getLsbD_append, if_neg (by decide), BitVec.msb_eq_getLsbD_last]
  have hshift : s.crcByte.extractLsb' 1 6 ++ 0#1 = c <<< 1 := by
    ext i hi
    rw [h, BitVec.getElem_append]
    cases i with
    | zero => simp
    | succ i =>
        rw [dif_neg (by omega), BitVec.getElem_extractLsb', BitVec.getLsbD_append,
          if_neg (by omega), BitVec.getElem_shiftLeft]
        simp only [show ¬ i + 1 < 1 by omega, decide_false, Bool.not_false, Bool.true_and,
          Nat.add_sub_cancel, Nat.add_sub_cancel_left]
        apply BitVec.getLsbD_eq_getElem
  have hmsb : ∀ v : BitVec 7, v.getLsbD 6 = v.msb := fun v => (BitVec.msb_eq_getLsbD_last v).symm
  rw [nextCrcByte]
  simp only [htop, hshift, hmsb]
  rfl

/-- What is in the place `j` of the bytes to be sent once `k` bytes have been handed over. -/
def pending (cmd : BitVec 6) (arg : BitVec 32) (k j : ℕ) : BitVec 8 :=
  if k + j < 5 then (commandBytes cmd arg).getD (k + j) 0xff
  else if k = 5 ∧ j = 0 then crc7 (commandBytes cmd arg) ++ 1#1
  else 0xff

theorem pending_zero (cmd : BitVec 6) (arg : BitVec 32) (k : ℕ) :
  pending cmd arg k 0 = (commandFrame cmd arg).getD k 0xff
  := by
  have hlen : (commandBytes cmd arg).length = 5 := rfl
  rw [pending, commandFrame]
  split_ifs with h₁ h₂
  · rw [List.getD_append _ _ _ _ (by omega)]
    rfl
  · rw [h₂.1]
    rfl
  · rw [List.getD_eq_default]
    rw [List.length_append, hlen, List.length_singleton]
    omega

theorem extract_shiftData (a : BitVec 8) (x : BitVec 40) {j : ℕ} (hj : j < 5) :
  (a ++ x.extractLsb' 0 24 ++ 0xff#8).extractLsb' (32 - 8 * j) 8
    = if j = 0 then a else if j = 4 then 0xff else x.extractLsb' (32 - 8 * (j + 1)) 8
  := by
  split_ifs with h₁ h₂
  · rw [h₁, extract_append_high _ _ (by decide), extract_append_high _ _ (by decide), extract_all]
  · rw [h₂, extract_append_low _ _ (by decide), extract_all]
    rfl
  · rw [extract_append_high _ _ (by omega), extract_append_low _ _ (by omega),
      extract_extract _ (by omega)]
    congr 1
    omega

/-- The registers once `k` bytes have been handed over, `t` clocks after the command came. -/
structure Sending (cmd : BitVec 6) (arg : BitVec 32) (k t : ℕ) (s : Spicmd) : Prop where
  crcValidSreg : s.crcValidSreg = 0x10#5 >>> k
  oCmdSent : s.oCmdSent = decide (6 ≤ k)
  almostSent : s.almostSent = decide (k = 5)
  shiftData : ∀ j < 5, s.shiftData.extractLsb' (32 - 8 * j) 8 = pending cmd arg k j
  crcBusy : s.crcBusy = decide (t < 20)
  crcBitCounter : s.crcBitCounter.toNat = 20 - t
  crcShiftReg : s.crcShiftReg = command cmd arg <<< (2 * min t 20)
  crcByte : s.crcByte = crcOf 0x09#7 ((bitsOf (command cmd arg)).take (2 * min t 20)) ++ 1#1

theorem sending_start {s : Spicmd} {i : Input} (hbusy : s.oBusy = false)
    (hstb : i.iCmdStb = true) :
  (s.step i).Sending i.iCmd i.iCmdData 0 0
  := by
  constructor
  · simp [step, hbusy]
  · simp [step, hbusy]
  · simp [step, hbusy]
  · intro j hj
    rw [pending, if_pos (by omega), Nat.zero_add, ← extract_command _ _ hj]
    simp [step, hbusy, hstb, command]
  · simp [step, hbusy, hstb]
  · simp [step, hbusy]
  · simp [step, hbusy, command]
  · simp [step, hbusy, crcOf]

section Step

variable {cmd : BitVec 6} {arg : BitVec 32} {k t : ℕ} {s : Spicmd} {i : Input}
  (h : s.Sending cmd arg k t) (hbusy : s.oBusy = true)
include h hbusy

/-- The checksum takes two bits at each of its twenty clocks. -/
theorem Sending.crc_step :
  (s.step i).crcBusy = decide (t + 1 < 20) ∧ (s.step i).crcBitCounter.toNat = 20 - (t + 1)
    ∧ (s.step i).crcShiftReg = command cmd arg <<< (2 * min (t + 1) 20)
    ∧ (s.step i).crcByte
      = crcOf 0x09#7 ((bitsOf (command cmd arg)).take (2 * min (t + 1) 20)) ++ 1#1
  := by
  have hcount := h.crcBitCounter
  rcases Nat.lt_or_ge t 20 with hlt | hge
  · have hcrc : s.crcBusy = true := by rw [h.crcBusy, decide_eq_true hlt]
    have hmin : min t 20 = t := Nat.min_eq_left (Nat.le_of_lt hlt)
    have hmin' : min (t + 1) 20 = t + 1 := Nat.min_eq_left hlt
    have hbit : ∀ k < 2,
        s.crcShiftReg.getLsbD (39 - k) = (command cmd arg).getMsbD (2 * t + k) := by
      intro k hk
      rw [h.crcShiftReg, hmin, BitVec.getLsbD_shiftLeft, BitVec.getMsbD]
      simp only [show 39 - k < 40 by omega, show ¬ 39 - k < 2 * t by omega,
        show 2 * t + k < 40 by omega, decide_true, decide_false, Bool.not_false, Bool.true_and,
        show 39 - k - 2 * t = 40 - 1 - (2 * t + k) by omega]
    refine ⟨?_, ?_, ?_, ?_⟩
    · simp only [Spicmd.step, hbusy, hcrc, gt_iff_lt, BitVec.lt_def]
      simp [hcount]
      omega
    · simp only [Spicmd.step, hbusy, hcrc, Bool.not_true, Bool.false_eq_true, if_false, if_true]
      rw [toNat_pred (by omega), hcount]
      omega
    · rw [hmin', Nat.mul_add, BitVec.shiftLeft_add]
      simp [Spicmd.step, hbusy, hcrc, h.crcShiftReg, hmin]
    · have hnext := nextCrcByte_eq s _ h.crcByte
      rw [hbit 0 (by decide), hbit 1 (by decide), hmin] at hnext
      have htwo := crcOf_take_two 0x09#7 (command cmd arg) [] (k := 2 * t) (by omega)
      rw [List.nil_append, List.nil_append] at htwo
      rw [hmin', show 2 * (t + 1) = 2 * t + 2 by omega, htwo]
      simp [Spicmd.step, hbusy, hcrc, hnext]
  · have hcrc : s.crcBusy = false := by rw [h.crcBusy, decide_eq_false (Nat.not_lt.mpr hge)]
    have hmin : min t 20 = min (t + 1) 20 := by omega
    refine ⟨?_, ?_, ?_, ?_⟩
    · simp [Spicmd.step, hbusy, hcrc]
      omega
    · simp [Spicmd.step, hbusy, hcrc, hcount]
      omega
    · simp [Spicmd.step, hbusy, hcrc, h.crcShiftReg, hmin]
    · simp [Spicmd.step, hbusy, hcrc, h.crcByte, hmin]

/-- A byte is handed over where the lower level takes one. -/
theorem Sending.step (hreset : i.iReset = false) (hcrc : k = 4 → i.iLlBusy = false → 20 ≤ t) :
  (s.step i).Sending cmd arg (if i.iLlBusy then k else k + 1) (t + 1)
  := by
  obtain ⟨hcrcBusy, hcounter, hshift, hbyte⟩ := h.crc_step hbusy (i := i)
  cases hll : i.iLlBusy with
  | true =>
      constructor
      · simp [Spicmd.step, hbusy, hll, h.crcValidSreg]
      · simp [Spicmd.step, hbusy, hll, hreset, h.oCmdSent]
      · simp [Spicmd.step, hbusy, hll, hreset, h.almostSent]
      · simpa [Spicmd.step, hbusy, hll] using h.shiftData
      · apply hcrcBusy
      · apply hcounter
      · apply hshift
      · apply hbyte
  | false =>
      have hlast : s.crcValidSreg.getLsbD 0 = decide (k = 4) := by
        rw [h.crcValidSreg, BitVec.getLsbD_ushiftRight, Nat.add_zero]
        rcases Nat.lt_or_ge k 5 with hk | hk
        · interval_cases k <;> rfl
        · rw [BitVec.getLsbD_of_ge _ _ hk, decide_eq_false (by omega)]
      rw [if_neg Bool.false_ne_true]
      constructor
      · simp [Spicmd.step, hbusy, hll, h.crcValidSreg, BitVec.shiftRight_add]
      · simp only [Spicmd.step, hbusy, hll, hreset, h.oCmdSent, h.almostSent]
        grind
      · simp only [Spicmd.step, hbusy, hll, hreset, h.oCmdSent, h.almostSent, hlast]
        grind
      · intro j hj
        have hnext : (s.step i).shiftData
            = (if s.crcValidSreg.getLsbD 0 then s.crcByte else s.shiftData.extractLsb' 24 8)
              ++ s.shiftData.extractLsb' 0 24 ++ 0xff#8 := by
          simp [Spicmd.step, hbusy, hll]
        rw [hnext, extract_shiftData _ _ hj, hlast]
        by_cases hj₀ : j = 0
        · by_cases hk : k = 4
          · -- The checksum is ready when its turn has come.
            have hmin : 2 * min t 20 = 40 := by
              have := hcrc hk hll
              omega
            rw [if_pos hj₀, if_pos (decide_eq_true hk), h.crcByte, hmin, take_bitsOf,
              bitsOf_command, pending, if_neg (by omega), if_pos (by omega)]
            rfl
          · have hplace := h.shiftData 1 (by decide)
            rw [show 32 - 8 * 1 = 24 by omega] at hplace
            rw [if_pos hj₀, if_neg (by simpa using hk), hplace, pending, pending]
            grind
        · rw [if_neg hj₀]
          split_ifs with hj₄
          · rw [pending, if_neg (by omega), if_neg (by omega)]
          · rw [h.shiftData (j + 1) (by omega), pending, pending]
            grind
      · apply hcrcBusy
      · apply hcounter
      · apply hshift
      · apply hbyte

end Step

/-! ### What is received -/

/-- The lower bytes of `o_response` once the bytes `bs` have come in after `R1`. -/
def tailWord (bs : List (BitVec 8)) : BitVec 32 :=
  bs.foldl (fun word b => word.extractLsb' 0 24 ++ b) (BitVec.allOnes 32)

theorem tailWord_snoc (bs : List (BitVec 8)) (b : BitVec 8) :
  tailWord (bs ++ [b]) = (tailWord bs).extractLsb' 0 24 ++ b
  := by rw [tailWord, tailWord, List.foldl_concat]

theorem tailWord_four (b₁ b₂ b₃ b₄ : BitVec 8) :
  tailWord [b₁, b₂, b₃, b₄] = b₁ ++ b₂ ++ b₃ ++ b₄
  := by
  have hall : ∀ x : BitVec 32,
      ((((x.extractLsb' 0 24 ++ b₁).extractLsb' 0 24 ++ b₂).extractLsb' 0 24
        ++ b₃).extractLsb' 0 24 ++ b₄ : BitVec 32) = b₁ ++ b₂ ++ b₃ ++ b₄ := by
    intro x
    ext i hi
    simp only [BitVec.getElem_append, BitVec.getElem_extractLsb', BitVec.getLsbD_append,
      BitVec.getLsbD_extractLsb']
    grind
  apply hall

/-- What `o_response` holds below `R1`. -/
theorem extract_oResponse_low {ty : BitVec 2} {bs : List (BitVec 8)} {s : Spicmd} {i : Input}
    (h : s.Answering ty bs) (hbusy : s.oBusy = true)
    (hlow : s.oResponse.extractLsb' 0 32 = tailWord (afterR1 bs)) :
  (s.step i).oResponse.extractLsb' 0 32 = tailWord (afterR1 (bs ++ s.heard i))
  := by
  cases hstb : i.iLlStb with
  | false =>
      have hheard : s.heard i = [] := by simp [heard, responds, hstb]
      rw [hheard, List.append_nil]
      simpa [step, hbusy, hstb] using hlow
  | true =>
      cases hr : s.rxR1Byte with
      | false =>
          have hkeep : (s.step i).oResponse.extractLsb' 0 32 = s.oResponse.extractLsb' 0 32 := by
            simp [step, hbusy, hstb, hr]
            rw [extract_append_low _ _ (by decide), extract_all]
          have hnone : (r1 bs).isSome = false := by rw [← h.r1, hr]
          have hafter : afterR1 (bs ++ s.heard i) = [] := by
            rw [heard]
            split_ifs
            · rw [afterR1_snoc, hnone, if_neg Bool.false_ne_true]
            · rw [List.append_nil, afterR1_eq_nil hnone]
          rw [hkeep, hlow, hafter, afterR1_eq_nil hnone]
      | true =>
          have hsent : s.oCmdSent = true := by
            rw [← Bool.not_eq_false]
            intro hsent
            rw [h.r1, h.sent hsent] at hr
            cases hr
          have hheard : s.heard i = [i.iLlByte] := by simp [heard, responds, hstb, hsent]
          have hsome : (r1 bs).isSome = true := by rw [← h.r1, hr]
          rw [hheard, afterR1_snoc, if_pos hsome, tailWord_snoc, ← hlow,
            extract_extract _ (by decide)]
          have hnext : (s.step i).oResponse
              = s.oResponse.extractLsb' 32 8 ++ s.oResponse.extractLsb' 0 24 ++ i.iLlByte := by
            simp [step, hbusy, hstb, hr]
          rw [hnext]
          ext j hj
          simp only [BitVec.getElem_extractLsb', BitVec.getLsbD_append, BitVec.getLsbD_extractLsb']
          grind

/-! ### The exchange -/

section Runs

variable (s₀ : Spicmd) (inp : ℕ → Input) (m : ℕ)

/-- The bytes that have been handed over before clock `n` since the command came at clock `m`. -/
def handed (n : ℕ) : ℕ := Nat.count (fun j => m < j ∧ (inp j).iLlBusy = false) n

/-- The bytes that have come in before clock `n` since the six bytes of the command were handed
over. -/
def received : ℕ → List (BitVec 8) :=
  log fun j => if 6 ≤ handed inp m j && (inp j).iLlStb then [(inp j).iLlByte] else []

/-- The response is not complete before clock `n`. -/
def Open (n : ℕ) : Prop := ∀ j < n, complete (inp m).iCmdType (received inp m j) = false

/-- A command comes in at clock `m`, and until clock `b` there is no reset, and the lower level
takes and gives bytes at least eight clocks apart; only the first byte may be taken sooner before
the second one. -/
structure Asked (b : ℕ) : Prop where
  idle : (run step s₀ inp m).oBusy = false
  command : (inp m).iCmdStb = true
  noReset : ∀ n, m ≤ n → n < b → (inp n).iReset = false
  takes : ∀ j n n', m < j → j < n → n < n' → n' < b → (inp j).iLlBusy = false →
    (inp n).iLlBusy = false → (inp n').iLlBusy = false → n + 8 ≤ n'
  gives : ∀ n n', m ≤ n → n < n' → n' < b → (inp n).iLlStb = true → (inp n').iLlStb = true →
    n + 8 ≤ n'

/-- What is shown of a response for which the bytes `bs` have come in. -/
structure Shows (bs : List (BitVec 8)) (response : BitVec 40) : Prop where
  /-- `R1`, the first byte whose top bit is clear, is at the top. -/
  top : r1 bs = some (response.extractLsb' 32 8)
  /-- The next four bytes are below it, for the types that have them. -/
  below : (inp m).iCmdType.getLsbD 1 = true →
    ∃ b₁ b₂ b₃ b₄, afterR1 bs = [b₁, b₂, b₃, b₄] ∧ response.extractLsb' 0 32 = b₁ ++ b₂ ++ b₃ ++ b₄
  /-- For the type that waits for it, the card is not busy any more. -/
  released : (inp m).iCmdType = 1#2 → ∃ x ∈ afterR1 bs, x ≠ 0

/-- The exchange of the command that comes in at clock `m`, as far as clock `b`. -/
structure Exchanged (b : ℕ) : Prop where
  /-- The bytes handed over are those of the command, and ones from then on. -/
  sent : ∀ n, m < n → n ≤ b → Open inp m n → (run step s₀ inp n).oLlStb = true
    ∧ (run step s₀ inp n).oLlByte
      = (commandFrame (inp m).iCmd (inp m).iCmdData).getD (handed inp m n) 0xff
  /-- Nothing is shown before the response is complete. -/
  waiting : ∀ n, m < n → n ≤ b → Open inp m n → (run step s₀ inp n).oRxvalid = false
  /-- Once it is, it is shown. -/
  shown : ∀ n, m < n → n < b → Open inp m n →
    complete (inp m).iCmdType (received inp m n) = true →
    (run step s₀ inp (n + 1)).oRxvalid = true
      ∧ Shows inp m (received inp m n) (run step s₀ inp (n + 1)).oResponse
  /-- Then nothing is shown, and the next command may come. -/
  ended : ∀ n n', m < n → n < n' → n' < b → Open inp m n →
    complete (inp m).iCmdType (received inp m n) = true →
    (∀ j, n < j → j < n' → (inp j).iCmdStb = false) →
    (run step s₀ inp n').oBusy = false ∧ (run step s₀ inp (n' + 1)).oRxvalid = false

variable {s₀ inp m} {b : ℕ} (A : Asked s₀ inp m b)
include A

/-- The bytes of the command are handed over slowly. -/
theorem handed_spec {n : ℕ} (hnb : n ≤ b) :
  handed inp m n = 0 ∨ ∃ l < n, m < l ∧ (inp l).iLlBusy = false ∧ (handed inp m n = 1
    ∨ ((∃ j < l, m < j ∧ (inp j).iLlBusy = false) ∧ m + 2 + 8 * (handed inp m n - 2) ≤ l))
  := by
  induction n with
  | zero =>
      left
      rfl
  | succ n ih =>
      have hsucc : handed inp m (n + 1)
          = handed inp m n + if m < n ∧ (inp n).iLlBusy = false then 1 else 0 :=
        Nat.count_succ _ _
      by_cases hnow : m < n ∧ (inp n).iLlBusy = false
      · right
        rw [if_pos hnow] at hsucc
        use n, Nat.lt_succ_self n, hnow.1, hnow.2
        rcases ih (by omega) with hnone | ⟨l, hln, hml, hl, hone | ⟨⟨j, hjl, hmj, hj⟩, hpace⟩⟩
        · left
          omega
        · right
          use ⟨l, hln, hml, hl⟩
          omega
        · right
          have := A.takes j l n hmj hjl hln hnb hj hl hnow.2
          use ⟨l, hln, hml, hl⟩
          omega
      · rw [if_neg hnow, Nat.add_zero] at hsucc
        rw [hsucc]
        rcases ih (by omega) with hnone | ⟨l, hln, hml, hl, hrest⟩
        · left
          apply hnone
        · right
          use l, Nat.lt_succ_of_lt hln, hml, hl, hrest

/-- The checksum is ready when the fifth byte is handed over. -/
theorem crc_ready {n : ℕ} (hmn : m < n) (hnb : n < b) (hk : handed inp m n = 4)
    (hll : (inp n).iLlBusy = false) :
  20 ≤ n - (m + 1)
  := by
  rcases handed_spec A (Nat.le_of_lt hnb) with
    hnone | ⟨l, hln, hml, hl, hone | ⟨⟨j, hjl, hmj, hj⟩, hpace⟩⟩
  · omega
  · omega
  · have := A.takes j l n hmj hjl hln hnb hj hl hll
    omega

omit A in
theorem handed_start : handed inp m (m + 1) = 0
  := by
  rw [handed, Nat.count_iff_forall_not]
  intro j hj hnow
  omega

omit A in
theorem received_start : received inp m (m + 1) = []
  := by
  rw [received, log_eq_of_silent (Nat.zero_le _), log_zero]
  intro j _ hj
  have hnone : handed inp m j = 0 := by
    rw [handed, Nat.count_iff_forall_not]
    intro k hk hnow
    omega
  simp [hnone]

/-- The registers while the response is not complete. -/
theorem exchanging {n : ℕ} (hmn : m < n) (hnb : n ≤ b) (hopen : Open inp m n) :
  (run step s₀ inp n).oBusy = true ∧ (run step s₀ inp n).oRxvalid = false
    ∧ (run step s₀ inp n).Sending (inp m).iCmd (inp m).iCmdData (handed inp m n) (n - (m + 1))
    ∧ (run step s₀ inp n).Answering (inp m).iCmdType (received inp m n)
    ∧ (run step s₀ inp n).oResponse.extractLsb' 0 32 = tailWord (afterR1 (received inp m n))
  := by
  obtain ⟨k, rfl⟩ := Nat.exists_eq_add_of_lt hmn
  clear hmn
  induction k with
  | zero =>
      have hreset := A.noReset m (Nat.le_refl m) hnb
      have hidle := A.idle
      rw [Nat.add_zero, handed_start, received_start, Nat.sub_self, run_succ]
      refine ⟨?_, ?_, sending_start hidle A.command, answering_start hidle rfl, ?_⟩
      · simp [step, hreset, hidle, A.command]
      · simp [step, hidle]
      · simp [step, hidle, afterR1, tailWord]
  | succ k ih =>
      obtain ⟨hbusy, hvalid, hsend, hanswer, hlow⟩ :=
        ih (by omega) (fun j hj => hopen j (by omega))
      have hreset := A.noReset (m + k + 1) (by omega) hnb
      have hdone : (run step s₀ inp (m + k + 1)).done = false := by
        rw [hanswer.done]
        apply hopen _ (Nat.lt_succ_self _)
      have hresponds : (run step s₀ inp (m + k + 1)).heard (inp (m + k + 1))
          = if 6 ≤ handed inp m (m + k + 1) && (inp (m + k + 1)).iLlStb
            then [(inp (m + k + 1)).iLlByte] else [] := by
        rw [heard, responds, hsend.oCmdSent]
      have hheard : received inp m (m + k + 1 + 1)
          = received inp m (m + k + 1)
            ++ (run step s₀ inp (m + k + 1)).heard (inp (m + k + 1)) := by
        rw [hresponds]
        rfl
      have hhanded : handed inp m (m + k + 1 + 1)
          = if (inp (m + k + 1)).iLlBusy then handed inp m (m + k + 1)
            else handed inp m (m + k + 1) + 1 := by
        rw [handed, Nat.count_succ]
        cases hll : (inp (m + k + 1)).iLlBusy with
        | true => simp [handed]
        | false => simp [handed, show m < m + k + 1 by omega]
      rw [← Nat.add_assoc m k 1, run_succ, hheard, hhanded]
      refine ⟨?_, ?_, ?_, ?_, ?_⟩
      · simp [step, hreset, hbusy, hdone]
      · simp [step, hbusy, hdone, hvalid]
      · rw [show m + k + 1 + 1 - (m + 1) = m + k + 1 - (m + 1) + 1 by omega]
        apply hsend.step hbusy hreset
        intro hk hll
        apply crc_ready A (by omega) (by omega) hk hll
      · rw [heard]
        split_ifs with hnow
        · apply hanswer.step_byte hbusy hreset hnow hdone
        · rw [List.append_nil]
          apply hanswer.step_silent hbusy hreset (by simpa using hnow)
      · apply extract_oResponse_low hanswer hbusy hlow

omit A in
theorem received_succ (n : ℕ) : received inp m (n + 1) = received inp m n
    ++ if 6 ≤ handed inp m n && (inp n).iLlStb then [(inp n).iLlByte] else []
  := rfl

omit A in
/-- A response is completed by a byte. -/
theorem completed {n : ℕ} (hmn : m < n) (hopen : Open inp m n)
    (hcomplete : complete (inp m).iCmdType (received inp m n) = true) :
  ∃ k, n = k + 1 ∧ m < k ∧ (inp k).iLlStb = true
    ∧ complete (inp m).iCmdType (received inp m k) = false
    ∧ received inp m n = received inp m k ++ [(inp k).iLlByte]
  := by
  obtain ⟨k, rfl⟩ : ∃ k, n = k + 1 := ⟨n - 1, by omega⟩
  have hbefore := hopen k (Nat.lt_succ_self k)
  use k, rfl
  rw [received_succ] at hcomplete ⊢
  split_ifs at hcomplete ⊢ with hnow
  · rw [Bool.and_eq_true, decide_eq_true_eq] at hnow
    refine ⟨?_, hnow.2, hbefore, rfl⟩
    by_contra hle
    obtain rfl : k = m := by omega
    have hnone : handed inp k k = 0 := by
      rw [handed, Nat.count_iff_forall_not]
      intro j hj hj'
      omega
    omega
  · rw [List.append_nil, hbefore] at hcomplete
    cases hcomplete

/-- What a response that is complete leaves in the registers. -/
theorem completed_shows {n : ℕ} (hmn : m < n) (hnb : n < b) (hopen : Open inp m n)
    (hcomplete : complete (inp m).iCmdType (received inp m n) = true) :
  Shows inp m (received inp m n) (run step s₀ inp (n + 1)).oResponse
  := by
  obtain ⟨hbusy, -, -, hanswer, hlow⟩ := exchanging A hmn (Nat.le_of_lt hnb) hopen
  obtain ⟨k, rfl, hmk, hstb, hbefore, hbytes⟩ := completed hmn hopen hcomplete
  have hquiet : (inp (k + 1)).iLlStb = false := by
    rw [← Bool.not_eq_true]
    intro hstb'
    have := A.gives k (k + 1) (by omega) (Nat.lt_succ_self k) hnb hstb hstb'
    omega
  have hkeep : (run step s₀ inp (k + 1 + 1)).oResponse = (run step s₀ inp (k + 1)).oResponse := by
    rw [run_succ step s₀ inp (k + 1)]
    simp [step, hbusy, hquiet]
  obtain ⟨hneed, hwait⟩ := complete_eq_true.mp hcomplete
  obtain ⟨hr, hlen⟩ := isSome_r1 (Nat.lt_of_lt_of_le (needed_pos _) hneed)
  rw [hkeep]
  constructor
  · obtain ⟨b', hb'⟩ := Option.isSome_iff_exists.mp hr
    rw [hb', hanswer.response b' hb']
  · intro hlong
    have hfive : needed (inp m).iCmdType = 5 := if_pos hlong
    have hnowait : ∀ bs, waits (inp m).iCmdType bs = false := by
      intro bs
      have hty : (inp m).iCmdType ≠ 1#2 := by
        intro hty
        rw [hty] at hlong
        cases hlong
      simp [waits, hty]
    have hfew : counted (received inp m k) < 5 := by
      by_contra hle
      rw [← Bool.not_eq_true] at hbefore
      apply hbefore
      rw [complete_eq_true, hfive]
      exact ⟨Nat.not_lt.mp hle, hnowait _⟩
    have hfour : (afterR1 (received inp m (k + 1))).length = 4 := by
      have hsnoc := counted_snoc (received inp m k) (inp k).iLlByte
      rw [← hbytes] at hsnoc
      split_ifs at hsnoc <;> omega
    obtain ⟨b₁, b₂, b₃, b₄, hafter⟩ := List.length_eq_four.mp hfour
    rw [hlow, hafter]
    use b₁, b₂, b₃, b₄, rfl
    apply tailWord_four
  · intro hty
    rw [waits, hty] at hwait
    simpa using hwait

/-- From an idle `spicmd`, a command is sent and its response received. -/
theorem exchanged :
  Exchanged s₀ inp m b
  := by
  constructor
  case sent =>
    intro n hmn hnb hopen
    obtain ⟨hbusy, -, hsend, -, -⟩ := exchanging A hmn hnb hopen
    use hbusy
    rw [oLlByte, ← pending_zero]
    apply hsend.shiftData 0 (by decide)
  case waiting =>
    intro n hmn hnb hopen
    apply (exchanging A hmn hnb hopen).2.1
  case shown =>
    intro n hmn hnb hopen hcomplete
    obtain ⟨hbusy, -, -, hanswer, -⟩ := exchanging A hmn (Nat.le_of_lt hnb) hopen
    have hreset := A.noReset n (Nat.le_of_lt hmn) hnb
    have hdone : (run step s₀ inp n).done = true := by rw [hanswer.done, hcomplete]
    constructor
    · rw [run_succ]
      simp [step, hreset, hbusy, hdone]
    · apply completed_shows A hmn hnb hopen hcomplete
  case ended =>
    intro n n' hmn hnn hnb hopen hcomplete hsilent
    have hbusy : (run step s₀ inp n').oBusy = false := by
      obtain ⟨k, rfl⟩ := Nat.exists_eq_add_of_lt hnn
      clear hnn
      induction k with
      | zero =>
          obtain ⟨hbusy, -, -, hanswer, -⟩ := exchanging A hmn (by omega) hopen
          have hreset := A.noReset n (Nat.le_of_lt hmn) (by omega)
          have hdone : (run step s₀ inp n).done = true := by rw [hanswer.done, hcomplete]
          rw [Nat.add_zero, run_succ]
          simp [step, hreset, hbusy, hdone]
      | succ k ih =>
          have hidle := ih (by omega) (fun j hj hj' => hsilent j hj (by omega))
          have hreset := A.noReset (n + k + 1) (by omega) (by omega)
          rw [← Nat.add_assoc n k 1, run_succ]
          simp [step, hreset, hidle, hsilent (n + k + 1) (by omega) (by omega)]
    use hbusy
    rw [run_succ]
    simp [step, hbusy]

end Runs

/-- A response of one byte, after two bytes of ones. -/
theorem exchanged_status :
  Exchanged
    ⟨false, false, false, false, false, false, false, 0, 0, 0, 0, false, 0, 0, 0⟩
    (fun n => ⟨false, n == 0, 0, 13, 0, n % 8 != 0, n % 8 == 4, if n < 64 then 0xff else 0⟩)
    0 100
  := by
  apply exchanged
  constructor
  · rfl
  · rfl
  · intro n _ _
    rfl
  · intro j n n' _ _ hlt _ _ hn hn'
    simp at hn hn'
    omega
  · intro n n' _ hlt _ hn hn'
    simp at hn hn'
    omega

end Spicmd

end ZBasic
