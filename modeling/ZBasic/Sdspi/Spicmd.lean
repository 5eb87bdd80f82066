import Mathlib.Data.BitVec
import Mathlib.Data.List.TakeWhile
import ZBasic.Clocked.Bits

/-!
# Sending a command to the card

`spicmd` sends the six bytes of a command, the last of them a checksum, and then waits for
the response: a byte `R1`, which is the first one whose top bit is clear, and depending on
the type of the command four more bytes, or bytes of zeros as long as the card is busy.
-/

namespace ZBasic

/-- The registers of `spicmd`. -/
structure Spicmd where
  oBusy : Bool
  oCmdSent : Bool
  almostSent : Bool
  oRxvalid : Bool
  rxR1Byte : Bool
  rxCheckBusy : Bool
  rxvalid : Bool
  rxCounter : BitVec 3
  oResponse : BitVec 40
  shiftData : BitVec 40
  crcValidSreg : BitVec 5
  crcBusy : Bool
  crcBitCounter : BitVec 5
  crcShiftReg : BitVec 40
  crcByte : BitVec 8

open Clocked

namespace Spicmd

/-- The inputs of `spicmd` at a clock. -/
structure Input where
  iReset : Bool
  iCmdStb : Bool
  iCmdType : BitVec 2
  iCmd : BitVec 6
  iCmdData : BitVec 32
  iLlBusy : Bool
  iLlStb : Bool
  iLlByte : BitVec 8

/-- `next_crc_byte` -/
def nextCrcByte (s : Spicmd) : BitVec 7 :=
  let poly : BitVec 7 := 0x09
  let next : BitVec 7 := s.crcByte.extractLsb' 1 6 ++ 0#1
  let next := if s.crcByte.getLsbD 7 ^^ s.crcShiftReg.getLsbD 39 then next ^^^ poly else next
  if next.getLsbD 6 ^^ s.crcShiftReg.getLsbD 38 then (next <<< 1) ^^^ poly else next <<< 1

section Step

variable (s : Spicmd) (i : Input)

/-- `o_ll_stb` -/
def oLlStb : Bool := s.oBusy

/-- `o_ll_byte` -/
def oLlByte : BitVec 8 := s.shiftData.extractLsb' 32 8

/-- The response is complete. -/
def done : Bool := s.rxvalid && !s.rxCheckBusy

/-- A byte of the response comes in. -/
def responds : Bool := s.oCmdSent && i.iLlStb

/-- A byte that counts: `R1`, or one that follows it. -/
def counts : Bool := (s.rxR1Byte || !i.iLlByte.getLsbD 7) && !s.rxvalid

/-- One clock of `spicmd`. -/
def step : Spicmd where
  oBusy :=
    if i.iReset then false
    else if !s.oBusy && i.iCmdStb then true
    else if s.done then false
    else s.oBusy
  oCmdSent :=
    if i.iReset || !s.oBusy then false
    else if !s.oCmdSent && !i.iLlBusy then s.almostSent
    else s.oCmdSent
  almostSent :=
    if i.iReset || !s.oBusy then false
    else if !s.oCmdSent && !i.iLlBusy then s.crcValidSreg.getLsbD 0
    else s.almostSent
  oRxvalid :=
    if i.iReset || !s.oBusy then false
    else if s.done then true
    else s.oRxvalid
  rxR1Byte :=
    if !s.oBusy then false
    else if s.responds i && !s.rxR1Byte then !i.iLlByte.getLsbD 7
    else s.rxR1Byte
  rxCheckBusy :=
    if !s.oBusy then i.iCmdType = 1#2
    else if s.responds i && s.rxR1Byte && i.iLlByte ≠ 0 then false
    else s.rxCheckBusy
  rxvalid :=
    if !s.oBusy then false
    else if s.responds i && s.counts i then s.rxCounter ≤ 1
    else s.rxvalid
  rxCounter :=
    if !s.oBusy then (if i.iCmdType.getLsbD 1 then 5 else 1)
    else if s.responds i && s.counts i then s.rxCounter - 1
    else s.rxCounter
  oResponse :=
    if !s.oBusy then BitVec.allOnes 40
    else if i.iLlStb then
      if !s.rxR1Byte then i.iLlByte ++ s.oResponse.extractLsb' 0 32
      else s.oResponse.extractLsb' 32 8 ++ s.oResponse.extractLsb' 0 24 ++ i.iLlByte
    else s.oResponse
  shiftData :=
    if !s.oBusy && i.iCmdStb then 1#2 ++ i.iCmd ++ i.iCmdData
    else if !i.iLlBusy then
      (if s.crcValidSreg.getLsbD 0 then s.crcByte else s.shiftData.extractLsb' 24 8)
        ++ s.shiftData.extractLsb' 0 24 ++ 0xff#8
    else s.shiftData
  crcValidSreg :=
    if !s.oBusy then 0x10
    else if !i.iLlBusy then s.crcValidSreg >>> 1
    else s.crcValidSreg
  crcBusy :=
    if !s.oBusy then i.iCmdStb
    else if s.crcBusy then s.crcBitCounter > 1
    else s.crcBusy
  crcBitCounter :=
    if !s.oBusy then 20
    else if s.crcBusy then s.crcBitCounter - 1
    else s.crcBitCounter
  crcShiftReg :=
    if !s.oBusy then 1#2 ++ i.iCmd ++ i.iCmdData
    else if s.crcBusy then s.crcShiftReg <<< 2
    else s.crcShiftReg
  crcByte :=
    if !s.oBusy then 1
    else if s.crcBusy then s.nextCrcByte ++ 1#1
    else s.crcByte

end Step

/-! ### Responses -/

/-- A byte whose top bit is clear. -/
def isR1 (b : BitVec 8) : Bool := !b.getLsbD 7

/-- The first byte of a response, the first one whose top bit is clear. -/
def r1 (bs : List (BitVec 8)) : Option (BitVec 8) := bs.find? isR1

/-- The bytes after `R1`. -/
def afterR1 (bs : List (BitVec 8)) : List (BitVec 8) := (bs.dropWhile fun b => !isR1 b).tail

/-- The number of bytes of a response of the type `ty`. -/
def needed (ty : BitVec 2) : ℕ := if ty.getLsbD 1 then 5 else 1

/-- The number of bytes of the response so far. -/
def counted (bs : List (BitVec 8)) : ℕ := if (r1 bs).isSome then (afterR1 bs).length + 1 else 0

/-- The card still says that it is busy. -/
def waits (ty : BitVec 2) (bs : List (BitVec 8)) : Bool := ty = 1#2 && (afterR1 bs).all (· = 0)

/-- The response of the type `ty` is complete. -/
def complete (ty : BitVec 2) (bs : List (BitVec 8)) : Bool :=
  needed ty ≤ counted bs && !waits ty bs

/-- The bytes after the response of the type `ty`. -/
def afterResponse (ty : BitVec 2) (bs : List (BitVec 8)) : List (BitVec 8) :=
  if ty.getLsbD 1 then (afterR1 bs).drop 4
  else if ty = 1#2 then ((afterR1 bs).dropWhile (· = 0)).tail
  else afterR1 bs

theorem r1_snoc (bs : List (BitVec 8)) (b : BitVec 8) :
  r1 (bs ++ [b]) = if (r1 bs).isSome then r1 bs else if isR1 b then some b else none
  := by
  rw [r1, r1, List.find?_append]
  cases bs.find? isR1 with
  | some b' => rfl
  | none => cases hb : isR1 b <;> simp [hb]

theorem afterR1_snoc (bs : List (BitVec 8)) (b : BitVec 8) :
  afterR1 (bs ++ [b]) = if (r1 bs).isSome then afterR1 bs ++ [b] else []
  := by
  induction bs with
  | nil => cases hb : isR1 b <;> simp [afterR1, r1, hb]
  | cons b' bs ih =>
      cases hb' : isR1 b' with
      | true => simp [afterR1, r1, hb']
      | false =>
          have hr : r1 (b' :: bs) = r1 bs := by simp [r1, hb']
          rw [hr]
          simpa [afterR1, hb'] using ih

theorem afterR1_eq_nil {bs : List (BitVec 8)} (h : (r1 bs).isSome = false) :
  afterR1 bs = []
  := by
  have hall : ∀ b ∈ bs, (!isR1 b) = true := by simpa [r1] using h
  rw [afterR1, List.dropWhile_eq_nil_iff.mpr hall, List.tail_nil]

theorem counted_snoc (bs : List (BitVec 8)) (b : BitVec 8) :
  counted (bs ++ [b]) = if (r1 bs).isSome || isR1 b then counted bs + 1 else counted bs
  := by
  rw [counted, counted, r1_snoc, afterR1_snoc]
  cases hr : (r1 bs).isSome with
  | true => simp [hr]
  | false => cases hb : isR1 b <;> simp

theorem waits_snoc (ty : BitVec 2) (bs : List (BitVec 8)) (b : BitVec 8) :
  waits ty (bs ++ [b]) = (waits ty bs && !((r1 bs).isSome && b ≠ 0))
  := by
  rw [waits, waits, afterR1_snoc]
  cases hr : (r1 bs).isSome with
  | true => simp [Bool.and_assoc]
  | false => simp [afterR1_eq_nil hr]

theorem isSome_r1 {bs : List (BitVec 8)} (h : 0 < counted bs) :
  (r1 bs).isSome = true ∧ counted bs = (afterR1 bs).length + 1
  := by
  rw [counted] at h ⊢
  split at h
  · rename_i hr
    use hr
    rw [if_pos hr]
  · cases Nat.lt_irrefl 0 h

theorem complete_eq_true {ty : BitVec 2} {bs : List (BitVec 8)} :
  complete ty bs = true ↔ needed ty ≤ counted bs ∧ waits ty bs = false
  := by simp [complete]

theorem needed_pos (ty : BitVec 2) :
  0 < needed ty
  := by
  unfold needed
  split <;> decide

/-- Once the response is complete, what follows does not belong to it. -/
theorem afterResponse_snoc {ty : BitVec 2} {bs : List (BitVec 8)} (h : complete ty bs = true)
    (b : BitVec 8) :
  complete ty (bs ++ [b]) = true ∧ afterResponse ty (bs ++ [b]) = afterResponse ty bs ++ [b]
  := by
  rw [complete_eq_true] at h ⊢
  obtain ⟨hcount, hwait⟩ := h
  obtain ⟨hr, hlen⟩ := isSome_r1 (lt_of_lt_of_le (needed_pos ty) hcount)
  rw [counted_snoc, waits_snoc, hr, hwait, Bool.true_or, if_pos rfl]
  refine ⟨⟨Nat.le_succ_of_le hcount, rfl⟩, ?_⟩
  rw [afterResponse, afterResponse, afterR1_snoc, if_pos hr]
  split_ifs with hmore hbusy
  · apply List.drop_append_of_le_length
    rw [needed, if_pos hmore] at hcount
    omega
  · have hne : ((afterR1 bs).dropWhile (· = 0)) ≠ [] := by
      intro hnil
      have hall := List.dropWhile_eq_nil_iff.mp hnil
      rw [waits, hbusy] at hwait
      simp at hwait hall
      obtain ⟨x, hx, hne⟩ := hwait
      apply hne (hall x hx)
    rw [List.dropWhile_append, if_neg (by simpa using hne), List.tail_append_of_ne_nil hne]
  · rfl

/-- Before it is complete, nothing follows it. -/
theorem afterResponse_snoc_of_incomplete {ty : BitVec 2} {bs : List (BitVec 8)}
    (h : complete ty bs = false) (b : BitVec 8) :
  afterResponse ty (bs ++ [b]) = []
  := by
  rw [afterResponse, afterR1_snoc]
  cases hr : (r1 bs).isSome with
  | false => simp
  | true =>
      have hcount : counted bs = (afterR1 bs).length + 1 := by rw [counted, if_pos hr]
      have hmissing : counted bs < needed ty ∨ ty = 1#2 ∧ (afterR1 bs).all (· = 0) = true := by
        rw [← Bool.not_eq_true, complete_eq_true, not_and_or, Nat.not_le] at h
        simpa only [waits, Bool.not_eq_false, Bool.and_eq_true, decide_eq_true_eq] using h
      rw [if_pos rfl]
      split_ifs with hmore hbusy
      · have hty : ty ≠ 1#2 := by
          rintro rfl
          cases hmore
        rw [needed, if_pos hmore] at hmissing
        have hfew := hmissing.resolve_right (fun hwait => hty hwait.1)
        apply List.drop_of_length_le
        rw [List.length_append, List.length_singleton]
        omega
      · rw [needed, if_neg hmore] at hmissing
        have hall := (hmissing.resolve_left (by omega)).2
        have hnil : (afterR1 bs).dropWhile (· = 0) = [] :=
          List.dropWhile_eq_nil_iff.mpr (List.all_eq_true.mp hall)
        rw [List.dropWhile_append, hnil, List.isEmpty_nil, if_pos rfl]
        simp only [List.dropWhile_cons]
        split <;> rfl
      · rw [needed, if_neg hmore] at hmissing
        have hfew := hmissing.resolve_right (fun hwait => hbusy hwait.1)
        omega

/-! ### Following the response -/

/-- What `spicmd` knows of the response of the type `ty` while it is busy: the bytes `bs`
have come in since the command was sent. -/
structure Answering (ty : BitVec 2) (bs : List (BitVec 8)) (s : Spicmd) : Prop where
  sent : s.oCmdSent = false → bs = []
  r1 : s.rxR1Byte = (r1 bs).isSome
  response : ∀ b, Spicmd.r1 bs = some b → s.oResponse.extractLsb' 32 8 = b
  rxvalid : s.rxvalid = decide (needed ty ≤ counted bs)
  rxCounter : s.rxvalid = false → s.rxCounter.toNat + counted bs = needed ty
  rxCheckBusy : s.rxCheckBusy = waits ty bs
  nothing : afterResponse ty bs = []

variable {ty : BitVec 2} {bs : List (BitVec 8)} {s : Spicmd} {i : Input}

theorem Answering.done (h : s.Answering ty bs) :
  s.done = complete ty bs
  := by rw [Spicmd.done, complete, h.rxvalid, h.rxCheckBusy]

/-- The byte of the response at a clock. -/
def heard (s : Spicmd) (i : Input) : List (BitVec 8) := if s.responds i then [i.iLlByte] else []

/-- Before a command is sent, nothing has come in. -/
theorem answering_start (hbusy : s.oBusy = false) (hty : i.iCmdType = ty) :
  (s.step i).Answering ty []
  := by
  constructor
  · intro _
    rfl
  · simp [step, hbusy, Spicmd.r1]
  · intro b hb
    cases hb
  · have hpos := needed_pos ty
    simp [step, hbusy, counted, Spicmd.r1]
    omega
  · intro _
    simp only [step, hbusy, needed, hty, counted, Spicmd.r1]
    cases ty.getLsbD 1 <;> simp
  · simp [step, hbusy, hty, waits, afterR1]
  · simp [afterResponse, afterR1]

theorem extract_oResponse_step (hbusy : s.oBusy = true) :
  (s.step i).oResponse.extractLsb' 32 8
    = if i.iLlStb && !s.rxR1Byte then i.iLlByte else s.oResponse.extractLsb' 32 8
  := by
  cases hstb : i.iLlStb <;> cases hr : s.rxR1Byte <;> simp [step, hbusy, hstb, hr]
  · rw [extract_append_high _ _ (by decide), extract_all]
  · rw [extract_append_high _ _ (by decide), extract_append_high _ _ (by decide), extract_all]

theorem rxR1Byte_step (hbusy : s.oBusy = true) (hnow : s.responds i = true) :
  (s.step i).rxR1Byte = (s.rxR1Byte || isR1 i.iLlByte)
  := by cases hr : s.rxR1Byte <;> simp [step, hbusy, hnow, hr, isR1]

/-- `rx_counter` counts down what is needed. -/
theorem Answering.rxCounter_step (h : s.Answering ty bs) (hbusy : s.oBusy = true)
    (hnow : s.responds i = true) :
  (s.step i).rxvalid = decide (needed ty ≤ counted (bs ++ [i.iLlByte]))
    ∧ ((s.step i).rxvalid = false →
      (s.step i).rxCounter.toNat + counted (bs ++ [i.iLlByte]) = needed ty)
  := by
  have hcounts : s.counts i = (((Spicmd.r1 bs).isSome || isR1 i.iLlByte) && !s.rxvalid) := by
    rw [← h.r1]
    rfl
  have hvalid : (s.step i).rxvalid = if s.counts i then decide (s.rxCounter ≤ 1#3) else s.rxvalid := by
    simp [step, hbusy, hnow]
  have hcounter : (s.step i).rxCounter = if s.counts i then s.rxCounter - 1#3 else s.rxCounter := by
    simp [step, hbusy, hnow]
  have hneed := h.rxvalid
  rw [hvalid, hcounter, counted_snoc]
  cases hv : s.rxvalid with
  | true =>
      rw [hv] at hcounts hneed
      have hle := of_decide_eq_true hneed.symm
      rw [hcounts, Bool.not_true, Bool.and_false, if_neg Bool.false_ne_true]
      constructor
      · rw [eq_comm, decide_eq_true_eq]
        split <;> omega
      · simp
  | false =>
      rw [hv] at hcounts hneed
      have hlt := of_decide_eq_false hneed.symm
      have hcount := h.rxCounter hv
      rw [hcounts, Bool.not_false, Bool.and_true]
      cases hc : (Spicmd.r1 bs).isSome || isR1 i.iLlByte with
      | true =>
          simp only [if_true]
          constructor
          · rw [decide_eq_decide, BitVec.le_def]
            simp only [BitVec.toNat_ofNat]
            omega
          · intro _
            have hle : 1#3 ≤ s.rxCounter := by
              rw [BitVec.le_def]
              simp only [BitVec.toNat_ofNat]
              omega
            rw [BitVec.toNat_sub_of_le hle]
            simp only [BitVec.toNat_ofNat]
            omega
      | false =>
          simp only [Bool.false_eq_true, if_false]
          refine ⟨?_, fun _ => hcount⟩
          rw [hneed]

/-- A clock at which nothing of the response comes in. -/
theorem Answering.step_silent (h : s.Answering ty bs) (hbusy : s.oBusy = true)
    (hreset : i.iReset = false) (hnow : s.responds i = false) :
  (s.step i).Answering ty bs
  := by
  constructor
  · intro hsent
    apply h.sent
    by_contra hs
    simp [step, hreset, hbusy, hs] at hsent
  · simp [step, hbusy, hnow, h.r1]
  · intro b hb
    have hr : s.rxR1Byte = true := by rw [h.r1, hb, Option.isSome_some]
    rw [extract_oResponse_step hbusy, hr, Bool.not_true, Bool.and_false, if_neg Bool.false_ne_true]
    apply h.response b hb
  · simp [step, hbusy, hnow, h.rxvalid]
  · simpa [step, hbusy, hnow] using h.rxCounter
  · simp [step, hbusy, hnow, h.rxCheckBusy]
  · apply h.nothing

/-- A byte that comes in while the response is not complete. -/
theorem Answering.step_byte (h : s.Answering ty bs) (hbusy : s.oBusy = true)
    (hreset : i.iReset = false) (hnow : s.responds i = true) (hdone : s.done = false) :
  (s.step i).Answering ty (bs ++ [i.iLlByte])
  := by
  obtain ⟨hsent, hstb⟩ : s.oCmdSent = true ∧ i.iLlStb = true := by simpa [responds] using hnow
  rw [h.done] at hdone
  constructor
  · intro hnext
    simp [step, hreset, hbusy, hsent] at hnext
  · rw [rxR1Byte_step hbusy hnow, h.r1, r1_snoc]
    cases hr : (Spicmd.r1 bs).isSome <;> cases hb : isR1 i.iLlByte <;> simp [hr]
  · intro b hb
    rw [r1_snoc] at hb
    rw [extract_oResponse_step hbusy, hstb, h.r1]
    cases hr : (Spicmd.r1 bs).isSome with
    | true =>
        rw [hr, if_pos rfl] at hb
        simpa using h.response b hb
    | false =>
        rw [hr, if_neg Bool.false_ne_true] at hb
        split at hb
        · simpa using hb
        · cases hb
  · apply (h.rxCounter_step hbusy hnow).1
  · apply (h.rxCounter_step hbusy hnow).2
  · rw [waits_snoc, Bool.and_comm]
    cases hr : (Spicmd.r1 bs).isSome <;> simp [step, hbusy, hnow, h.r1, h.rxCheckBusy, hr]
  · apply afterResponse_snoc_of_incomplete hdone

end Spicmd

end ZBasic
