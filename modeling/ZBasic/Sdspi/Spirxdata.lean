import Mathlib.Data.BitVec
import Mathlib.Data.List.Basic

/-!
# Receiving a block from the card

`spirxdata` waits for a token, writes the bytes of the block to memory, word by word, and
compares the checksum that follows them with its own. Its response tells how that went.
-/

namespace ZBasic

/-- The registers of `spirxdata`. -/
structure Spirxdata where
  oBusy : Bool
  receivedToken : Bool
  oWrite : Bool
  oAddr : BitVec 8
  oData : BitVec 32
  oRxvalid : Bool
  oResponse : BitVec 8
  lastaddr : Bool
  lastdata : Bool
  allMemWritten : Bool
  rLgblkszM3 : BitVec 3
  fill : BitVec 3
  gearbox : BitVec 24
  crcByte : BitVec 2
  crcFill : BitVec 4
  crcActive : Bool
  crcGearbox : BitVec 8
  crcData : BitVec 16
  crcErr : Bool

namespace Spirxdata

/-- The inputs of `spirxdata` at a clock. -/
structure Input where
  iReset : Bool
  iStart : Bool
  iLgblksz : BitVec 4
  iFifo : Bool
  iLlStb : Bool
  iLlByte : BitVec 8

/-- A byte whose upper half is zero, which is taken for an error token. -/
def isErrorToken (b : BitVec 8) : Bool := b.extractLsb' 4 4 = 0#4

/-- A byte whose lowest bit is clear, which is taken for the token that starts a block. -/
def isStartToken (b : BitVec 8) : Bool := !b.getLsbD 0

/-- `next_crc_data` -/
def nextCrcData (crc : BitVec 16) (hi lo : Bool) : BitVec 16 :=
  let poly : BitVec 16 := 0x1021
  let first := if crc.getLsbD 15 ^^ hi then (crc <<< 1) ^^^ poly else crc <<< 1
  if first.getLsbD 15 ^^ lo then (first <<< 1) ^^^ poly else first <<< 1

section Step

variable (s : Spirxdata) (i : Input)

/-- `error_token` -/
def errorToken : Bool := isErrorToken i.iLlByte && i.iLlStb && !s.receivedToken

/-- `start_token` -/
def startToken : Bool := isStartToken i.iLlByte && i.iLlStb && !s.receivedToken

/-- `done` -/
def done : Bool := i.iLlStb && s.crcByte > 1

/-- `new_data_byte` -/
def newDataByte : Bool := i.iLlStb && !s.allMemWritten

/-- Whether the word written at `o_addr` is the last but one. -/
def nearlyLast : Bool :=
  let ones (n : ℕ) : Bool := s.oAddr.extractLsb' 1 n = BitVec.allOnes n
  match s.rLgblkszM3 with
  | 0 => true
  | 1 => ones 1
  | 2 => ones 2
  | 3 => ones 3
  | 4 => ones 4
  | 5 => ones 5
  | _ => ones 6

/-- One clock of `spirxdata`. -/
def step : Spirxdata where
  oBusy :=
    if i.iReset then false
    else if !s.oBusy then i.iStart
    else if s.errorToken i || s.done i then false
    else s.oBusy
  receivedToken :=
    if i.iReset || !s.oBusy then false
    else if s.startToken i || s.errorToken i then true
    else s.receivedToken
  oWrite :=
    if i.iReset || !s.oBusy then false
    else if s.receivedToken && !s.allMemWritten then s.fill = 7 && i.iLlStb
    else false
  oAddr :=
    if !s.oBusy then BitVec.ofBool i.iFifo ++ 0#7
    else if s.oWrite && !s.lastaddr then s.oAddr + 1
    else s.oAddr
  oData := if s.receivedToken && !s.allMemWritten then s.gearbox ++ i.iLlByte else s.oData
  oRxvalid :=
    if i.iReset || !s.oBusy then false
    else if s.errorToken i || s.done i then true
    else s.oRxvalid
  oResponse :=
    if i.iReset || !s.oBusy then 0
    else if s.errorToken i then i.iLlByte
    else if s.done i then
      (if s.crcErr || s.crcData.extractLsb' 0 8 ≠ i.iLlByte then 0x10 else 0)
    else s.oResponse
  lastaddr :=
    if !s.oBusy then i.iLgblksz < 4
    else if s.oWrite && !s.lastaddr then s.nearlyLast
    else s.lastaddr
  lastdata :=
    if !s.oBusy then false
    else if !s.lastdata then s.lastaddr && s.fill = 7
    else s.lastdata
  allMemWritten :=
    if i.iReset || !s.oBusy then false
    else if s.oWrite && s.lastaddr then true
    else s.allMemWritten
  rLgblkszM3 := if !s.oBusy then (i.iLgblksz - 3).setWidth 3 else s.rLgblkszM3
  fill :=
    if !s.oBusy || !s.receivedToken then 0
    else if s.fill = 7 && i.iLlStb then 0
    else if i.iLlStb then s.fill.extractLsb' 0 2 ++ 1#1
    else s.fill
  gearbox := if i.iLlStb then s.gearbox.extractLsb' 0 16 ++ i.iLlByte else s.gearbox
  crcByte :=
    if i.iReset || !s.oBusy then 0
    else if i.iLlStb && s.lastaddr && s.lastdata then s.crcByte + 1
    else s.crcByte
  crcFill :=
    if i.iReset || !s.oBusy || !s.receivedToken then 0
    else if s.crcActive || s.newDataByte i then
      s.crcFill - (if s.crcActive then 1 else 0) + (if s.newDataByte i then 4 else 0)
    else s.crcFill
  crcActive :=
    if i.iReset || !s.oBusy || !s.receivedToken then false
    else if s.crcActive || s.newDataByte i then s.newDataByte i || s.crcFill > 1
    else s.crcActive
  crcGearbox := if !s.crcActive then i.iLlByte else s.crcGearbox.extractLsb' 0 6 ++ 0#2
  crcData :=
    if !s.oBusy then 0
    else if s.crcActive then
      nextCrcData s.crcData (s.crcGearbox.getLsbD 7) (s.crcGearbox.getLsbD 6)
    else s.crcData
  crcErr :=
    if i.iReset || !s.oBusy then false
    else if i.iLlStb && s.crcByte = 1 then s.crcData.extractLsb' 8 8 ≠ i.iLlByte
    else s.crcErr

end Step

/-! ### The token -/

/-- A byte that is not passed over. -/
def isToken (b : BitVec 8) : Bool := isErrorToken b || isStartToken b

/-- The token is taken for an error token that has bit 3 set. -/
def flagged (ds : List (BitVec 8)) : Bool :=
  match ds.find? isToken with
  | some b => isErrorToken b && b.getLsbD 3
  | none => false

/-- A token once found is not replaced by another. -/
theorem find_append {ds : List (BitVec 8)} {b : BitVec 8} (h : ds.find? isToken = some b)
    (ds' : List (BitVec 8)) :
  (ds ++ ds').find? isToken = some b
  := by rw [List.find?_append, h, Option.some_or]

theorem flagged_append {ds : List (BitVec 8)} (h : flagged ds = true) (ds' : List (BitVec 8)) :
  flagged (ds ++ ds') = true
  := by
  unfold flagged at h ⊢
  cases hfind : ds.find? isToken with
  | none =>
      rw [hfind] at h
      cases h
  | some b =>
      rw [hfind] at h
      rw [find_append hfind]
      apply h

/-- What `spirxdata` has seen of the bytes `ds` after a response. -/
inductive Taking (ds : List (BitVec 8)) (s : Spirxdata) : Prop
  | waiting : s.oBusy = true → s.receivedToken = false → s.oRxvalid = false → s.crcByte = 0 →
      s.lastdata = false → s.fill = 0 → ds.find? isToken = none → Taking ds s
  | taking (b : BitVec 8) : s.oBusy = true → s.receivedToken = true → s.oRxvalid = false →
      ds.find? isToken = some b → isErrorToken b = false → Taking ds s
  | ended (b : BitVec 8) : s.oBusy = false → ds.find? isToken = some b →
      flagged ds = (s.oRxvalid && s.oResponse.getLsbD 3) → Taking ds s

variable {ds : List (BitVec 8)} {s : Spirxdata} {i : Input}

theorem taking_start (hbusy : s.oBusy = false) (hreset : i.iReset = false)
    (hstart : i.iStart = true) :
  (s.step i).Taking []
  := by apply Taking.waiting <;> simp [step, hbusy, hreset, hstart]

/-- A byte seen, if there is one. -/
def seen (i : Input) : List (BitVec 8) := if i.iLlStb then [i.iLlByte] else []

/-- A clock at which the token is waited for. -/
theorem step_waiting (hreset : i.iReset = false) (hbusy : s.oBusy = true)
    (htoken : s.receivedToken = false) (hvalid : s.oRxvalid = false) (hcrc : s.crcByte = 0)
    (hdata : s.lastdata = false) (hfill : s.fill = 0) (hfind : ds.find? isToken = none) :
  (s.step i).Taking (ds ++ seen i)
  := by
  have hdone : s.done i = false := by simp [done, hcrc]
  cases hstb : i.iLlStb with
  | false =>
      have hseen : seen i = [] := by simp [seen, hstb]
      rw [hseen, List.append_nil]
      apply Taking.waiting _ _ _ _ _ _ hfind <;>
        simp [step, hreset, hbusy, htoken, hvalid, hcrc, hdata, hfill, hdone, errorToken, startToken,
          hstb]
  | true =>
      have hseen : seen i = [i.iLlByte] := by simp [seen, hstb]
      have herror : s.errorToken i = isErrorToken i.iLlByte := by simp [errorToken, hstb, htoken]
      have hstart : s.startToken i = isStartToken i.iLlByte := by simp [startToken, hstb, htoken]
      have hfind' : (ds ++ [i.iLlByte]).find? isToken
          = if isToken i.iLlByte then some i.iLlByte else none := by
        rw [List.find?_append, hfind, Option.none_or]
        cases htok : isToken i.iLlByte <;> simp [htok]
      rw [hseen]
      cases herr : isErrorToken i.iLlByte with
      | true =>
          rw [isToken, herr, Bool.true_or, if_pos rfl] at hfind'
          apply Taking.ended _ _ hfind'
          · rw [flagged, hfind']
            simp [step, hreset, hbusy, herror, herr]
          · simp [step, hreset, hbusy, herror, herr]
      | false =>
          cases hst : isStartToken i.iLlByte with
          | true =>
              rw [isToken, herr, hst, Bool.false_or, if_pos rfl] at hfind'
              apply Taking.taking _ _ _ _ hfind' herr <;>
                simp [step, hreset, hbusy, htoken, hvalid, hdone, herror, herr, hstart, hst]
          | false =>
              rw [isToken, herr, hst, Bool.false_or, if_neg Bool.false_ne_true] at hfind'
              apply Taking.waiting _ _ _ _ _ _ hfind' <;>
                simp [step, hreset, hbusy, htoken, hvalid, hcrc, hdata, hfill, hdone, herror, herr,
                  hstart, hst]

theorem Taking.step (h : s.Taking ds) (hreset : i.iReset = false)
    (hstart : s.oBusy = false → i.iStart = false)
    (hflag : (s.oRxvalid && s.oResponse.getLsbD 3) = false) :
  (s.step i).Taking (ds ++ seen i)
  := by
  cases h with
  | waiting hbusy htoken hvalid hcrc hdata hfill hfind =>
      apply step_waiting hreset hbusy htoken hvalid hcrc hdata hfill hfind
  | taking b hbusy htoken hvalid hfind herr =>
      have hfind' := find_append hfind (seen i)
      cases hdone : s.done i with
      | false =>
          apply Taking.taking b _ _ _ hfind' herr <;>
            simp [Spirxdata.step, hreset, hbusy, htoken, hdone, errorToken, hvalid]
      | true =>
          apply Taking.ended b _ hfind'
          · have hbits : (s.step i).oResponse.getLsbD 3 = false := by
              simp only [Spirxdata.step, hreset, hbusy, htoken, hdone, errorToken]
              split_ifs <;> simp_all
            rw [hbits, Bool.and_false, flagged, hfind']
            simp [herr]
          · simp [Spirxdata.step, hreset, hbusy, htoken, hdone, errorToken]
  | ended b hbusy hfind hresponse =>
      have hfind' := find_append hfind (seen i)
      apply Taking.ended b _ hfind'
      · rw [hflag] at hresponse
        have hsame : flagged (ds ++ seen i) = flagged ds := by rw [flagged, flagged, hfind, hfind']
        rw [hsame, hresponse]
        simp [Spirxdata.step, hbusy]
      · simp [Spirxdata.step, hreset, hbusy, hstart hbusy]

end Spirxdata

end ZBasic
