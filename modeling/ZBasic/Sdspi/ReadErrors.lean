import ZBasic.Clocked.Run
import ZBasic.Sdspi.Sdspi

/-!
# Errors of a block read

What `r_cmd_err` is worth after a block was read from the card: an error that the card
reports in its response, or the end of the watchdog, sets it. Of the tokens that report an
error only those with bit 3 set do, and a checksum that does not match does not, since the
response of `spirxdata` has bit 4 set then and `sdspi` looks at bit 3.
-/

namespace ZBasic

open Clocked

namespace Sdspi

/-! ### What the card has said -/

/-- A token that says that there is no data, `0x01` to `0x1f`. -/
def isDataError (b : BitVec 8) : Bool := 1 ≤ b && b ≤ 0x1f

/-- The response reports an error. -/
def r1Error (bs : List (BitVec 8)) : Bool :=
  match Spicmd.r1 bs with
  | some b => b.extractLsb' 1 6 ≠ 0
  | none => false

/-- A data error token is received in place of the one that starts a block. -/
def dataError (ds : List (BitVec 8)) : Bool :=
  match ds.find? fun b => isDataError b || Spirxdata.isStartToken b with
  | some b => isDataError b
  | none => false

/-- The checksum of a list of bytes. -/
def crc16 (data : List (BitVec 8)) : BitVec 16 :=
  (data.flatMap fun b => (List.range 8).map fun k => b.getLsbD (7 - k)).foldl
    (fun crc bit => if crc.msb ^^ bit then (crc <<< 1) ^^^ 0x1021 else crc <<< 1) 0

example : crc16 [0x31, 0x32, 0x33, 0x34, 0x35, 0x36, 0x37, 0x38, 0x39] = 0x31c3
  := by decide +kernel

/-- A whole block of `n` bytes is received, and its checksum is not the one that follows
it. -/
def crcDiffers (n : ℕ) (ds : List (BitVec 8)) : Bool :=
  match ds.dropWhile fun b => !(isDataError b || Spirxdata.isStartToken b) with
  | token :: rest =>
      !isDataError token && !Spirxdata.isErrorToken token && n + 2 ≤ rest.length
        && crc16 (rest.take n) ≠ rest.getD n 0 ++ rest.getD (n + 1) 0
  | [] => false

/-- A token that the controller reports is a data error token. -/
theorem dataError_of_flagged {ds : List (BitVec 8)} (h : Spirxdata.flagged ds = true) :
  dataError ds = true
  := by
  have hall : ∀ b : BitVec 8, Spirxdata.isErrorToken b = true → b.getLsbD 3 = true →
      isDataError b = true := by decide
  induction ds with
  | nil => cases h
  | cons d ds ih =>
      cases herr : isDataError d with
      | true => simp [dataError, herr]
      | false =>
          cases hst : Spirxdata.isStartToken d with
          | true =>
              have htok : Spirxdata.isToken d = true := by simp [Spirxdata.isToken, hst]
              simp only [Spirxdata.flagged, List.find?_cons, htok, Bool.and_eq_true] at h
              rw [hall d h.1 h.2] at herr
              cases herr
          | false =>
              cases htok : Spirxdata.isErrorToken d with
              | true =>
                  have hno : ∀ b : BitVec 8, Spirxdata.isErrorToken b = true →
                      Spirxdata.isStartToken b = false → isDataError b = true := by decide
                  rw [hno d htok hst] at herr
                  cases herr
              | false =>
                  have htok' : Spirxdata.isToken d = false := by
                    simp [Spirxdata.isToken, hst, htok]
                  have hrest : Spirxdata.flagged ds = true := by
                    simpa [Spirxdata.flagged, htok'] using h
                  simpa [dataError, herr, hst] using ih hrest

/-! ### The registers between commands -/

/-- What holds at every clock: between commands nothing is going on, and the reader of
blocks starts while the command is still being sent. -/
structure Inv (s : Sdspi) : Prop where
  idle : s.rCmdBusy = false → s.spicmdi.oBusy = false ∧ s.spicmdi.oRxvalid = false
    ∧ s.spirxdatai.oBusy = false ∧ s.spirxdatai.oRxvalid = false ∧ s.rxStart = false
  rxStart : s.rxStart = true → s.spicmdi.oBusy = true ∧ s.spicmdi.rxvalid = false
    ∧ (s.spicmdi.oCmdSent = false ∨ s.spirxdatai.oBusy = true)
  apart : s.lowlevel.Apart

/-- The registers at power up, as far as it matters. -/
structure Initial (s : Sdspi) : Prop where
  rCmdBusy : s.rCmdBusy = false
  rxStart : s.rxStart = false
  oStb : s.lowlevel.oStb = false
  cmdBusy : s.spicmdi.oBusy = false
  cmdValid : s.spicmdi.oRxvalid = false
  rxBusy : s.spirxdatai.oBusy = false
  rxValid : s.spirxdatai.oRxvalid = false

variable {P : Params} {s : Sdspi} {i : Input}

theorem Initial.inv (h : s.Initial) :
  s.Inv
  := by
  constructor
  · intro _
    exact ⟨h.cmdBusy, h.cmdValid, h.rxBusy, h.rxValid, h.rxStart⟩
  · intro hstart
    rw [h.rxStart] at hstart
    cases hstart
  · intro hstb
    rw [h.oStb] at hstb
    cases hstb

theorem starts_of_busy (h : s.rCmdBusy = true) :
  s.starts i = false
  := by simp [starts, wbCmdStb, h]

theorem Inv.step_idle (h : s.Inv) (hnext : (s.step P i).rCmdBusy = false) :
  (s.step P i).spicmdi.oBusy = false ∧ (s.step P i).spicmdi.oRxvalid = false
    ∧ (s.step P i).spirxdatai.oBusy = false ∧ (s.step P i).spirxdatai.oRxvalid = false
    ∧ (s.step P i).rxStart = false
  := by
  cases hreset : i.iSdReset with
  | true =>
      simp [step, Spicmd.step, Spirxdata.step, spicmdInput, spirxdataInput, wReset, hreset]
  | false =>
      cases hbusy : s.rCmdBusy with
      | false =>
          obtain ⟨hcmd, -, hrx, -, hstart⟩ := h.idle hbusy
          have hno : s.starts i = false := by simpa [step, hreset, hbusy] using hnext
          simp [step, Spicmd.step, Spirxdata.step, spicmdInput, spirxdataInput, startsBlock, hcmd,
            hrx, hstart, hno, hbusy]
      | true =>
          have hdone : s.settled i = true := by
            simp only [step, hreset, hbusy] at hnext
            simp at hnext
            apply hnext.1
          obtain ⟨hcmd, hrx⟩ : s.spicmdi.oBusy = false ∧ s.spirxdatai.oBusy = false := by
            simp only [settled, Bool.and_eq_true, Bool.not_eq_true'] at hdone
            exact ⟨hdone.1.1.2, hdone.1.2⟩
          have hstart : s.rxStart = false := by
            by_contra hs
            have hcmd' := (h.rxStart (by simpa using hs)).1
            rw [hcmd] at hcmd'
            cases hcmd'
          have hno := starts_of_busy (i := i) hbusy
          simp [step, Spicmd.step, Spirxdata.step, spicmdInput, spirxdataInput, hcmd, hrx, hstart,
            hno, hbusy]

theorem Inv.step_rxStart (h : s.Inv) (hnext : (s.step P i).rxStart = true) :
  (s.step P i).spicmdi.oBusy = true ∧ (s.step P i).spicmdi.rxvalid = false
    ∧ ((s.step P i).spicmdi.oCmdSent = false ∨ (s.step P i).spirxdatai.oBusy = true)
  := by
  cases hbusy : s.rCmdBusy with
  | false =>
      obtain ⟨hcmd, -, hrx, -, -⟩ := h.idle hbusy
      have hgo : i.iSdReset = false ∧ s.rWatchdogErr = false ∧ s.starts i = true := by
        simp only [step, hbusy, startsBlock] at hnext
        grind
      simp [step, Spicmd.step, spicmdInput, wReset, hcmd, hgo]
  | true =>
      have hgo : i.iSdReset = false ∧ s.rWatchdogErr = false ∧ s.rxStart = true
          ∧ s.rCmdErr = false ∧ s.spirxdatai.oBusy = false := by
        simp only [step, hbusy] at hnext
        grind
      obtain ⟨hreset, hdog, hstart, herr, hrx⟩ := hgo
      obtain ⟨hcmd, hvalid, hsent⟩ := h.rxStart hstart
      have hsent : s.spicmdi.oCmdSent = false := by
        apply hsent.resolve_right
        simp [hrx]
      refine ⟨?_, ?_, ?_⟩
      · simp [step, Spicmd.step, Spicmd.done, spicmdInput, wReset, hreset, hdog, hcmd, hvalid]
      · simp [step, Spicmd.step, Spicmd.responds, hcmd, hvalid, hsent]
      · right
        simp [step, Spirxdata.step, spirxdataInput, wReset, hreset, hdog, hstart, herr, hrx]

theorem Inv.step (h : s.Inv) :
  (s.step P i).Inv
  := ⟨h.step_idle, h.step_rxStart, Llsdspi.step_apart _ _ _⟩

/-! ### Following a command -/

/-- The byte from the card that counts at a clock: while the command is on its way to the
card, nothing does. -/
def heardAt (s : Sdspi) : List (BitVec 8) :=
  if s.lowlevel.oStb && (s.spicmdi.oCmdSent || !s.spicmdi.oBusy) then [s.lowlevel.oByte] else []

/-- Where a block read with a response of the type `ty` has got to, when the bytes `bs`
have been heard. -/
inductive Follows (ty : BitVec 2) (bs : List (BitVec 8)) (s : Sdspi) : Prop
  | command : s.rCmdErr = false → s.spicmdi.oBusy = true → s.spicmdi.oRxvalid = false →
      s.spicmdi.Answering ty bs → (s.spicmdi.done = true → s.lowlevel.oStb = false) →
      s.spirxdatai.Taking []
        ∨ (s.rxStart = true ∧ s.spirxdatai.oBusy = false ∧ s.spirxdatai.oRxvalid = false) →
      Follows ty bs s
  | response : s.rCmdErr = false → s.spicmdi.oBusy = false → s.spicmdi.oRxvalid = true →
      decide (s.spicmdi.oResponse.extractLsb' 33 6 ≠ 0) = r1Error bs →
      Spicmd.complete ty bs = true → Spicmd.afterResponse ty bs = [] →
      s.spirxdatai.Taking [] → Follows ty bs s
  | data : s.rCmdErr = false → s.spicmdi.oBusy = false → s.spicmdi.oRxvalid = false →
      r1Error bs = false → Spicmd.complete ty bs = true →
      s.spirxdatai.Taking (Spicmd.afterResponse ty bs) → Follows ty bs s
  | failed : s.rCmdErr = true → r1Error bs = true ∨ Spicmd.complete ty bs = true
      ∧ Spirxdata.flagged (Spicmd.afterResponse ty bs) = true → Follows ty bs s

/-- A command is on, and neither a reset nor the watchdog disturbs it. -/
structure Undisturbed (s : Sdspi) (i : Input) : Prop where
  busy : s.rCmdBusy = true
  noReset : i.iSdReset = false
  noWatchdog : s.rWatchdogErr = false

variable {ty : BitVec 2} {bs : List (BitVec 8)}

/-- Before a token is seen, nothing has come in and nothing is reported. -/
theorem taking_nil_oRxvalid {r : Spirxdata} (h : r.Taking []) :
  r.oRxvalid = false
  := by
  cases h with
  | waiting _ _ hvalid => apply hvalid
  | taking _ _ _ hvalid => apply hvalid
  | ended _ _ hfind => cases hfind

/-- Once `R1` is there it stays the same. -/
theorem r1Error_heard (hr : (Spicmd.r1 bs).isSome = true) (s : Sdspi) :
  r1Error (bs ++ s.heardAt) = r1Error bs
  := by
  unfold heardAt
  split
  · rw [r1Error, Spicmd.r1_snoc, if_pos hr, r1Error]
  · rw [List.append_nil]

theorem isSome_r1_of_r1Error (h : r1Error bs = true) :
  (Spicmd.r1 bs).isSome = true
  := by
  unfold r1Error at h
  split at h
  · rename_i hr
    rw [hr, Option.isSome_some]
  · cases h

theorem isSome_r1_of_complete (h : Spicmd.complete ty bs = true) :
  (Spicmd.r1 bs).isSome = true
  := by
  have hcount := (Spicmd.complete_eq_true.mp h).1
  apply (Spicmd.isSome_r1 (lt_of_lt_of_le (Spicmd.needed_pos ty) hcount)).1

/-- Once the response is complete, what is heard comes after it. -/
theorem complete_heard (h : Spicmd.complete ty bs = true) (s : Sdspi) :
  Spicmd.complete ty (bs ++ s.heardAt) = true
    ∧ Spicmd.afterResponse ty (bs ++ s.heardAt) = Spicmd.afterResponse ty bs ++ s.heardAt
  := by
  unfold heardAt
  split
  · apply Spicmd.afterResponse_snoc h
  · rw [List.append_nil, List.append_nil]
    exact ⟨h, rfl⟩

/-- After the response the bytes go to `spirxdata`. -/
theorem seen_eq (hcmd : s.spicmdi.oBusy = false) :
  Spirxdata.seen (s.spirxdataInput i) = s.heardAt
  := by simp [Spirxdata.seen, spirxdataInput, heardAt, hcmd]

/-- While a command is busy an error stays. -/
theorem rCmdErr_step_of_true (hbusy : s.rCmdBusy = true) (herr : s.rCmdErr = true) :
  (s.step P i).rCmdErr = true
  := by simp [step, hbusy, herr]

theorem Follows.step_failed (hbusy : s.rCmdBusy = true) (herr : s.rCmdErr = true)
    (hcause : r1Error bs = true ∨ Spicmd.complete ty bs = true
      ∧ Spirxdata.flagged (Spicmd.afterResponse ty bs) = true) :
  (s.step P i).Follows ty (bs ++ s.heardAt)
  := by
  apply Follows.failed (rCmdErr_step_of_true hbusy herr)
  rcases hcause with hr | ⟨hcomplete, hflag⟩
  · left
    rw [r1Error_heard (isSome_r1_of_r1Error hr), hr]
  · right
    obtain ⟨hcomplete', hafter⟩ := complete_heard hcomplete s
    rw [hafter]
    exact ⟨hcomplete', Spirxdata.flagged_append hflag _⟩

/-- After its response `spicmd` stays idle. -/
theorem spicmdi_step_idle (hbusy : s.rCmdBusy = true) (hcmd : s.spicmdi.oBusy = false) :
  (s.step P i).spicmdi.oBusy = false ∧ (s.step P i).spicmdi.oRxvalid = false
  := by simp [step, Spicmd.step, spicmdInput, hcmd, starts_of_busy hbusy]

theorem Inv.rxStart_eq_false (h : s.Inv) (hcmd : s.spicmdi.oBusy = false) :
  s.rxStart = false
  := by
  by_contra hs
  have hcmd' := (h.rxStart (by simpa using hs)).1
  rw [hcmd] at hcmd'
  cases hcmd'

/-- The receiver follows the bytes after the response. -/
theorem taking_step {ds : List (BitVec 8)} (hinv : s.Inv) (hgo : s.Undisturbed i)
    (herr : s.rCmdErr = false) (hcmd : s.spicmdi.oBusy = false) (hrx : s.spirxdatai.Taking ds)
    (hflag : (s.spirxdatai.oRxvalid && s.spirxdatai.oResponse.getLsbD 3) = false) :
  (s.step P i).spirxdatai.Taking (ds ++ s.heardAt)
  := by
  rw [← seen_eq (i := i) hcmd]
  apply hrx.step
  · simp [spirxdataInput, wReset, hgo.noReset, hgo.noWatchdog, herr]
  · intro _
    apply hinv.rxStart_eq_false hcmd
  · apply hflag

/-- While the token and the block are received. -/
theorem Follows.step_data (hinv : s.Inv) (hgo : s.Undisturbed i) (herr : s.rCmdErr = false)
    (hcmd : s.spicmdi.oBusy = false) (hvalid : s.spicmdi.oRxvalid = false)
    (hr : r1Error bs = false) (hcomplete : Spicmd.complete ty bs = true)
    (hrx : s.spirxdatai.Taking (Spicmd.afterResponse ty bs)) :
  (s.step P i).Follows ty (bs ++ s.heardAt)
  := by
  obtain ⟨hcmd', hvalid'⟩ := spicmdi_step_idle (P := P) (i := i) hgo.busy hcmd
  obtain ⟨hcomplete', hafter⟩ := complete_heard hcomplete s
  cases hflag : s.spirxdatai.oRxvalid && s.spirxdatai.oResponse.getLsbD 3 with
  | true =>
      obtain ⟨hrxvalid, hbit⟩ := Bool.and_eq_true_iff.mp hflag
      have hflagged : Spirxdata.flagged (Spicmd.afterResponse ty bs) = true := by
        cases hrx with
        | waiting _ _ hno => rw [hrxvalid] at hno; cases hno
        | taking _ _ _ hno => rw [hrxvalid] at hno; cases hno
        | ended _ _ _ hsame => rw [hsame, hflag]
      apply Follows.failed
      · simp only [step, hgo.noWatchdog, hgo.busy, hrxvalid, hbit, Bool.or_true, if_true]
        rfl
      · right
        rw [hafter]
        exact ⟨hcomplete', Spirxdata.flagged_append hflagged _⟩
  | false =>
      have herr' : (s.step P i).rCmdErr = false := by
        simp only [step, hgo.noWatchdog, hgo.busy, hvalid, herr]
        cases hrxvalid : s.spirxdatai.oRxvalid with
        | true =>
            rw [hrxvalid, Bool.true_and] at hflag
            simp only [hflag]
            rfl
        | false => rfl
      apply Follows.data herr' hcmd' hvalid' _ hcomplete'
      · rw [hafter]
        apply taking_step hinv hgo herr hcmd hrx hflag
      · rw [r1Error_heard (isSome_r1_of_complete hcomplete), hr]

/-- At the clock at which the response is reported. -/
theorem Follows.step_response (hinv : s.Inv) (hgo : s.Undisturbed i) (herr : s.rCmdErr = false)
    (hcmd : s.spicmdi.oBusy = false) (hvalid : s.spicmdi.oRxvalid = true)
    (hr : decide (s.spicmdi.oResponse.extractLsb' 33 6 ≠ 0) = r1Error bs)
    (hcomplete : Spicmd.complete ty bs = true) (hafter : Spicmd.afterResponse ty bs = [])
    (hrx : s.spirxdatai.Taking []) :
  (s.step P i).Follows ty (bs ++ s.heardAt)
  := by
  obtain ⟨hcmd', hvalid'⟩ := spicmdi_step_idle (P := P) (i := i) hgo.busy hcmd
  obtain ⟨hcomplete', hafter'⟩ := complete_heard hcomplete s
  have hrxvalid := taking_nil_oRxvalid hrx
  have hsame := r1Error_heard (isSome_r1_of_complete hcomplete) s
  have herr' : (s.step P i).rCmdErr = r1Error bs := by
    rw [← hr]
    simp [step, hgo.noWatchdog, hgo.busy, hrxvalid, hvalid, herr]
  cases hbad : r1Error bs with
  | true =>
      rw [hbad] at herr' hsame
      apply Follows.failed herr' (Or.inl hsame)
  | false =>
      rw [hbad] at herr' hsame
      apply Follows.data herr' hcmd' hvalid' hsame hcomplete'
      rw [hafter', hafter]
      apply taking_step hinv hgo herr hcmd hrx
      rw [hrxvalid, Bool.false_and]

/-- The receiver of blocks is started while the command is sent, and sees nothing of it. -/
theorem taking_step_command (hgo : s.Undisturbed i) (herr : s.rCmdErr = false)
    (hcmd : s.spicmdi.oBusy = true)
    (hrx : s.spirxdatai.Taking []
      ∨ (s.rxStart = true ∧ s.spirxdatai.oBusy = false ∧ s.spirxdatai.oRxvalid = false)) :
  (s.step P i).spirxdatai.Taking []
  := by
  have hreset : (s.spirxdataInput i).iReset = false := by
    simp [spirxdataInput, wReset, hgo.noReset, hgo.noWatchdog, herr]
  rcases hrx with hrx | ⟨hstart, hbusy, -⟩
  · have hsilent : Spirxdata.seen (s.spirxdataInput i) = [] := by
      simp [Spirxdata.seen, spirxdataInput, hcmd]
    have hvalid := taking_nil_oRxvalid hrx
    have hstart : s.spirxdatai.oBusy = false → s.rxStart = false := by
      intro hidle
      cases hrx with
      | waiting hbusy => rw [hidle] at hbusy; cases hbusy
      | taking _ hbusy => rw [hidle] at hbusy; cases hbusy
      | ended _ _ hfind => cases hfind
    have hnext := hrx.step hreset hstart (by rw [hvalid, Bool.false_and])
    rw [hsilent] at hnext
    apply hnext
  · apply Spirxdata.taking_start hbusy hreset hstart

/-- While the command is sent and answered. -/
theorem Follows.step_command (hinv : s.Inv) (hgo : s.Undisturbed i) (herr : s.rCmdErr = false)
    (hcmd : s.spicmdi.oBusy = true) (hvalid : s.spicmdi.oRxvalid = false)
    (hanswer : s.spicmdi.Answering ty bs)
    (hfresh : s.spicmdi.done = true → s.lowlevel.oStb = false)
    (hrx : s.spirxdatai.Taking []
      ∨ (s.rxStart = true ∧ s.spirxdatai.oBusy = false ∧ s.spirxdatai.oRxvalid = false)) :
  (s.step P i).Follows ty (bs ++ s.heardAt)
  := by
  have hreset : (s.spicmdInput i).iReset = false := by
    simp [spicmdInput, wReset, hgo.noReset, hgo.noWatchdog]
  have hrx' := taking_step_command (P := P) hgo herr hcmd hrx
  have hrxvalid : s.spirxdatai.oRxvalid = false := by
    rcases hrx with hrx | ⟨-, -, hno⟩
    · apply taking_nil_oRxvalid hrx
    · apply hno
  have herr' : (s.step P i).rCmdErr = false := by
    simp [step, hgo.noWatchdog, hgo.busy, hrxvalid, hvalid, herr]
  cases hdone : s.spicmdi.done with
  | true =>
      have hsilent := hfresh hdone
      have hheard : s.heardAt = [] := by simp [heardAt, hsilent]
      have hcomplete : Spicmd.complete ty bs = true := by rw [← hanswer.done, hdone]
      obtain ⟨b, hb⟩ := Option.isSome_iff_exists.mp (isSome_r1_of_complete hcomplete)
      have htop : (s.step P i).spicmdi.oResponse.extractLsb' 32 8 = b := by
        rw [← hanswer.response b hb]
        have := Spicmd.extract_oResponse_step (i := s.spicmdInput i) hcmd
        rw [show (s.spicmdInput i).iLlStb = false from hsilent, Bool.false_and,
          if_neg Bool.false_ne_true] at this
        apply this
      rw [hheard, List.append_nil]
      apply Follows.response herr' _ _ _ hcomplete hanswer.nothing hrx'
      · simp [step, Spicmd.step, hreset, hcmd, hdone]
      · simp [step, Spicmd.step, hreset, hcmd, hdone]
      · have hfield := extract_extract (s.step P i).spicmdi.oResponse (a := 32) (b := 1) (m := 6)
          (n := 8) (by decide)
        rw [htop] at hfield
        rw [r1Error, hb, ← hfield]
  | false =>
      have hcmd' : (s.step P i).spicmdi.oBusy = true := by
        simp [step, Spicmd.step, hreset, hcmd, hdone]
      have hvalid' : (s.step P i).spicmdi.oRxvalid = false := by
        simp [step, Spicmd.step, hreset, hcmd, hdone, hvalid]
      have hheard : s.heardAt
          = if s.spicmdi.responds (s.spicmdInput i) then [s.lowlevel.oByte] else [] := by
        simp [heardAt, Spicmd.responds, spicmdInput, hcmd, Bool.and_comm]
      cases hnow : s.spicmdi.responds (s.spicmdInput i) with
      | true =>
          rw [hheard, hnow, if_pos rfl]
          apply Follows.command herr' hcmd' hvalid' _ _ (Or.inl hrx')
          · apply hanswer.step_byte hcmd hreset hnow hdone
          · intro _
            apply hinv.apart.step_oStb
            have : s.spicmdi.oCmdSent = true ∧ s.lowlevel.oStb = true := by
              simpa [Spicmd.responds, spicmdInput] using hnow
            apply this.2
      | false =>
          have hanswer' := hanswer.step_silent hcmd hreset hnow
          rw [hheard, hnow, if_neg Bool.false_ne_true, List.append_nil]
          apply Follows.command herr' hcmd' hvalid' hanswer' _ (Or.inl hrx')
          intro hdone'
          have hsame : (s.step P i).spicmdi.done = s.spicmdi.done := by
            rw [hanswer.done]
            apply hanswer'.done
          rw [hsame, hdone] at hdone'
          cases hdone'

theorem Follows.step (h : s.Follows ty bs) (hinv : s.Inv) (hgo : s.Undisturbed i) :
  (s.step P i).Follows ty (bs ++ s.heardAt)
  := by
  cases h with
  | command herr hcmd hvalid hanswer hfresh hrx =>
      apply step_command hinv hgo herr hcmd hvalid hanswer hfresh hrx
  | response herr hcmd hvalid hr hcomplete hafter hrx =>
      apply step_response hinv hgo herr hcmd hvalid hr hcomplete hafter hrx
  | data herr hcmd hvalid hr hcomplete hrx =>
      apply step_data hinv hgo herr hcmd hvalid hr hcomplete hrx
  | failed herr hcause => apply step_failed hgo.busy herr hcause

/-- When the command to read a block is issued. -/
theorem follows_start (hinv : s.Inv) (hissued : s.startsBlock i false = true)
    (herr : s.rCmdErr = false) (hreset : i.iSdReset = false) (hdog : s.rWatchdogErr = false) :
  (s.step P i).Follows (i.iWbData.extractLsb' 8 2) []
  := by
  have hgo : s.starts i = true := by
    simp only [startsBlock, Bool.and_eq_true] at hissued
    apply hissued.1.1
  have hstb : s.wbCmdStb i = true := by
    simp only [starts, Bool.and_eq_true] at hgo
    apply hgo.1
  have hbusy : s.rCmdBusy = false := by
    cases hb : s.rCmdBusy with
    | false => rfl
    | true => rw [starts_of_busy hb] at hgo; cases hgo
  obtain ⟨hcmd, -, hrx, -, hstart⟩ := hinv.idle hbusy
  apply Follows.command
  · simp [step, hdog, hbusy, hstb, herr]
  · simp [step, Spicmd.step, spicmdInput, wReset, hreset, hdog, hcmd, hgo]
  · simp [step, Spicmd.step, hcmd]
  · apply Spicmd.answering_start (i := s.spicmdInput i) hcmd rfl
  · simp [step, Spicmd.step, Spicmd.done, hcmd]
  · right
    refine ⟨?_, ?_, ?_⟩
    · simp [step, hreset, hdog, hbusy, hissued]
    · simp [step, Spirxdata.step, spirxdataInput, hrx, hstart]
    · simp [step, Spirxdata.step, hrx]

/-! ### From the command to its end -/

/-- The bytes that count of those that came from the card after clock `c`. -/
def heard (x : ℕ → Sdspi) (c : ℕ) : ℕ → List (BitVec 8) :=
  log fun k => if c < k then (x k).heardAt else []

/-- The watchdog has expired at a clock from `c` on, before clock `n`. -/
def expired (x : ℕ → Sdspi) (c n : ℕ) : Prop := ∃ k, c ≤ k ∧ k < n ∧ (x k).rWatchdogErr = true

/-- At clock `c` the command to read a block is issued, with the error clear, and at clock
`t` it is completed; a reset would break it off. -/
structure ReadCommand (x : ℕ → Sdspi) (inp : ℕ → Input) (c t : ℕ) : Prop where
  issued : (x c).startsBlock (inp c) false = true
  noError : (x c).rCmdErr = false
  later : c < t
  busy : ∀ k, c < k → k < t → (x k).rCmdBusy = true
  ends : (x t).rCmdBusy = false
  noReset : ∀ k, c ≤ k → k < t → (inp k).iSdReset = false

/-- The type of the response to the command issued. -/
def responseType (i : Input) : BitVec 2 := i.iWbData.extractLsb' 8 2

/-- What came after the response to the command issued at clock `c`. -/
def received (x : ℕ → Sdspi) (inp : ℕ → Input) (c t : ℕ) : List (BitVec 8) :=
  Spicmd.afterResponse (responseType (inp c)) (heard x c t)

/-- A block read went wrong: the response reports an error, a data error token came, the
checksum does not match, or the watchdog expired. -/
def WentWrong (x : ℕ → Sdspi) (inp : ℕ → Input) (c t : ℕ) : Prop :=
  r1Error (heard x c t) = true ∨ dataError (received x inp c t) = true
    ∨ crcDiffers (2 ^ (x c).rLgblklen.toNat) (received x inp c t) = true ∨ expired x c (t + 1)

/-- Software clears the error or starts another command. -/
def touches (s : Sdspi) (i : Input) : Bool :=
  s.starts i || (s.wbCmdStb i && i.iWbData.getLsbD 15)

/-- From the end of the command on, until it is touched, the error tells whether the block
read went wrong. -/
def Reported (x : ℕ → Sdspi) (inp : ℕ → Input) (c t : ℕ) : Prop :=
  ∀ n, t ≤ n → (∀ k, t ≤ k → k < n → (x k).touches (inp k) = false) →
    ((x n).rCmdErr = true ↔ WentWrong x inp c t)

section Runs

variable {s₀ : Sdspi} {inp : ℕ → Input} {c t n : ℕ}

theorem Initial.inv_run (h₀ : s₀.Initial) (n : ℕ) :
  (run (step P) s₀ inp n).Inv
  := by
  apply run_induction h₀.inv
  intro n s hs
  apply hs.step

theorem heard_succ {x : ℕ → Sdspi} (h : c < n) :
  heard x c (n + 1) = heard x c n ++ (x n).heardAt
  := by rw [heard, log_succ, if_pos h]

theorem heard_start {x : ℕ → Sdspi} :
  heard x c (c + 1) = []
  := by
  apply log_eq_of_silent (Nat.zero_le _)
  intro k _ hk
  rw [if_neg (by omega)]

/-- As long as the watchdog does not expire, the command goes its way. -/
theorem follows_run (h₀ : s₀.Initial) (hcmd : ReadCommand (run (step P) s₀ inp) inp c t)
    (hn : c < n) (hnt : n ≤ t) (hdog : ¬ expired (run (step P) s₀ inp) c n) :
  (run (step P) s₀ inp n).Follows (responseType (inp c)) (heard (run (step P) s₀ inp) c n)
  := by
  have hclear : ∀ k, c ≤ k → k < n → (run (step P) s₀ inp k).rWatchdogErr = false := by
    intro k hck hkn
    by_contra hk
    apply hdog
    use k, hck, hkn
    simpa using hk
  clear hdog
  induction n, hn using Nat.le_induction with
  | base =>
      rw [Nat.succ_eq_add_one, heard_start]
      apply follows_start (h₀.inv_run c) hcmd.issued hcmd.noError
      · apply hcmd.noReset c (Nat.le_refl c) hcmd.later
      · apply hclear c (Nat.le_refl c) (Nat.lt_succ_self c)
  | succ n hn ih =>
      rw [heard_succ hn, run_succ]
      apply (ih (by omega) fun k hck hkn => hclear k hck (by omega)).step (h₀.inv_run n)
      constructor
      · apply hcmd.busy n hn hnt
      · apply hcmd.noReset n (Nat.le_of_lt hn) hnt
      · apply hclear n (Nat.le_of_lt hn) (Nat.lt_succ_self n)

/-- When the command has ended without the watchdog, the error is set if the response
reported one or a token with bit 3 set did. -/
theorem rCmdErr_of_follows (hinv : s.Inv) (hends : s.rCmdBusy = false) (h : s.Follows ty bs) :
  s.rCmdErr = true
    ↔ r1Error bs = true ∨ Spirxdata.flagged (Spicmd.afterResponse ty bs) = true
  := by
  obtain ⟨hidle, hvalid, hrx, hrxvalid, -⟩ := hinv.idle hends
  cases h with
  | command _ hbusy => rw [hidle] at hbusy; cases hbusy
  | response _ _ hresponse => rw [hvalid] at hresponse; cases hresponse
  | data herr _ _ hr _ htaking =>
      have hflag : Spirxdata.flagged (Spicmd.afterResponse ty bs) = false := by
        cases htaking with
        | waiting hbusy => rw [hrx] at hbusy; cases hbusy
        | taking _ hbusy => rw [hrx] at hbusy; cases hbusy
        | ended _ _ _ hsame => rw [hsame, hrxvalid, Bool.false_and]
      rw [herr, hr, hflag]
      decide
  | failed herr hcause =>
      rw [herr]
      constructor
      · intro _
        exact hcause.imp id And.right
      · intro _
        rfl

/-- The end of the watchdog sets the error. -/
theorem rCmdErr_of_expired (hcmd : ReadCommand (run (step P) s₀ inp) inp c t)
    (hdog : expired (run (step P) s₀ inp) c t) :
  (run (step P) s₀ inp t).rCmdErr = true
  := by
  obtain ⟨k, hck, hkt, hk⟩ := hdog
  obtain ⟨d, rfl⟩ := Nat.exists_eq_add_of_lt hkt
  have hstays : ∀ j, j ≤ d → (run (step P) s₀ inp (k + 1 + j)).rCmdErr = true := by
    intro j hj
    induction j with
    | zero => simp [run_succ, step, hk]
    | succ j ih =>
        rw [← Nat.add_assoc, run_succ]
        apply rCmdErr_step_of_true _ (ih (by omega))
        apply hcmd.busy <;> omega
  have := hstays d (Nat.le_refl d)
  rw [Nat.add_right_comm] at this
  apply this

/-- The error when the command has ended. -/
theorem rCmdErr_at_end (h₀ : s₀.Initial) (hcmd : ReadCommand (run (step P) s₀ inp) inp c t) :
  (run (step P) s₀ inp t).rCmdErr = true
    ↔ r1Error (heard (run (step P) s₀ inp) c t) = true
      ∨ Spirxdata.flagged (received (run (step P) s₀ inp) inp c t) = true
      ∨ expired (run (step P) s₀ inp) c t
  := by
  by_cases hdog : expired (run (step P) s₀ inp) c t
  · have herr := rCmdErr_of_expired hcmd hdog
    simp [herr, hdog]
  · have hfollows := follows_run h₀ hcmd hcmd.later (Nat.le_refl t) hdog
    rw [rCmdErr_of_follows (h₀.inv_run t) hcmd.ends hfollows]
    simp [hdog, received]

/-- After the command, as long as it is not touched, the error changes only if the watchdog
expired as the command ended. -/
theorem rCmdErr_after (hends : (run (step P) s₀ inp t).rCmdBusy = false) (hn : t ≤ n)
    (huntouched : ∀ k, t ≤ k → k < n →
      (run (step P) s₀ inp k).touches (inp k) = false) :
  (run (step P) s₀ inp n).rCmdBusy = false
    ∧ (t < n → (run (step P) s₀ inp n).rWatchdogErr = false)
    ∧ ((run (step P) s₀ inp n).rCmdErr = true
      ↔ (run (step P) s₀ inp t).rCmdErr = true
        ∨ t < n ∧ (run (step P) s₀ inp t).rWatchdogErr = true)
  := by
  induction n, hn using Nat.le_induction with
  | base => simp [hends]
  | succ n hn ih =>
      obtain ⟨hidle, hdog, herr⟩ := ih fun k htk hkn => huntouched k htk (by omega)
      have hleft := huntouched n hn (Nat.lt_succ_self n)
      simp only [touches, Bool.or_eq_false_iff] at hleft
      obtain ⟨hno, hkeep⟩ := hleft
      refine ⟨?_, ?_, ?_⟩
      · simp [run_succ, step, hidle, hno]
      · intro _
        simp [run_succ, step, hidle]
      · have hnext : (run (step P) s₀ inp (n + 1)).rCmdErr
            = ((run (step P) s₀ inp n).rWatchdogErr || (run (step P) s₀ inp n).rCmdErr) := by
          rw [run_succ]
          generalize run (step P) s₀ inp n = s at *
          simp only [step, hidle]
          cases s.rWatchdogErr <;> cases hstb : s.wbCmdStb (inp n) <;> simp_all
        rw [hnext, Bool.or_eq_true, herr]
        rcases Nat.eq_or_lt_of_le hn with rfl | hlt
        · simp [or_comm]
        · simp [hdog hlt, hlt, Nat.lt_succ_of_lt hlt]

/-- The error tells whether a block read went wrong, in every run, exactly for those reads
which went wrong in a way that the code looks at, if they went wrong at all. -/
theorem read_errors_reported (h₀ : s₀.Initial)
    (hcmd : ReadCommand (run (step P) s₀ inp) inp c t) :
  Reported (run (step P) s₀ inp) inp c t
    ↔ (dataError (received (run (step P) s₀ inp) inp c t) = true
          ∨ crcDiffers (2 ^ (run (step P) s₀ inp c).rLgblklen.toNat)
            (received (run (step P) s₀ inp) inp c t) = true
          ∨ expired (run (step P) s₀ inp) c (t + 1) →
        r1Error (heard (run (step P) s₀ inp) c t) = true
          ∨ Spirxdata.flagged (received (run (step P) s₀ inp) inp c t) = true
          ∨ expired (run (step P) s₀ inp) c t)
  := by
  have hend := rCmdErr_at_end h₀ hcmd
  constructor
  · intro hreported hwrong
    rw [← hend, hreported t (Nat.le_refl t) (by omega)]
    right
    apply hwrong
  · intro hseen n hn huntouched
    obtain ⟨-, -, hafter⟩ := rCmdErr_after hcmd.ends hn huntouched
    rw [hafter, hend]
    constructor
    · rintro ((hr | hflag | ⟨k, hck, hkt, hk⟩) | ⟨-, hdog⟩)
      · left
        apply hr
      · right
        left
        apply dataError_of_flagged hflag
      · right
        right
        right
        exact ⟨k, hck, Nat.lt_succ_of_lt hkt, hk⟩
      · right
        right
        right
        exact ⟨t, Nat.le_of_lt hcmd.later, Nat.lt_succ_self t, hdog⟩
    · rintro (hr | hwrong)
      · left
        left
        apply hr
      · left
        apply hseen hwrong

end Runs

/-! ### Two cards -/

/-- The fastest interface, without startup clocks. -/
def fastest : Params where
  lowlevel := { powerupIdle := 0, startupClocks := 0 }
  initialClkdiv := 0

/-- The registers at power up. -/
def powerUp : Sdspi where
  lowlevel :=
    { powerupCounter := 0, powerupHold := true, startupCounter := 0, startupHold := true,
      rClkCounter := 0, rZCounter := true, oCsN := true, rState := 0, rIreg := 0, oByte := 0,
      rIdle := false, oSclk := true, rByte := 0xff, oMosi := true, oStb := false }
  spicmdi :=
    { oBusy := false, oCmdSent := false, almostSent := false, oRxvalid := false,
      rxR1Byte := false, rxCheckBusy := false, rxvalid := false, rxCounter := 1,
      oResponse := BitVec.allOnes 40, shiftData := BitVec.allOnes 40, crcValidSreg := 0x10,
      crcBusy := false, crcBitCounter := 20, crcShiftReg := 0, crcByte := 0 }
  spirxdatai :=
    { oBusy := false, receivedToken := false, oWrite := false, oAddr := 0, oData := 0,
      oRxvalid := false, oResponse := 0, lastaddr := false, lastdata := false,
      allMemWritten := false, rLgblkszM3 := 0, fill := 0, gearbox := 0, crcByte := 0,
      crcFill := 0, crcActive := false, crcGearbox := 0, crcData := 0, crcErr := false }
  rCmdBusy := false
  rUseFifo := false
  txStart := false
  rxStart := false
  writeToCard := false
  rFifoId := false
  rCmdErr := false
  rDataReg := 0
  rLastROne := 0
  llCmdStb := false
  llCmdDat := 0xff
  rSdspiClk := 0
  rLgblklen := 9
  rWatchdog := 0x3ffffff
  rWatchdogErr := false

/-- The command to read a single block is issued at the first clock, and the card sends
the bytes given, the first of them while it receives the first byte of the command. -/
def answered (bytes : List (BitVec 8)) (n : ℕ) : Input where
  iSdReset := false
  iWbStb := n = 0
  iWbWe := n = 0
  iWbAddr := 0
  iWbData := 0x0851
  iMiso := 3 ≤ n → (bytes.getD ((n - 3) / 16) 0xff).getLsbD (7 - (n - 3) / 2 % 8)
  cardPresent := true
  txBusy := false
  txStb := false
  txByte := 0
  txValid := false
  txResponse := 0

theorem powerUp_initial :
  powerUp.Initial
  := by constructor <;> rfl

/-- A response with an error in it is reported. -/
theorem read_errors_reported_r1 :
  let inp := answered [0xff, 0xff, 0xff, 0xff, 0xff, 0xff, 0xff, 0x04]
  ReadCommand (run (step fastest) powerUp inp) inp 0 164
    ∧ Reported (run (step fastest) powerUp inp) inp 0 164
  := by
  intro inp
  have hcmd : ReadCommand (run (step fastest) powerUp inp) inp 0 164 := by
    constructor
    · decide
    · rfl
    · decide
    · have hbusy : ∀ k < 164, 0 < k →
          (run (step fastest) powerUp inp k).rCmdBusy = true := by decide +kernel
      intro k hk hlt
      apply hbusy k hlt hk
    · decide +kernel
    · intro k _ _
      rfl
  use hcmd
  apply (read_errors_reported powerUp_initial hcmd).mpr
  intro _
  left
  decide +kernel

/-- The token `0x01` is not reported. -/
theorem error_token_unreported :
  let inp := answered [0xff, 0xff, 0xff, 0xff, 0xff, 0xff, 0xff, 0x00, 0x01]
  powerUp.Initial ∧ ReadCommand (run (step fastest) powerUp inp) inp 0 180
    ∧ dataError (received (run (step fastest) powerUp inp) inp 0 180) = true
    ∧ ¬ Reported (run (step fastest) powerUp inp) inp 0 180
  := by
  intro inp
  have htoken : dataError (received (run (step fastest) powerUp inp) inp 0 180) = true := by
    decide +kernel
  refine ⟨powerUp_initial, ?_, htoken, ?_⟩
  · constructor
    · decide
    · rfl
    · decide
    · have hbusy : ∀ k < 180, 0 < k →
          (run (step fastest) powerUp inp k).rCmdBusy = true := by decide +kernel
      intro k hk hlt
      apply hbusy k hlt hk
    · decide +kernel
    · intro k _ _
      rfl
  · intro hreported
    have hset := (hreported 180 (Nat.le_refl 180) (by omega)).mpr (Or.inr (Or.inl htoken))
    have hclear : (run (step fastest) powerUp inp 180).rCmdErr = false := by decide +kernel
    rw [hclear] at hset
    cases hset

end Sdspi

end ZBasic
