import ZBasic.Wbubus.Exec

/-!
# What the executor returns

Outside reset, and as long as the bus answers no request with an error, `wbuexec` is idle,
reads or writes. A read of `n` words makes `n` requests and returns a data word for each of
them. Before the first of them the address is returned, if the address has been set since
the last bus cycle.
-/

namespace ZBasic

open Clocked

namespace Wbuexec

variable (s : Wbuexec) (i : Input)

/-- A codeword is accepted at a clock. -/
def takes : Bool := i.iStb && !s.oBusy

/-- What is returned at a clock. -/
def returned : List Codeword := if s.oStb then [s.oCodword] else []

/-- A read that is accepted now returns its address first. -/
def announces : Bool := !s.oWbCyc && s.rNewAddr

/-- The words a read has still to return. -/
def owed : ℕ := if s.wbState = .readRequest then s.rLen.toNat + s.rAcksNeeded.toNat else 0

/-- Nothing is going on. -/
structure Idle (s : Wbuexec) : Prop where
  wbState : s.wbState = .idle
  oBusy : s.oBusy = false
  oWbCyc : s.oWbCyc = false
  oWbStb : s.oWbStb = false

/-- An idle executor whose address register holds `a`. -/
def idleAt (a : BitVec 32) : Wbuexec where
  wbState := .idle
  oBusy := false
  oWbCyc := false
  oWbStb := false
  oWbWe := false
  oWbAddr := a
  oWbData := 0
  oStb := false
  oCodword := 0
  rAcksNeeded := 0
  rLen := 0
  rInc := false
  rNewAddr := true
  lastReadRequest := false
  lastAck := false
  zeroAcks := true
  singleReadRequest := false

theorem idleAt_idle (a : BitVec 32) :
  (idleAt a).Idle
  := ⟨rfl, rfl, rfl, rfl⟩

/-- A read is going on: `r_len` requests are to be made, and `r_acks_needed` of those made
are to be answered. -/
structure Reading (s : Wbuexec) : Prop where
  wbState : s.wbState = .readRequest
  oBusy : s.oBusy = true
  oWbCyc : s.oWbCyc = true
  oWbWe : s.oWbWe = false
  oWbStb : s.oWbStb = decide (s.rLen ≠ 0)
  lastReadRequest : s.lastReadRequest = decide (s.rLen ≤ 1)
  singleReadRequest : s.singleReadRequest = true → s.rLen ≤ 1
  lastAck : s.lastAck = decide (s.rLen.toNat + s.rAcksNeeded.toNat ≤ 1)
  more : 0 < s.rLen.toNat + s.rAcksNeeded.toNat
  room : s.rLen.toNat + s.rAcksNeeded.toNat < 1024

/-- A write is going on. -/
structure Writing (s : Wbuexec) : Prop where
  wbState : s.wbState = .writeRequest
  oWbCyc : s.oWbCyc = true
  oWbWe : s.oWbWe = true

variable {s i}

theorem Initial.idle (h : s.Initial) :
  s.Idle
  := ⟨h.wbState, h.oBusy, h.oWbCyc, h.oWbStb⟩

/-! ### An idle executor -/

/-- Nothing is returned while nothing but a read is accepted. -/
theorem Idle.returned_step (h : s.Idle) (hreset : i.iReset = false)
    (hread : (i.iStb && i.iCodword.isRead) = false) :
  (s.step i).returned = []
  := by
  have hstb : (s.step i).oStb = false := by
    simp only [step, hreset, h.oWbCyc, h.oBusy, Bool.not_false, Bool.and_true, hread,
      Bool.false_and]
    rfl
  rw [returned, hstb]
  rfl

/-- A command that is no transfer leaves the executor idle. -/
theorem Idle.step_other (h : s.Idle) (hreset : i.iReset = false)
    (hcmd : (i.iStb && (i.iCodword.isWrite || i.iCodword.isRead)) = false) :
  (s.step i).Idle
  := by
  constructor <;> simp [step, fsm, hreset, h.wbState, hcmd, h.oBusy]

theorem Idle.announces_step (h : s.Idle) (hreset : i.iReset = false)
    (hcmd : (i.iStb && (i.iCodword.isWrite || i.iCodword.isRead)) = false) :
  (s.step i).announces = (i.iStb && !i.iCodword.getLsbD 35 || s.announces)
  := by
  rw [announces, (h.step_other hreset hcmd).oWbCyc, announces, h.oWbCyc]
  simp only [step, hreset, h.oWbCyc]
  cases i.iStb <;> cases i.iCodword.getLsbD 35 <;> rfl

/-- A write is started. -/
theorem Idle.step_write (h : s.Idle) (hreset : i.iReset = false) (hstb : i.iStb = true)
    (hwrite : i.iCodword.isWrite = true) :
  (s.step i).Writing ∧ (s.step i).oBusy = true
  := by
  have htop : i.iCodword[35] = false := by
    rw [Codeword.isWrite, beq_iff_eq] at hwrite
    have hbit := congrArg (·.getLsbD 1) hwrite
    simpa using hbit
  refine ⟨⟨?_, ?_, ?_⟩, ?_⟩ <;> simp [step, fsm, hreset, h.wbState, hstb, hwrite, htop]

/-- A read is started, and its address is returned if it is a new one. -/
theorem Idle.step_read (h : s.Idle) (hreset : i.iReset = false) (hstb : i.iStb = true)
    (hread : i.iCodword.isRead = true) (hlen : i.iCodword.readLen ≠ 0) :
  (s.step i).Reading ∧ (s.step i).owed = i.iCodword.readLen.toNat
    ∧ (s.step i).returned = if s.announces then [2#4 ++ s.oWbAddr] else []
  := by
  have htop : i.iCodword[35] = true := by
    rw [Codeword.isRead, beq_iff_eq] at hread
    have hbit := congrArg (·.getLsbD 1) hread
    simpa using hbit
  have hwrite : i.iCodword.isWrite = false := by
    cases hw : i.iCodword.isWrite with
    | false => rfl
    | true => simp [Codeword.isRead_of_isWrite hw] at hread
  have hpos : 0 < i.iCodword.readLen.toNat := by bv_omega
  have hlt := i.iCodword.readLen.isLt
  refine ⟨?_, ?_, ?_⟩
  · constructor <;> simp [step, fsm, hreset, h.wbState, h.oWbCyc, hstb, hwrite, hread, htop]
    · apply hlen
    · rw [BitVec.le_def]
      rfl
    · apply hpos
    · apply hlt
  · simp [owed, step, fsm, hreset, h.wbState, h.oWbCyc, hstb, hwrite, hread]
  · simp [returned, announces, step, nextCodword, hreset, h.oWbCyc, h.oBusy, hstb, hread]

/-! ### A read -/

/-- A slave acknowledges only what was requested. -/
def AckOwed (s : Wbuexec) (i : Input) : Prop :=
  i.iWbAck = true → 0 < s.rAcksNeeded.toNat + (s.request i).toNat

theorem Reading.rLen_step (h : s.Reading) :
  (s.step i).rLen.toNat = s.rLen.toNat - (s.request i).toNat
  := by
  have hlen : (s.step i).rLen = if s.request i && s.rLen != 0 then s.rLen - 1 else s.rLen := by
    simp [Wbuexec.step, h.oWbCyc]
  rw [hlen]
  cases s.request i with
  | false => simp
  | true =>
      by_cases hzero : s.rLen = 0
      · simp [hzero]
      · rw [if_pos (by simpa using hzero)]
        simp only [Bool.toNat_true]
        bv_omega

theorem Reading.rLen_pos (h : s.Reading) (hreq : s.request i = true) :
  0 < s.rLen.toNat
  := by
  have hne : s.rLen ≠ 0 := by
    simp only [request, h.oWbStb, Bool.and_eq_true, decide_eq_true_eq] at hreq
    apply hreq.1
  bv_omega

theorem Reading.rAcksNeeded_step (h : s.Reading) (hreset : i.iReset = false)
    (hack : s.AckOwed i) :
  (s.step i).rAcksNeeded.toNat + i.iWbAck.toNat = s.rAcksNeeded.toNat + (s.request i).toNat
  := by
  have hroom := h.room
  cases hreq : s.request i with
  | true =>
      have hlen := h.rLen_pos hreq
      cases ha : i.iWbAck with
      | true => simp [Wbuexec.step, h.oWbCyc, hreset, hreq, ha]
      | false =>
          have hnext : (s.step i).rAcksNeeded = s.rAcksNeeded + 1 := by
            simp [Wbuexec.step, h.oWbCyc, hreset, hreq, ha]
          rw [hnext]
          simp only [Bool.toNat_false, Bool.toNat_true]
          bv_omega
  | false =>
      cases ha : i.iWbAck with
      | true =>
          have hnext : (s.step i).rAcksNeeded = s.rAcksNeeded - 1 := by
            simp [Wbuexec.step, h.oWbCyc, hreset, hreq, ha]
          have hpos := hack ha
          rw [hreq] at hpos
          rw [hnext]
          simp only [Bool.toNat_false, Bool.toNat_true] at hpos ⊢
          bv_omega
      | false => simp [Wbuexec.step, h.oWbCyc, hreset, hreq, ha]

/-- The words a read returns are the words it owes. -/
theorem Reading.returned_step (h : s.Reading) (hreset : i.iReset = false)
    (herr : i.iWbErr = false) :
  (s.step i).returned
    = if i.iWbAck then
        [7#3 ++ i.iWbData.extractLsb' 30 2 ++ BitVec.ofBool s.rInc ++ i.iWbData.extractLsb' 0 30]
      else []
  := by simp [returned, Wbuexec.step, nextCodword, hreset, herr, h.oWbCyc, h.oWbWe]

/-- The strobe is up as long as there is a request to be made. -/
theorem Reading.oWbStb_step (h : s.Reading) (hreset : i.iReset = false)
    (herr : i.iWbErr = false) :
  (s.step i).oWbStb = decide ((s.step i).rLen ≠ 0)
  := by
  have hlast : (s.singleReadRequest || s.lastReadRequest) = decide (s.rLen ≤ 1) := by
    rw [h.lastReadRequest]
    cases hsingle : s.singleReadRequest with
    | true => simpa using h.singleReadRequest hsingle
    | false => rfl
  have hstb : (s.step i).oWbStb
      = if !i.iWbStall && decide (s.rLen ≤ 1) then false else s.oWbStb := by
    rw [← hlast]
    simp only [Wbuexec.step, fsm, hreset, h.wbState, herr]
    cases i.iWbAck && s.lastAck <;> rfl
  have hlen := h.rLen_step (i := i)
  rw [hstb, h.oWbStb]
  rw [request, h.oWbStb] at hlen
  cases hs : i.iWbStall with
  | true =>
      simp only [hs, Bool.not_true, Bool.and_false, Bool.toNat_false, Nat.sub_zero] at hlen
      rw [BitVec.eq_of_toNat_eq hlen]
      rfl
  | false =>
      simp only [hs, Bool.not_false, Bool.and_true, Bool.true_and] at hlen ⊢
      by_cases hone : s.rLen ≤ 1
      · rw [if_pos (decide_eq_true hone), eq_comm, decide_eq_false_iff_not, not_not]
        apply BitVec.eq_of_toNat_eq
        rw [hlen]
        by_cases hzero : s.rLen = 0
        · simp [hzero]
        · rw [decide_eq_true hzero, Bool.toNat_true]
          bv_omega
      · have hne : s.rLen ≠ 0 := by bv_omega
        have hne' : (s.step i).rLen ≠ 0 := by
          rw [decide_eq_true hne, Bool.toNat_true] at hlen
          bv_omega
        rw [if_neg (by simpa using hone), decide_eq_true hne, decide_eq_true hne']

/-- A read goes on until it owes nothing any more. -/
theorem Reading.step (h : s.Reading) (hreset : i.iReset = false) (herr : i.iWbErr = false)
    (hack : s.AckOwed i) :
  (s.step i).owed + i.iWbAck.toNat = s.owed
    ∧ ((s.step i).Reading ∨ (s.step i).Idle ∧ (s.step i).rLen = 0)
  := by
  have hlen := h.rLen_step (i := i)
  have hneeded := h.rAcksNeeded_step hreset hack
  have hstb := h.oWbStb_step hreset herr
  have hpos : (s.request i).toNat ≤ s.rLen.toNat := by
    cases hreq : s.request i with
    | true => apply h.rLen_pos hreq
    | false => apply Nat.zero_le
  have howed : s.owed = s.rLen.toNat + s.rAcksNeeded.toNat := by rw [owed, if_pos h.wbState]
  have hroom := h.room
  have hmore := h.more
  cases hend : i.iWbAck && s.lastAck with
  | true =>
      obtain ⟨ha, hlast⟩ := Bool.and_eq_true_iff.mp hend
      have hone := hlast
      rw [h.lastAck, decide_eq_true_eq] at hone
      rw [ha, Bool.toNat_true] at hneeded
      have hzero : (s.step i).rLen = 0 := by
        apply BitVec.eq_of_toNat_eq
        change (s.step i).rLen.toNat = 0
        omega
      have hidle : (s.step i).Idle := by
        constructor
        · simp [Wbuexec.step, fsm, hreset, h.wbState, herr, ha, hlast]
        · simp [Wbuexec.step, fsm, hreset, h.wbState, herr, ha, hlast]
        · simp [Wbuexec.step, fsm, hreset, h.wbState, herr, ha, hlast]
        · rw [hstb, hzero]
          rfl
      constructor
      · rw [howed, owed, hidle.wbState, if_neg (by decide), ha, Bool.toNat_true]
        omega
      · right
        use hidle, hzero
  | false =>
      have hstate : (s.step i).wbState = .readRequest := by
        simp [Wbuexec.step, fsm, hreset, h.wbState, herr, hend]
      have hbusy : (s.step i).oBusy = true := by
        simp [Wbuexec.step, fsm, hreset, h.wbState, herr, hend, h.oBusy]
      have hcyc : (s.step i).oWbCyc = true := by
        simp [Wbuexec.step, fsm, hreset, h.wbState, herr, hend]
      have hsum : (s.step i).rLen.toNat + (s.step i).rAcksNeeded.toNat + i.iWbAck.toNat
          = s.rLen.toNat + s.rAcksNeeded.toNat := by omega
      constructor
      · rw [owed, if_pos hstate, howed, hsum]
      · left
        refine ⟨hstate, hbusy, hcyc, ?_, hstb, ?_, ?_, ?_, ?_, ?_⟩
        · simp [Wbuexec.step, h.wbState, h.oWbWe]
        · have hlast : (s.step i).lastReadRequest
              = if s.request i then decide (s.rLen ≤ 2) else decide (s.rLen ≤ 1) := by
            simp [Wbuexec.step, h.oWbCyc]
          rw [hlast]
          cases hreq : s.request i with
          | true =>
              rw [hreq, Bool.toNat_true] at hlen
              rw [if_pos rfl, decide_eq_decide]
              bv_omega
          | false =>
              rw [hreq, Bool.toNat_false] at hlen
              rw [if_neg Bool.false_ne_true, decide_eq_decide]
              bv_omega
        · intro hsingle
          have hsingle' : s.singleReadRequest = true := by
            simpa [Wbuexec.step, h.oWbCyc] using hsingle
          have hone := h.singleReadRequest hsingle'
          rw [BitVec.le_def] at hone ⊢
          omega
        · have hlast : (s.step i).lastAck
              = decide (s.rLen.toNat + s.rAcksNeeded.toNat ≤ 1 + i.iWbAck.toNat) := by
            simp only [Wbuexec.step, h.oWbCyc, h.oWbWe]
            cases i.iWbAck <;> rfl
          rw [hlast, decide_eq_decide]
          omega
        · cases ha : i.iWbAck with
          | true =>
              rw [ha, h.lastAck, Bool.true_and, decide_eq_false_iff_not] at hend
              rw [ha, Bool.toNat_true] at hsum
              omega
          | false =>
              rw [ha, Bool.toNat_false] at hsum
              omega
        · omega

/-! ### A write -/

/-- A write goes on, or ends and leaves the executor idle. -/
theorem Writing.step (h : s.Writing) (hreset : i.iReset = false) (herr : i.iWbErr = false) :
  (s.step i).Writing ∨ (s.step i).Idle
  := by
  by_cases hleave : i.iStb && !s.oWbStb && (s.oBusy && !i.iCodword.isWrite && s.zeroAcks)
  · right
    obtain ⟨⟨hstb, hstb'⟩, ⟨hbusy, hwrite⟩, hzero⟩ :
        (i.iStb = true ∧ s.oWbStb = false) ∧ (s.oBusy = true ∧ i.iCodword.isWrite = false)
          ∧ s.zeroAcks = true := by simpa using hleave
    constructor <;>
      simp [Wbuexec.step, fsm, hreset, herr, h.wbState, hstb, hstb', hbusy, hwrite, hzero]
  · left
    constructor
    · simp [Wbuexec.step, fsm, hreset, herr, h.wbState, hleave]
    · simp [Wbuexec.step, fsm, hreset, herr, h.wbState, hleave]
    · simp [Wbuexec.step, h.wbState, h.oWbWe]

/-- A write that goes on has seen the write it is ready for. -/
theorem Writing.step_free (h : s.Writing) (hreset : i.iReset = false) (herr : i.iWbErr = false)
    (h' : (s.step i).Writing) (hfree : (s.step i).oBusy = false) :
  i.iStb = true ∧ s.oBusy = true ∧ i.iCodword.isWrite = true
  := by
  have hstate := h'.wbState
  simp only [Wbuexec.step, fsm, hreset, herr, h.wbState] at hfree hstate
  cases hstb : i.iStb <;> cases hbusy : s.oBusy <;> cases hwrite : i.iCodword.isWrite <;>
    simp_all

/-- A write returns states only. -/
theorem Writing.returned_step (h : s.Writing) (hreset : i.iReset = false)
    (herr : i.iWbErr = false) :
  (s.step i).returned = if i.iWbAck then [2#6 ++ i.iWbData.extractLsb' 0 30] else []
  := by simp [returned, Wbuexec.step, nextCodword, hreset, herr, h.oWbCyc, h.oWbWe]

theorem Writing.announces_step (h : s.Writing) (hreset : i.iReset = false) :
  (s.step i).announces = false
  := by simp [announces, Wbuexec.step, hreset, h.oWbCyc]

end Wbuexec

end ZBasic
