import ZBasic.Cpu.MemoryUnit
import Mathlib.Tactic.Use

/-!
# The simple memory unit

`memops` works on one access at a time. It strobes the bus of the access until the request is
accepted, and waits for the answer. The lock keeps the cycle line of a bus up between accesses.
-/

namespace ZBasic

open Clocked

/-- The registers of `memops`. -/
structure Memops (aw : ℕ) where
  rWbCycGbl : Bool
  rWbCycLcl : Bool
  oWbStbGbl : Bool
  oWbStbLcl : Bool
  oWbWe : Bool
  oWbAddr : BitVec aw
  oWbData : BitVec 32
  oWbSel : BitVec 4
  rOp : BitVec 4
  oValid : Bool
  oErr : Bool
  oWreg : BitVec 5
  oResult : BitVec 32
  lockGbl : Bool
  lockLcl : Bool

namespace Memops

variable {aw : ℕ}

section Source

variable (cfg : MemoryConfig) (s : Memops aw) (i : MemoryInput)

/-- `misaligned` -/
def misaligned : Bool := cfg.optAlignmentErr && if flags i.access.decoded then i.iStb else false

/-- `lcl_stb` -/
def lclStb : Bool :=
  i.iStb && cfg.withLocalBus && i.access.iAddr.extractLsb' 24 8 == 0xff && !misaligned cfg i

/-- `gbl_stb` -/
def gblStb : Bool :=
  i.iStb && (!cfg.withLocalBus || i.access.iAddr.extractLsb' 24 8 != 0xff) && !misaligned cfg i

/-- `o_wb_cyc_gbl` -/
def oWbCycGbl : Bool := s.rWbCycGbl || (cfg.implementLock && s.lockGbl)

/-- `o_wb_cyc_lcl` -/
def oWbCycLcl : Bool := s.rWbCycLcl || (cfg.implementLock && s.lockLcl)

/-- `o_busy` -/
def oBusy : Bool := s.rWbCycGbl || s.rWbCycLcl

/-- `o_wb_data` for an access. -/
def nextData (a : Access) : BitVec 32 :=
  if cfg.optZeroOnIdle then dataFor a.decoded a.iData
  else if a.decoded.extractLsb' 2 2 = 0b10 then
    a.iData.extractLsb' 0 16 ++ a.iData.extractLsb' 0 16
  else if a.decoded.extractLsb' 2 2 = 0b11 then
    a.iData.extractLsb' 0 8 ++ a.iData.extractLsb' 0 8 ++ a.iData.extractLsb' 0 8
      ++ a.iData.extractLsb' 0 8
  else a.iData

/-- The request is cleared between accesses. -/
def clears : Bool := cfg.optZeroOnIdle && !s.oWbCycGbl cfg && !s.oWbCycLcl cfg

/-- One clock edge of `memops`. -/
def step : Memops aw where
  rWbCycGbl := !i.iReset
    && if s.oBusy then s.rWbCycGbl && !(i.iWbAck || i.iWbErr) else gblStb cfg i
  rWbCycLcl := !i.iReset
    && if s.oBusy then s.rWbCycLcl && !(i.iWbAck || i.iWbErr) else lclStb cfg i
  oWbStbGbl := !i.iReset && !(i.iWbErr && s.rWbCycGbl)
    && if s.oWbCycGbl cfg then s.oWbStbGbl && i.iWbStall else gblStb cfg i
  oWbStbLcl := !i.iReset && !(i.iWbErr && s.rWbCycLcl)
    && if s.oWbCycLcl cfg then s.oWbStbLcl && i.iWbStall else lclStb cfg i
  oWbWe := if i.iStb then i.access.iOp.getLsbD 0
    else if s.clears cfg then false
    else s.oWbWe
  oWbData := if i.iStb then nextData cfg i.access
    else if s.clears cfg then 0
    else s.oWbData
  oWbAddr := if i.iStb then i.access.iAddr.extractLsb' 2 aw
    else if s.clears cfg then 0
    else s.oWbAddr
  oWbSel := if i.iStb then selFor i.access.decoded
    else if s.clears cfg then 0
    else s.oWbSel
  rOp := if i.iStb then i.access.decoded else s.rOp
  oValid := !i.iReset && ((s.oWbCycGbl cfg || s.oWbCycLcl cfg) && i.iWbAck && !s.oWbWe)
  oErr := !i.iReset && if s.oBusy then i.iWbErr else i.iStb && misaligned cfg i
  oWreg := if i.iStb then i.access.iOreg else s.oWreg
  oResult := if cfg.optZeroOnIdle && !i.iWbAck then 0 else resultFor s.rOp i.iWbData
  lockGbl := !i.iReset && !((i.iWbErr && s.oBusy) || misaligned cfg i)
    && (i.iLock && (s.rWbCycGbl || s.lockGbl) && !lclStb cfg i)
  lockLcl := !i.iReset && !((i.iWbErr && s.oBusy) || misaligned cfg i)
    && (i.iLock && (s.rWbCycLcl || s.lockLcl) && !gblStb cfg i)

/-- The registers that count for the state at power up; the others are arbitrary. -/
structure Initial : Prop where
  rWbCycGbl : s.rWbCycGbl = false
  rWbCycLcl : s.rWbCycLcl = false
  oWbStbGbl : s.oWbStbGbl = false
  oWbStbLcl : s.oWbStbLcl = false
  oValid : s.oValid = false
  oErr : s.oErr = false
  lockGbl : s.lockGbl = false
  lockLcl : s.lockLcl = false

end Source

/-- `memops`, seen from outside. It takes an access when it is not busy. -/
def unit (aw : ℕ) (cfg : MemoryConfig) : MemoryUnit aw (Memops aw) where
  step := step cfg
  oBusy := oBusy
  stalled s _ := s.oBusy
  oWbStbGbl := oWbStbGbl
  oWbStbLcl := oWbStbLcl
  oWbAddr := oWbAddr
  oWbSel := oWbSel
  oWbData := oWbData
  oWbWe := oWbWe
  oValid := oValid
  oWreg := oWreg
  oResult := oResult
  oErr := oErr

/-- No access is offered to a bus whose cycle line a lock keeps up. -/
def Unlocked (cfg : MemoryConfig) (s : Memops aw) (i : MemoryInput) : Prop :=
  i.iReset = false → (gblStb cfg i = true → s.oWbCycGbl cfg = false)
    ∧ (lclStb cfg i = true → s.oWbCycLcl cfg = false)

/-- What `memops` keeps between clocks. -/
structure Inv (cfg : MemoryConfig) (x : Memops aw × Traffic aw) : Prop where
  served : Served cfg (unit aw cfg) x
  oWbStbGbl : x.1.oWbStbGbl = true → x.1.rWbCycGbl = true
  oWbStbLcl : x.1.oWbStbLcl = true → x.1.rWbCycLcl = true
  current : x.1.oBusy = true → ∃ a, x.2.outstanding cfg.optAlignmentErr = [a]
    ∧ x.1.rOp = a.decoded ∧ x.1.oWreg = a.iOreg ∧ x.1.oWbWe = a.isStore

section Step

variable {cfg : MemoryConfig} {s : Memops aw} {x : Memops aw × Traffic aw} {i : MemoryInput}

theorem misaligned_eq :
  misaligned cfg i = (i.iStb && (cfg.optAlignmentErr && i.access.misaligned))
  := by
  rw [misaligned, flags_decoded]
  cases i.access.misaligned <;> cases cfg.optAlignmentErr <;> simp

/-- An access that is not flagged goes to one of the buses. -/
theorem stb_eq :
  (gblStb cfg i || lclStb cfg i) = (i.iStb && !(cfg.optAlignmentErr && i.access.misaligned))
  := by
  rw [gblStb, lclStb, misaligned_eq, bne]
  cases i.iStb <;> cases cfg.withLocalBus <;>
    cases i.access.iAddr.extractLsb' 24 8 == 0xff <;>
    cases cfg.optAlignmentErr && i.access.misaligned <;> rfl

theorem stb_exclusive :
  (gblStb cfg i && lclStb cfg i) = false
  := by
  rw [gblStb, lclStb, bne]
  cases i.iStb <;> cases cfg.withLocalBus <;>
    cases i.access.iAddr.extractLsb' 24 8 == 0xff <;> cases misaligned cfg i <;> rfl

/-- It goes to the bus of its address. -/
theorem isLocal_of_stb :
  (gblStb cfg i = true → i.access.isLocal cfg.withLocalBus = false)
    ∧ (lclStb cfg i = true → i.access.isLocal cfg.withLocalBus = true)
  := by
  rw [gblStb, lclStb, Access.isLocal, bne]
  cases i.iStb <;> cases cfg.withLocalBus <;>
    cases i.access.iAddr.extractLsb' 24 8 == 0xff <;> simp

theorem issued_eq :
  i.issued cfg.optAlignmentErr = if gblStb cfg i || lclStb cfg i then [i.access] else []
  := by
  rw [stb_eq, MemoryInput.issued, MemoryInput.offered]
  cases i.iStb with
  | false => simp
  | true =>
      simp only [if_true, Option.toList_some, Bool.true_and]
      cases hflag : cfg.optAlignmentErr && i.access.misaligned with
      | false => simp only [List.filter_cons, hflag, List.filter_nil, Bool.not_false, if_true]
      | true =>
          simp only [List.filter_cons, hflag, List.filter_nil, Bool.not_true,
            Bool.false_eq_true, if_false]

/-- Without zeros on the lanes that are not selected, the data is on every lane. -/
theorem onLanes_nextData (a : Access) :
  onLanes a.lanes (nextData cfg a) = onLanes a.lanes a.spread
  := by
  have hsize : a.decoded.extractLsb' 2 2 = a.iOp.extractLsb' 1 2 := by
    rw [Access.decoded, extract_append_high _ _ (Nat.le_refl 2), extract_all]
  rw [nextData]
  cases cfg.optZeroOnIdle with
  | true =>
      rw [if_pos rfl]
      apply dataFor_decoded
  | false =>
      rw [if_neg Bool.false_ne_true, hsize, Access.spread, Access.isByte, Access.isHalfword]
      rcases a.cases.1 with h | h | h | h <;> rw [h] <;> rfl

theorem inv_reset (hreset : i.iReset = true) :
  Inv cfg ((unit aw cfg).watch x i)
  := by
  have hwatch : (unit aw cfg).watch x i = (step cfg x.1 i, Traffic.none aw) := by
    simp [MemoryUnit.watch, unit, hreset]
  rw [hwatch]
  constructor
  · apply served_none <;> simp [unit, step, oBusy, hreset]
  · simp [step, hreset]
  · simp [step, hreset]
  · simp [step, oBusy, hreset]

theorem quiet_of_busy (henv : (unit aw cfg).Environment x i) (hbusy : x.1.oBusy = true) :
  i.iStb = false
  := by
  by_contra hstb
  rw [Bool.not_eq_false] at hstb
  have hready : x.1.oBusy = false := henv.ready hstb
  rw [hbusy] at hready
  contradiction

/-- While an access is worked on, the request stays until it is accepted. -/
theorem Inv.stb_busy (h : Inv cfg x) (henv : (unit aw cfg).Environment x i)
    (hreset : i.iReset = false) (hbusy : x.1.oBusy = true) :
  (step cfg x.1 i).oWbStbGbl = (x.1.oWbStbGbl && i.iWbStall)
    ∧ (step cfg x.1 i).oWbStbLcl = (x.1.oWbStbLcl && i.iWbStall)
  := by
  have hstb := quiet_of_busy henv hbusy
  have hgbl := h.oWbStbGbl
  have hlcl := h.oWbStbLcl
  constructor
  · cases hs : x.1.oWbStbGbl with
    | false => simp [step, hreset, henv.noErr, gblStb, hstb, hs]
    | true => simp [step, hreset, henv.noErr, oWbCycGbl, hgbl hs, hs]
  · cases hs : x.1.oWbStbLcl with
    | false => simp [step, hreset, henv.noErr, lclStb, hstb, hs]
    | true => simp [step, hreset, henv.noErr, oWbCycLcl, hlcl hs, hs]

/-- The answer comes when the request is accepted. -/
theorem Inv.accepted_of_ack (h : Inv cfg x) (henv : (unit aw cfg).Environment x i)
    (hbusy : x.1.oBusy = true) (hack : i.iWbAck = true) :
  ((x.1.oWbStbGbl || x.1.oWbStbLcl) && i.iWbStall) = false
  := by
  obtain ⟨a, houtstanding, -⟩ := h.current hbusy
  have hlength := h.served.length_issued
  have hone := congrArg List.length houtstanding
  rw [Traffic.outstanding, List.length_drop, List.length_singleton] at hone
  by_contra hstall
  rw [Bool.not_eq_false, Bool.and_eq_true] at hstall
  have hanswer := henv.answers hack
  have hpending : (unit aw cfg).pending x.1 ≠ [] := by
    rw [ne_eq, MemoryUnit.pending_eq_nil_iff, ← Bool.or_eq_false_iff, Bool.not_eq_false]
    apply hstall.1
  have hpos := List.length_pos_of_ne_nil hpending
  have haccepted : (unit aw cfg).accepted x.1 i = [] := by
    rw [MemoryUnit.accepted, hstall.2, if_pos rfl]
  rw [haccepted, List.append_nil] at hanswer
  omega

theorem Inv.step_busy (h : Inv cfg x) (henv : (unit aw cfg).Environment x i)
    (hreset : i.iReset = false) (hbusy : x.1.oBusy = true) :
  Inv cfg ((unit aw cfg).watch x i)
  := by
  obtain ⟨a, houtstanding, hop, hreg, hwe⟩ := h.current hbusy
  have hstb := quiet_of_busy henv hbusy
  obtain ⟨hgbl, hlcl⟩ := h.stb_busy henv hreset hbusy
  have hnone : i.issued cfg.optAlignmentErr = [] := by
    simp [issued_eq, stb_eq, hstb]
  have hnext := h.served.outstanding_watch henv hreset
  rw [houtstanding, hnone, List.append_nil] at hnext
  have hcyc : (x.1.oWbCycGbl cfg || x.1.oWbCycLcl cfg) = true := by
    rw [oBusy, Bool.or_eq_true] at hbusy
    rcases hbusy with hbusy | hbusy <;> simp [oWbCycGbl, oWbCycLcl, hbusy]
  have hclears : x.1.clears cfg = false := by
    rw [Bool.or_eq_true] at hcyc
    rcases hcyc with hcyc | hcyc <;> simp [clears, hcyc]
  have hgbl' : (step cfg x.1 i).rWbCycGbl = (x.1.rWbCycGbl && !i.iWbAck) := by
    simp [step, hreset, hbusy, henv.noErr]
  have hlcl' : (step cfg x.1 i).rWbCycLcl = (x.1.rWbCycLcl && !i.iWbAck) := by
    simp [step, hreset, hbusy, henv.noErr]
  have hbusy' : (step cfg x.1 i).oBusy = !i.iWbAck := by
    rw [oBusy] at hbusy
    rw [oBusy, hgbl', hlcl', ← Bool.and_or_distrib_right, hbusy, Bool.true_and]
  constructor
  case served =>
    apply h.served.watch henv hreset
    case hpending =>
      have hwires : (unit aw cfg).pending (step cfg x.1 i)
          = if i.iWbStall then (unit aw cfg).pending x.1 else [] := by
        simp only [MemoryUnit.pending, MemoryUnit.wires, unit, hgbl, hlcl]
        simp only [step, hstb, hclears, Bool.false_eq_true, if_false]
        cases i.iWbStall with
        | false => simp
        | true =>
            simp
            rfl
      change (unit aw cfg).accepted x.1 i ++ (unit aw cfg).pending (step cfg x.1 i) = _
      rw [hwires, MemoryUnit.accepted, hnone, List.map_nil, List.append_nil]
      cases i.iWbStall <;> simp
    case hreturned =>
      simp only [MemoryUnit.returned, unit, houtstanding, List.head?_cons, Option.bind_some,
        Access.result, ← hwe, ← hreg, ← resultFor_decoded, ← hop]
      simp only [step, hreset, hcyc, hstb, Bool.not_false, Bool.true_and, Bool.false_eq_true,
        if_false]
      cases i.iWbAck with
      | false => rfl
      | true => cases x.1.oWbWe <;> simp
    case herr => simp [unit, step, hreset, hbusy, hstb, henv.noErr]
    case hbusy =>
      change (step cfg x.1 i).oBusy = true ↔ _
      rw [hbusy', hnext]
      cases i.iWbAck <;> simp
  case oWbStbGbl =>
    intro hs
    change (step cfg x.1 i).oWbStbGbl = true at hs
    change (step cfg x.1 i).rWbCycGbl = true
    rw [hgbl, Bool.and_eq_true] at hs
    rw [hgbl', h.oWbStbGbl hs.1, Bool.true_and, Bool.not_eq_true']
    by_contra hack
    have := h.accepted_of_ack henv hbusy (by simpa using hack)
    simp [hs] at this
  case oWbStbLcl =>
    intro hs
    change (step cfg x.1 i).oWbStbLcl = true at hs
    change (step cfg x.1 i).rWbCycLcl = true
    rw [hlcl, Bool.and_eq_true] at hs
    rw [hlcl', h.oWbStbLcl hs.1, Bool.true_and, Bool.not_eq_true']
    by_contra hack
    have := h.accepted_of_ack henv hbusy (by simpa using hack)
    simp [hs] at this
  case current =>
    intro hs
    change (step cfg x.1 i).oBusy = true at hs
    rw [hbusy', Bool.not_eq_true'] at hs
    use a
    rw [hnext, hs]
    simp [MemoryUnit.watch, unit, step, hstb, hclears, hop, hreg, hwe]

/-- Between accesses nothing is strobed, and nothing is to be answered. -/
theorem Inv.of_idle (h : Inv cfg x) (henv : (unit aw cfg).Environment x i)
    (hbusy : x.1.oBusy = false) :
  x.1.oWbStbGbl = false ∧ x.1.oWbStbLcl = false ∧ x.2.outstanding cfg.optAlignmentErr = []
    ∧ i.iWbAck = false
  := by
  have hpending := h.served.pending_of_not_busy hbusy
  rw [MemoryUnit.pending_eq_nil_iff] at hpending
  have houtstanding : x.2.outstanding cfg.optAlignmentErr = [] := by
    by_contra hsome
    have := h.served.busy_iff.mpr hsome
    change x.1.oBusy = true at this
    rw [hbusy] at this
    contradiction
  use hpending.1, hpending.2, houtstanding
  rw [← Bool.not_eq_true]
  intro hack
  obtain ⟨a, rest, hsome⟩ := h.served.outstanding_of_ack henv hack
  rw [houtstanding] at hsome
  contradiction

/-- An access that is taken in is strobed on its bus, unless a lock keeps that up. -/
theorem Inv.stb_idle (h : Inv cfg x) (henv : (unit aw cfg).Environment x i)
    (hreset : i.iReset = false) (hlock : Unlocked cfg x.1 i) (hbusy : x.1.oBusy = false) :
  (step cfg x.1 i).oWbStbGbl = gblStb cfg i ∧ (step cfg x.1 i).oWbStbLcl = lclStb cfg i
  := by
  obtain ⟨hstbGbl, hstbLcl, -⟩ := h.of_idle henv hbusy
  obtain ⟨hgblFree, hlclFree⟩ := hlock hreset
  constructor
  · cases hs : gblStb cfg i with
    | false => simp [step, hstbGbl, hs]
    | true => simp [step, hreset, henv.noErr, hs, hgblFree hs]
  · cases hs : lclStb cfg i with
    | false => simp [step, hstbLcl, hs]
    | true => simp [step, hreset, henv.noErr, hs, hlclFree hs]

/-- Its cycle begins. -/
theorem cyc_idle (hreset : i.iReset = false) (hbusy : s.oBusy = false) :
  (step cfg s i).rWbCycGbl = gblStb cfg i ∧ (step cfg s i).rWbCycLcl = lclStb cfg i
  := by simp [step, hreset, hbusy]

theorem iStb_of_stb (h : (gblStb cfg i || lclStb cfg i) = true) :
  i.iStb = true
  := by
  rw [stb_eq, Bool.and_eq_true] at h
  apply h.1

/-- What is strobed for an access is its request. -/
theorem wires_taken (hgbl : (step cfg s i).oWbStbGbl = gblStb cfg i)
    (hlcl : (step cfg s i).oWbStbLcl = lclStb cfg i) :
  (unit aw cfg).pending (step cfg s i)
    = (i.issued cfg.optAlignmentErr).map fun a => a.request aw cfg.withLocalBus
  := by
  have hwires : i.iStb = true → (unit aw cfg).wires (step cfg s i) (i.access.isLocal cfg.withLocalBus)
      = i.access.request aw cfg.withLocalBus := by
    intro hstb
    simp only [MemoryUnit.wires, unit, step, hstb, if_true, selFor_decoded, onLanes_nextData]
    rfl
  obtain ⟨hglobal, hlocal⟩ := @isLocal_of_stb cfg i
  have hexclusive := @stb_exclusive cfg i
  rw [issued_eq, MemoryUnit.pending]
  change (if (step cfg s i).oWbStbGbl then _ else _)
    ++ (if (step cfg s i).oWbStbLcl then _ else _) = _
  rw [hgbl, hlcl]
  cases hs : gblStb cfg i with
  | true =>
      have hs' : lclStb cfg i = false := by simpa [hs] using hexclusive
      have hstb := iStb_of_stb (by rw [hs, Bool.true_or])
      have hrequest := hwires hstb
      rw [hglobal hs] at hrequest
      simp [hs', hrequest]
  | false =>
      cases hs' : lclStb cfg i with
      | false => rfl
      | true =>
          have hstb := iStb_of_stb (by rw [hs', Bool.or_true])
          have hrequest := hwires hstb
          rw [hlocal hs'] at hrequest
          simp [hrequest]

theorem Inv.step_idle (h : Inv cfg x) (henv : (unit aw cfg).Environment x i)
    (hreset : i.iReset = false) (hlock : Unlocked cfg x.1 i) (hbusy : x.1.oBusy = false) :
  Inv cfg ((unit aw cfg).watch x i)
  := by
  obtain ⟨hstbGbl, hstbLcl, houtstanding, hack⟩ := h.of_idle henv hbusy
  obtain ⟨hstbGbl', hstbLcl'⟩ := h.stb_idle henv hreset hlock hbusy
  obtain ⟨hgbl', hlcl'⟩ := @cyc_idle _ cfg _ _ hreset hbusy
  have hbusy' : (step cfg x.1 i).oBusy = (gblStb cfg i || lclStb cfg i) := by
    rw [oBusy, hgbl', hlcl']
  have hnext := h.served.outstanding_watch henv hreset
  rw [houtstanding, hack, if_neg Bool.false_ne_true, List.nil_append] at hnext
  constructor
  case served =>
    apply h.served.watch henv hreset
    case hpending =>
      have hpending := h.served.pending_of_not_busy hbusy
      change (unit aw cfg).accepted x.1 i ++ (unit aw cfg).pending (step cfg x.1 i) = _
      rw [wires_taken hstbGbl' hstbLcl', MemoryUnit.accepted, hpending, ite_self]
    case hreturned => simp [MemoryUnit.returned, unit, step, hack]
    case herr =>
      rw [← misaligned_eq]
      simp only [unit, step, hreset, hbusy, Bool.false_eq_true, if_false, misaligned_eq,
        Bool.not_false, Bool.true_and]
      cases i.iStb <;> rfl
    case hbusy =>
      change (step cfg x.1 i).oBusy = true ↔ _
      rw [hbusy', hnext, issued_eq]
      cases gblStb cfg i || lclStb cfg i <;> simp
  case oWbStbGbl =>
    intro hs
    change (step cfg x.1 i).oWbStbGbl = true at hs
    change (step cfg x.1 i).rWbCycGbl = true
    rw [hgbl', ← hstbGbl', hs]
  case oWbStbLcl =>
    intro hs
    change (step cfg x.1 i).oWbStbLcl = true at hs
    change (step cfg x.1 i).rWbCycLcl = true
    rw [hlcl', ← hstbLcl', hs]
  case current =>
    intro hs
    change (step cfg x.1 i).oBusy = true at hs
    rw [hbusy'] at hs
    use i.access
    rw [hnext, issued_eq, hs, if_pos rfl]
    simp [MemoryUnit.watch, unit, step, iStb_of_stb hs, Access.isStore]

theorem Inv.step (h : Inv cfg x) (henv : (unit aw cfg).Environment x i)
    (hlock : Unlocked cfg x.1 i) :
  Inv cfg ((unit aw cfg).watch x i)
  := by
  cases hreset : i.iReset with
  | true => apply inv_reset hreset
  | false =>
      cases hbusy : x.1.oBusy with
      | true => apply h.step_busy henv hreset hbusy
      | false => apply h.step_idle henv hreset hlock hbusy

/-- Where the requests of all accesses are made, none was offered to a bus that is locked. -/
theorem unlocked_of_served (h : Served cfg (unit aw cfg) x)
    (henv : (unit aw cfg).Environment x i)
    (h' : Served cfg (unit aw cfg) ((unit aw cfg).watch x i)) :
  Unlocked cfg x.1 i
  := by
  intro hreset
  -- An access that is taken in is strobed.
  have hstrobed : (gblStb cfg i || lclStb cfg i) = true →
      x.1.oWbStbGbl = false ∧ x.1.oWbStbLcl = false
        ∧ ((step cfg x.1 i).oWbStbGbl || (step cfg x.1 i).oWbStbLcl) = true := by
    intro hs
    have hstb := hs
    rw [stb_eq, Bool.and_eq_true] at hstb
    have hpending := h.pending_of_not_busy (henv.ready hstb.1)
    have hnone := (MemoryUnit.pending_eq_nil_iff _ _).mp hpending
    have hlength := h.length_issued
    have hlength' := h'.length_issued
    have hrequests : ((unit aw cfg).watch x i).2.requests = x.2.requests := by
      simp [MemoryUnit.watch, MemoryUnit.accepted, hreset, hpending]
    rw [issued_watch hreset, issued_eq, hs, if_pos rfl, List.length_append, hrequests] at hlength'
    rw [hpending] at hlength
    use hnone.1, hnone.2
    by_contra hstrobe
    have hpending' : (unit aw cfg).pending ((unit aw cfg).watch x i).1 = [] := by
      rw [MemoryUnit.pending_eq_nil_iff, ← Bool.or_eq_false_iff, ← Bool.not_eq_true]
      apply hstrobe
    rw [hpending'] at hlength'
    simp only [List.length_singleton, List.length_nil] at hlength hlength'
    omega
  constructor
  · intro hgbl
    obtain ⟨hstbGbl, hstbLcl, hstrobe⟩ := hstrobed (by rw [hgbl, Bool.true_or])
    have hlcl : lclStb cfg i = false := by
      simpa [hgbl] using @stb_exclusive cfg i
    by_contra hlocked
    rw [Bool.not_eq_false] at hlocked
    simp [step, hstbGbl, hstbLcl, hlocked, hlcl] at hstrobe
  · intro hlcl
    obtain ⟨hstbGbl, hstbLcl, hstrobe⟩ := hstrobed (by rw [hlcl, Bool.or_true])
    have hgbl : gblStb cfg i = false := by
      simpa [hlcl] using @stb_exclusive cfg i
    by_contra hlocked
    rw [Bool.not_eq_false] at hlocked
    simp [step, hstbGbl, hstbLcl, hlocked, hgbl] at hstrobe

end Step

section Runs

variable {cfg : MemoryConfig} {s₀ : Memops aw} {inp : ℕ → MemoryInput}

theorem inv_start (h₀ : s₀.Initial) :
  Inv cfg (s₀, Traffic.none aw)
  := by
  constructor
  · apply served_none
    · apply h₀.oWbStbGbl
    · apply h₀.oWbStbLcl
    · simp [unit, oBusy, h₀.rWbCycGbl, h₀.rWbCycLcl]
  · simp [h₀.oWbStbGbl]
  · simp [h₀.oWbStbLcl]
  · simp [oBusy, h₀.rWbCycGbl, h₀.rWbCycLcl]

/-- `memops` does what the accesses ask for exactly as long as none is offered to a bus that is
locked. -/
theorem serves_iff (h₀ : s₀.Initial)
    (henv : ∀ n, (unit aw cfg).Environment ((unit aw cfg).history s₀ inp n) (inp n)) :
  (∀ n, Served cfg (unit aw cfg) ((unit aw cfg).history s₀ inp n))
    ↔ ∀ n, Unlocked cfg ((unit aw cfg).history s₀ inp n).1 (inp n)
  := by
  constructor
  · intro h n
    apply unlocked_of_served (h n) (henv n) (h (n + 1))
  · intro hlock n
    have hinv : Inv cfg ((unit aw cfg).history s₀ inp n) := by
      induction n with
      | zero => apply inv_start h₀
      | succ n ih => apply ih.step (henv n) (hlock n)
    apply hinv.served

end Runs

end Memops

end ZBasic
