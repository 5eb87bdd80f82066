import ZBasic.Clocked.Ring
import ZBasic.Cpu.MemoryUnit
import Mathlib.Tactic.Use

/-!
# The pipelined memory unit

`pipemem` takes an access while others are still to be answered. The registers of the loads,
and how their results are to be taken out of what is read, wait in a ring of slots. What is
the same for all of them, whether they are loads and which register set they are for, is kept
once.
-/

namespace ZBasic

open Clocked

/-- The registers of `pipemem`. -/
structure Pipemem (aw : ℕ) where
  cyc : Bool
  rWbCycGbl : Bool
  rWbCycLcl : Bool
  fifoFull : Bool
  rdaddr : BitVec 4
  wraddr : BitVec 4
  fifoOreg : BitVec 4 → BitVec 8
  fifoGie : Bool
  oWbStbGbl : Bool
  oWbStbLcl : Bool
  oWbWe : Bool
  oWbAddr : BitVec aw
  oWbData : BitVec 32
  oWbSel : BitVec 4
  oValid : Bool
  oErr : Bool
  oWreg : BitVec 5
  oResult : BitVec 32
  lockGbl : Bool
  lockLcl : Bool

namespace Pipemem

variable {aw : ℕ}

section Source

/-- `OPT_MAXDEPTH` -/
def optMaxdepth : ℕ := 0xd

variable (cfg : MemoryConfig) (s : Pipemem aw) (i : MemoryInput)

/-- `misaligned`, which has the same value in every case. -/
def misaligned : Bool :=
  cfg.optAlignmentErr && if flags i.access.decoded then i.iStb else i.iStb

/-- `lcl_bus` -/
def lclBus : Bool := i.access.iAddr.extractLsb' 24 8 == 0xff && cfg.withLocalBus

/-- `lcl_stb` -/
def lclStb : Bool := lclBus cfg i && !misaligned cfg i

/-- `gbl_stb` -/
def gblStb : Bool := (!lclBus cfg i || !cfg.withLocalBus) && !misaligned cfg i

/-- An error of the bus, or a misaligned access. -/
def fails : Bool := (i.iWbErr && s.cyc) || (i.iStb && misaligned cfg i)

/-- `fifo_fill` -/
def fifoFill : BitVec 4 := s.wraddr - s.rdaddr

/-- The request is withdrawn. -/
def drops : Bool := (!i.iWbStall && !i.iStb && !misaligned cfg i) || i.iWbErr

/-- The cycle ends. -/
def ends : Bool :=
  (i.iWbAck && s.rdaddr + 1 == s.wraddr && (!i.iStb || misaligned cfg i)) || i.iWbErr

/-- The request on the bus is replaced. -/
def latches : Bool := !s.cyc || !i.iWbStall

/-- `w_wreg` -/
def wWreg : BitVec 8 := s.fifoOreg s.rdaddr

/-- One clock edge of `pipemem`. -/
def step : Pipemem aw where
  fifoOreg := Function.update s.fifoOreg s.wraddr
    (i.access.iOreg.extractLsb' 0 4 ++ i.access.decoded)
  fifoGie := if i.iStb then i.access.iOreg.getLsbD 4 else s.fifoGie
  wraddr := if i.iReset then 0
    else if s.fails cfg i then 0
    else if i.iStb then s.wraddr + 1
    else s.wraddr
  rdaddr := if i.iReset then 0
    else if s.fails cfg i then 0
    else if i.iWbAck && s.cyc then s.rdaddr + 1
    else s.rdaddr
  fifoFull := !i.iReset && !s.fails cfg i
    && if i.iStb then decide (optMaxdepth - 1 ≤ s.fifoFill.toNat)
      else decide (optMaxdepth ≤ s.fifoFill.toNat)
  cyc := !i.iReset
    && if s.cyc then !s.ends cfg i else if i.iStb then !misaligned cfg i else s.cyc
  rWbCycGbl := !i.iReset
    && if s.cyc then s.rWbCycGbl && !s.ends cfg i
      else if i.iStb then gblStb cfg i
      else s.rWbCycGbl
  rWbCycLcl := !i.iReset
    && if s.cyc then s.rWbCycLcl && !s.ends cfg i
      else if i.iStb then lclStb cfg i
      else s.rWbCycLcl
  oWbStbGbl := !i.iReset
    && if s.cyc then s.oWbStbGbl && !drops cfg i && !s.ends cfg i
      else if i.iStb then gblStb cfg i
      else s.oWbStbGbl
  oWbStbLcl := !i.iReset
    && if s.cyc then s.oWbStbLcl && !drops cfg i && !s.ends cfg i
      else if i.iStb then lclStb cfg i
      else s.oWbStbLcl
  oWbAddr := if s.latches i then
      if cfg.optZeroOnIdle && !i.iStb then 0 else i.access.iAddr.extractLsb' 2 aw
    else s.oWbAddr
  oWbSel := if s.latches i then
      if cfg.optZeroOnIdle && !i.iStb then 0 else selFor i.access.decoded
    else s.oWbSel
  oWbData := if s.latches i then
      if cfg.optZeroOnIdle && !i.iStb then 0 else dataFor i.access.decoded i.access.iData
    else s.oWbData
  oWbWe := if i.iStb && !s.cyc then i.access.iOp.getLsbD 0
    else if cfg.optZeroOnIdle && !s.cyc then false
    else s.oWbWe
  oValid := !i.iReset && (s.cyc && i.iWbAck && !s.oWbWe)
  oErr := !i.iReset && ((s.cyc && i.iWbErr) || (i.iStb && misaligned cfg i))
  oWreg := BitVec.ofBool s.fifoGie ++ s.wWreg.extractLsb' 4 4
  oResult := if cfg.optZeroOnIdle && (!s.cyc || (!i.iWbAck && !i.iWbErr)) then 0
    else resultFor (s.wWreg.extractLsb' 0 4) i.iWbData
  lockGbl := !(i.iReset || s.fails cfg i) && (i.iLock && (s.rWbCycGbl || s.lockGbl))
  lockLcl := !(i.iReset || s.fails cfg i) && (i.iLock && (s.rWbCycLcl || s.lockLcl))

/-- `o_pipe_stalled` -/
def oPipeStalled : Bool :=
  (s.cyc && s.fifoFull) || (s.cyc && (i.iWbStall || (!s.oWbStbLcl && !s.oWbStbGbl)))

/-- The registers with an initial value at power up; the others are arbitrary. -/
structure Initial : Prop where
  cyc : s.cyc = false
  rWbCycGbl : s.rWbCycGbl = false
  rWbCycLcl : s.rWbCycLcl = false
  fifoFull : s.fifoFull = false
  rdaddr : s.rdaddr = 0
  wraddr : s.wraddr = 0
  oWbStbGbl : s.oWbStbGbl = false
  oWbStbLcl : s.oWbStbLcl = false
  oValid : s.oValid = false
  oErr : s.oErr = false
  lockGbl : s.lockGbl = false
  lockLcl : s.lockLcl = false

end Source

/-- `pipemem`, seen from outside. It takes an access when it is not stalled. -/
def unit (aw : ℕ) (cfg : MemoryConfig) : MemoryUnit aw (Pipemem aw) where
  step := step cfg
  oBusy := cyc
  stalled := oPipeStalled
  oWbStbGbl := oWbStbGbl
  oWbStbLcl := oWbStbLcl
  oWbAddr := oWbAddr
  oWbSel := oWbSel
  oWbData := oWbData
  oWbWe := oWbWe
  oValid := oValid
  oWreg := oWreg
  oResult := oResult
  oErr := oErr

/-- No access that is aligned is offered while misaligned accesses are to be flagged. -/
def AllFlagged (cfg : MemoryConfig) (i : MemoryInput) : Prop :=
  i.iReset = false → i.iStb = true → cfg.optAlignmentErr = true → i.access.misaligned = true

/-- An access that is offered in a cycle is for the bus of that cycle. -/
def SameBus (cfg : MemoryConfig) (s : Pipemem aw) (i : MemoryInput) : Prop :=
  i.iReset = false → i.iStb = true → s.cyc = true →
    i.access.isLocal cfg.withLocalBus = s.rWbCycLcl

/-- The bus that is strobed is the one of the cycle. -/
structure Bus (s : Pipemem aw) : Prop where
  gbl : s.oWbStbGbl = true → s.rWbCycLcl = false
  lcl : s.oWbStbLcl = true → s.rWbCycLcl = true

/-- What the ring holds for an access. -/
def slot (a : Access) : BitVec 8 := a.iOreg.extractLsb' 0 4 ++ a.decoded

/-- What `pipemem` keeps between clocks. -/
structure Inv (cfg : MemoryConfig) (x : Pipemem aw × Traffic aw) : Prop where
  served : Served cfg (unit aw cfg) x
  idle : cfg.optAlignmentErr = true → x.1.cyc = false
  strobed : (x.1.oWbStbGbl || x.1.oWbStbLcl) = true → x.1.cyc = true
  bus : x.1.Bus
  fill : x.1.fifoFill.toNat = (x.2.outstanding cfg.optAlignmentErr).length
  room : (x.2.outstanding cfg.optAlignmentErr).length ≤ optMaxdepth
  full : (x.2.outstanding cfg.optAlignmentErr).length = optMaxdepth → x.1.fifoFull = true
  slots : slots x.1.fifoOreg x.1.rdaddr (x.2.outstanding cfg.optAlignmentErr).length
    = (x.2.outstanding cfg.optAlignmentErr).map slot
  alike : x.1.cyc = true → ∀ a ∈ x.2.outstanding cfg.optAlignmentErr,
    a.isStore = x.1.oWbWe ∧ a.iOreg.getLsbD 4 = x.1.fifoGie
  last : x.1.cyc = true → ∃ a, x.2.offered.getLast? = some a
    ∧ a.isStore = x.1.oWbWe ∧ a.iOreg.getLsbD 4 = x.1.fifoGie

section Step

variable {cfg : MemoryConfig} {s : Pipemem aw} {x : Pipemem aw × Traffic aw} {i : MemoryInput}

theorem inv_reset (hreset : i.iReset = true) :
  Inv cfg ((unit aw cfg).watch x i)
  := by
  have hwatch : (unit aw cfg).watch x i = (step cfg x.1 i, Traffic.none aw) := by
    simp [MemoryUnit.watch, unit, hreset]
  have hnone : (Traffic.none aw).outstanding cfg.optAlignmentErr = [] := rfl
  rw [hwatch]
  constructor
  case served => apply served_none <;> simp [unit, step, hreset]
  case bus => constructor <;> simp [step, hreset]
  case room =>
    rw [hnone]
    apply Nat.zero_le
  case full =>
    rw [hnone]
    intro hlength
    contradiction
  all_goals simp [step, hreset, hnone, fifoFill]

theorem misaligned_eq :
  misaligned cfg i = (cfg.optAlignmentErr && i.iStb)
  := by rw [misaligned, ite_self]

theorem lclBus_eq :
  lclBus cfg i = i.access.isLocal cfg.withLocalBus
  := Bool.and_comm _ _

theorem Bus.pending_eq (h : s.Bus) :
  (unit aw cfg).pending s
    = if s.oWbStbGbl || s.oWbStbLcl then [(unit aw cfg).wires s s.rWbCycLcl] else []
  := by
  have hgbl := h.gbl
  have hlcl := h.lcl
  rw [MemoryUnit.pending]
  change (if s.oWbStbGbl then _ else _) ++ (if s.oWbStbLcl then _ else _) = _
  cases hg : s.oWbStbGbl with
  | true =>
      have hcyc := hgbl hg
      rw [hcyc] at hlcl ⊢
      cases hl : s.oWbStbLcl with
      | true => cases hlcl hl
      | false => rfl
  | false =>
      cases hl : s.oWbStbLcl with
      | true =>
          rw [hlcl hl]
          rfl
      | false => rfl

/-- A strobe stays on the bus of the cycle. -/
theorem Bus.step (h : s.Bus) (hcyc : s.cyc = true) :
  (step cfg s i).Bus
  := by
  constructor
  · intro hs
    simp only [Pipemem.step, hcyc, if_true, Bool.and_eq_true] at hs ⊢
    simp [h.gbl hs.2.1.1]
  · intro hs
    simp only [Pipemem.step, hcyc, if_true, Bool.and_eq_true, Bool.not_eq_true'] at hs ⊢
    simp [h.lcl hs.2.1.1, hs.1, hs.2.2]

/-- A cycle begins with a strobe of its bus. -/
theorem bus_step_idle (hcyc : s.cyc = false) (hgbl : s.oWbStbGbl = false)
    (hlcl : s.oWbStbLcl = false) :
  (step cfg s i).Bus
  := by
  constructor
  · intro hs
    cases hstb : i.iStb with
    | false => simp [Pipemem.step, hcyc, hgbl, hstb] at hs
    | true =>
        simp only [Pipemem.step, hcyc, hstb, gblStb, lclStb, lclBus] at hs ⊢
        cases hlocal : cfg.withLocalBus <;> simp_all
  · intro hs
    cases hstb : i.iStb with
    | false => simp [Pipemem.step, hcyc, hlcl, hstb] at hs
    | true =>
        simp only [Pipemem.step, hcyc, hstb, lclStb] at hs ⊢
        simp_all

/-- A clock at which no access is offered while all are flagged. -/
structure Plain (cfg : MemoryConfig) (i : MemoryInput) : Prop where
  iReset : i.iReset = false
  iWbErr : i.iWbErr = false
  misaligned : misaligned cfg i = false

theorem Plain.issued_eq (h : Plain cfg i) :
  i.issued cfg.optAlignmentErr = if i.iStb then [i.access] else []
  := by
  have hplain := h.misaligned
  rw [misaligned_eq] at hplain
  rw [MemoryInput.issued, MemoryInput.offered]
  cases hstb : i.iStb with
  | false => simp
  | true =>
      rw [hstb, Bool.and_true] at hplain
      simp [hplain]

theorem Plain.fails_eq (h : Plain cfg i) :
  s.fails cfg i = false
  := by simp [fails, h.iWbErr, h.misaligned]

/-- An access is taken in only if the ring has room for it and the bus has accepted the request
before it. -/
theorem Inv.of_offered (h : Inv cfg x) (henv : (unit aw cfg).Environment x i)
    (hstb : i.iStb = true) :
  (x.2.outstanding cfg.optAlignmentErr).length < optMaxdepth
    ∧ (x.1.cyc = true → i.iWbStall = false ∧ (x.1.oWbStbGbl || x.1.oWbStbLcl) = true)
  := by
  have hready : x.1.oPipeStalled i = false := henv.ready hstb
  rw [oPipeStalled, Bool.or_eq_false_iff] at hready
  obtain ⟨hroom, hbus⟩ := hready
  cases hcyc : x.1.cyc with
  | false =>
      have hnone : x.2.outstanding cfg.optAlignmentErr = [] := by
        by_contra hsome
        have := h.served.busy_iff.mpr hsome
        change x.1.cyc = true at this
        rw [hcyc] at this
        contradiction
      rw [hnone]
      constructor
      · decide
      · intro hfalse
        contradiction
  | true =>
      rw [hcyc, Bool.true_and] at hroom hbus
      constructor
      · apply Nat.lt_of_le_of_ne h.room
        intro hfull
        rw [h.full hfull] at hroom
        contradiction
      · intro _
        rw [Bool.or_eq_false_iff] at hbus
        use hbus.1
        have := hbus.2
        cases hgbl : x.1.oWbStbGbl <;> cases hlcl : x.1.oWbStbLcl <;> simp_all

theorem Inv.cyc_of_ack (h : Inv cfg x) (henv : (unit aw cfg).Environment x i)
    (hack : i.iWbAck = true) :
  x.1.cyc = true
  := by
  obtain ⟨a, rest, hsome⟩ := h.served.outstanding_of_ack henv hack
  apply h.served.busy_iff.mpr
  rw [hsome]
  apply List.cons_ne_nil

/-- The ring holds what is to be answered. -/
theorem Inv.ring (h : Inv cfg x) (henv : (unit aw cfg).Environment x i) (hplain : Plain cfg i) :
  (step cfg x.1 i).fifoFill.toNat
      = (((unit aw cfg).watch x i).2.outstanding cfg.optAlignmentErr).length
    ∧ Clocked.slots (step cfg x.1 i).fifoOreg (step cfg x.1 i).rdaddr
        (((unit aw cfg).watch x i).2.outstanding cfg.optAlignmentErr).length
      = (((unit aw cfg).watch x i).2.outstanding cfg.optAlignmentErr).map slot
  := by
  have hnext := h.served.outstanding_watch henv hplain.iReset
  rw [hplain.issued_eq] at hnext
  have hfill := h.fill
  have hroom := h.room
  have hslots := h.slots
  have hwraddr : x.1.wraddr
      = x.1.rdaddr + BitVec.ofNat 4 (x.2.outstanding cfg.optAlignmentErr).length := by
    rw [← hfill, BitVec.ofNat_toNat, BitVec.setWidth_eq, fifoFill, BitVec.add_comm,
      BitVec.sub_add_cancel]
  have hrd : (step cfg x.1 i).rdaddr = if i.iWbAck then x.1.rdaddr + 1 else x.1.rdaddr := by
    cases hack : i.iWbAck with
    | false => simp [step, hplain.iReset, hplain.fails_eq, hack]
    | true => simp [step, hplain.iReset, hplain.fails_eq, hack, h.cyc_of_ack henv hack]
  have hwr : (step cfg x.1 i).wraddr = if i.iStb then x.1.wraddr + 1 else x.1.wraddr := by
    simp [step, hplain.iReset, hplain.fails_eq]
  -- With what is taken in, before the answer.
  have hpushed : ((step cfg x.1 i).wraddr - x.1.rdaddr).toNat
        = (x.2.outstanding cfg.optAlignmentErr ++ if i.iStb then [i.access] else []).length
      ∧ Clocked.slots (step cfg x.1 i).fifoOreg x.1.rdaddr
          (x.2.outstanding cfg.optAlignmentErr ++ if i.iStb then [i.access] else []).length
        = (x.2.outstanding cfg.optAlignmentErr ++ if i.iStb then [i.access] else []).map slot := by
    rw [fifoFill] at hfill
    have hmem : (step cfg x.1 i).fifoOreg
        = Function.update x.1.fifoOreg x.1.wraddr (slot i.access) := rfl
    have hroom' : (x.2.outstanding cfg.optAlignmentErr).length < 2 ^ 4 := by
      rw [optMaxdepth] at hroom
      omega
    rw [hwr, hmem]
    cases hstb : i.iStb with
    | false =>
        simp only [Bool.false_eq_true, if_false, List.append_nil]
        use hfill
        rw [hwraddr, slots_update _ _ hroom', hslots]
    | true =>
        have hlt := (h.of_offered henv hstb).1
        rw [optMaxdepth] at hlt
        simp only [if_true, List.length_append, List.length_singleton, List.map_append,
          List.map_singleton]
        constructor
        · rw [toNat_succ_sub _ _ (by omega), hfill]
        · rw [slots_snoc, ← hwraddr, Function.update_self]
          rw [hwraddr, slots_update _ _ hroom', hslots]
  obtain ⟨hpushedFill, hpushedSlots⟩ := hpushed
  rw [fifoFill, hrd, hnext]
  cases hack : i.iWbAck with
  | false =>
      simp only [Bool.false_eq_true, if_false]
      use hpushedFill, hpushedSlots
  | true =>
      obtain ⟨a, rest, hsome⟩ := h.served.outstanding_of_ack henv hack
      rw [hsome] at hpushedFill hpushedSlots ⊢
      simp only [if_true, List.tail_cons]
      rw [List.cons_append, List.length_cons] at hpushedFill hpushedSlots
      rw [slots_cons, List.map_cons, List.cons.injEq] at hpushedSlots
      constructor
      · rw [toNat_sub_succ _ _ (by omega), hpushedFill, Nat.add_sub_cancel]
      · apply hpushedSlots.2

/-- Outside of a cycle nothing is to be answered. -/
theorem Inv.of_idle (h : Inv cfg x) (henv : (unit aw cfg).Environment x i)
    (hcyc : x.1.cyc = false) :
  x.2.outstanding cfg.optAlignmentErr = [] ∧ (unit aw cfg).pending x.1 = [] ∧ i.iWbAck = false
    ∧ x.1.oWbStbGbl = false ∧ x.1.oWbStbLcl = false
  := by
  have hack : i.iWbAck = false := by
    rw [← Bool.not_eq_true]
    intro hack
    rw [h.cyc_of_ack henv hack] at hcyc
    contradiction
  have hstb : (x.1.oWbStbGbl || x.1.oWbStbLcl) = false := by
    rw [← Bool.not_eq_true]
    intro hstb
    rw [h.strobed hstb] at hcyc
    contradiction
  have hnone : x.2.outstanding cfg.optAlignmentErr = [] := by
    by_contra hsome
    have hbusy := h.served.busy_iff.mpr hsome
    change x.1.cyc = true at hbusy
    rw [hcyc] at hbusy
    contradiction
  rw [Bool.or_eq_false_iff] at hstb
  use hnone, h.served.pending_of_not_busy hcyc, hack, hstb.1, hstb.2

/-- A flagged access leaves the unit idle. -/
theorem Inv.step_flagged (h : Inv cfg x) (henv : (unit aw cfg).Environment x i)
    (hreset : i.iReset = false) (hopt : cfg.optAlignmentErr = true) (hstb : i.iStb = true)
    (hflag : i.access.misaligned = true) :
  Inv cfg ((unit aw cfg).watch x i)
  := by
  have hcyc := h.idle hopt
  obtain ⟨hnone, hpending, hack, hgbl, hlcl⟩ := h.of_idle henv hcyc
  have hmis : misaligned cfg i = true := by rw [misaligned_eq, hopt, hstb, Bool.and_self]
  have hissued : i.issued cfg.optAlignmentErr = [] := by
    simp [MemoryInput.issued, MemoryInput.offered, hstb, hopt, hflag]
  have hnext := h.served.outstanding_watch henv hreset
  rw [hnone, hack, hissued, if_neg Bool.false_ne_true, List.append_nil] at hnext
  have hcyc' : (step cfg x.1 i).cyc = false := by simp [step, hcyc, hstb, hmis]
  have hstbs : (step cfg x.1 i).oWbStbGbl = false ∧ (step cfg x.1 i).oWbStbLcl = false := by
    simp [step, hcyc, hstb, gblStb, lclStb, hmis]
  constructor
  case served =>
    apply h.served.watch henv hreset
    case hpending =>
      have hpending' : (unit aw cfg).pending (step cfg x.1 i) = [] := by
        rw [MemoryUnit.pending_eq_nil_iff]
        apply hstbs
      change (unit aw cfg).accepted x.1 i ++ (unit aw cfg).pending (step cfg x.1 i) = _
      rw [hpending', MemoryUnit.accepted, hpending, hissued, ite_self, List.map_nil]
    case hreturned => simp [MemoryUnit.returned, unit, step, hack]
    case herr => simp [unit, step, hreset, hstb, hmis, hopt, hflag]
    case hbusy =>
      change (step cfg x.1 i).cyc = true ↔ _
      rw [hcyc', hnext]
      simp
  case idle =>
    intro _
    apply hcyc'
  case strobed =>
    intro hs
    change ((step cfg x.1 i).oWbStbGbl || (step cfg x.1 i).oWbStbLcl) = true at hs
    rw [hstbs.1, hstbs.2] at hs
    contradiction
  case bus => apply bus_step_idle hcyc hgbl hlcl
  case fill =>
    rw [hnext]
    change ((step cfg x.1 i).wraddr - (step cfg x.1 i).rdaddr).toNat = 0
    simp [step, hreset, fails, hstb, hmis]
  case room =>
    rw [hnext]
    apply Nat.zero_le
  case full =>
    rw [hnext]
    intro hlength
    contradiction
  case slots =>
    rw [hnext]
    rfl
  case alike =>
    intro hs
    change (step cfg x.1 i).cyc = true at hs
    rw [hcyc'] at hs
    contradiction
  case last =>
    intro hs
    change (step cfg x.1 i).cyc = true at hs
    rw [hcyc'] at hs
    contradiction

/-- The wires hold the request of an access that is taken in. -/
theorem wires_taken (hbus : (step cfg x.1 i).Bus) (hstb : i.iStb = true)
    (hlatch : x.1.latches i = true)
    (hstrobe : ((step cfg x.1 i).oWbStbGbl || (step cfg x.1 i).oWbStbLcl) = true)
    (hlcl : (step cfg x.1 i).rWbCycLcl = i.access.isLocal cfg.withLocalBus)
    (hwe : (step cfg x.1 i).oWbWe = i.access.isStore) :
  (unit aw cfg).pending (step cfg x.1 i) = [i.access.request aw cfg.withLocalBus]
  := by
  have haddr : (step cfg x.1 i).oWbAddr = i.access.iAddr.extractLsb' 2 aw := by
    simp [step, hlatch, hstb]
  have hsel : (step cfg x.1 i).oWbSel = i.access.lanes := by
    simp [step, hlatch, hstb, selFor_decoded]
  have hdata : (step cfg x.1 i).oWbData = dataFor i.access.decoded i.access.iData := by
    simp [step, hlatch, hstb]
  rw [hbus.pending_eq, hlcl, if_pos hstrobe, MemoryUnit.wires]
  simp only [unit, haddr, hsel, hdata, hwe, dataFor_decoded]
  rfl

/-- The first access of a cycle. -/
theorem Inv.step_idle (h : Inv cfg x) (henv : (unit aw cfg).Environment x i)
    (hplain : Plain cfg i) (hcyc : x.1.cyc = false) :
  Inv cfg ((unit aw cfg).watch x i)
  := by
  obtain ⟨hnone, hpending, hack, hgbl, hlcl⟩ := h.of_idle henv hcyc
  obtain ⟨hfill', hslots'⟩ := h.ring henv hplain
  have hnext := h.served.outstanding_watch henv hplain.iReset
  rw [hnone, hack, hplain.issued_eq, if_neg Bool.false_ne_true, List.nil_append] at hnext
  have hone : (((unit aw cfg).watch x i).2.outstanding cfg.optAlignmentErr).length ≤ 1 := by
    rw [hnext]
    cases i.iStb <;> simp
  have hcyc' : (step cfg x.1 i).cyc = i.iStb := by
    simp [step, hplain.iReset, hplain.misaligned, hcyc]
  have hstbs : ((step cfg x.1 i).oWbStbGbl || (step cfg x.1 i).oWbStbLcl) = i.iStb := by
    cases hstb : i.iStb with
    | false => simp [step, hcyc, hstb, hgbl, hlcl]
    | true =>
        simp only [step, hplain.iReset, hcyc, hstb, gblStb, lclStb, hplain.misaligned,
          Bool.not_false, Bool.true_and, Bool.and_true, Bool.false_eq_true, if_true, if_false]
        cases lclBus cfg i <;> simp
  have hbus : (step cfg x.1 i).Bus := bus_step_idle hcyc hgbl hlcl
  have hsame : i.iStb = true → (step cfg x.1 i).oWbWe = i.access.isStore
      ∧ (step cfg x.1 i).fifoGie = i.access.iOreg.getLsbD 4 := by
    intro hstb
    simp [step, hstb, hcyc, Access.isStore]
  constructor
  case served =>
    apply h.served.watch henv hplain.iReset
    case hpending =>
      change (unit aw cfg).accepted x.1 i ++ (unit aw cfg).pending (step cfg x.1 i) = _
      rw [MemoryUnit.accepted, hpending, ite_self, hplain.issued_eq, List.nil_append,
        List.nil_append]
      cases hstb : i.iStb with
      | false =>
          rw [hstb] at hstbs
          rw [hbus.pending_eq, hstbs]
          rfl
      | true =>
          apply wires_taken hbus hstb _ (hstbs.trans hstb) _ (hsame hstb).1
          · rw [latches, hcyc, Bool.not_false, Bool.true_or]
          · rw [← lclBus_eq]
            simp [step, hplain.iReset, hplain.misaligned, hcyc, hstb, lclStb]
    case hreturned => simp [MemoryUnit.returned, unit, step, hack]
    case herr =>
      have hmis := hplain.misaligned
      rw [misaligned_eq] at hmis
      simp only [unit, step, hplain.misaligned, hplain.iWbErr, Bool.and_false, Bool.or_false]
      rw [← Bool.and_assoc, Bool.and_comm i.iStb, hmis, Bool.false_and]
    case hbusy =>
      change (step cfg x.1 i).cyc = true ↔ _
      rw [hcyc', hnext]
      cases i.iStb <;> simp
  case idle =>
    intro hopt
    have hmis := hplain.misaligned
    rw [misaligned_eq, hopt, Bool.true_and] at hmis
    apply hcyc'.trans hmis
  case strobed =>
    intro hs
    change (step cfg x.1 i).cyc = true
    change ((step cfg x.1 i).oWbStbGbl || (step cfg x.1 i).oWbStbLcl) = true at hs
    rw [hcyc', ← hstbs, hs]
  case bus => apply hbus
  case fill => apply hfill'
  case room =>
    apply Nat.le_trans hone
    decide
  case full =>
    intro hlength
    rw [hlength, optMaxdepth] at hone
    omega
  case slots => apply hslots'
  case alike =>
    intro hs
    change (step cfg x.1 i).cyc = true at hs
    rw [hcyc'] at hs
    rw [hnext, hs, if_pos rfl]
    intro a ha
    rw [List.mem_singleton] at ha
    rw [ha]
    use (hsame hs).1.symm, (hsame hs).2.symm
  case last =>
    intro hs
    change (step cfg x.1 i).cyc = true at hs
    rw [hcyc'] at hs
    use i.access
    constructor
    · simp [MemoryUnit.watch, hplain.iReset, MemoryInput.offered, hs]
    · use (hsame hs).1.symm, (hsame hs).2.symm

/-- The last answer ends the cycle. -/
theorem Inv.ends_eq (h : Inv cfg x) (henv : (unit aw cfg).Environment x i)
    (hplain : Plain cfg i) :
  x.1.ends cfg i = true
    ↔ i.iWbAck = true ∧ (x.2.outstanding cfg.optAlignmentErr).length = 1 ∧ i.iStb = false
  := by
  rw [ends, hplain.iWbErr, hplain.misaligned, Bool.or_false, Bool.or_false, Bool.and_eq_true,
    Bool.and_eq_true, Bool.not_eq_true', beq_iff_eq, and_assoc]
  apply and_congr_right
  intro hack
  apply and_congr_left
  intro _
  obtain ⟨a, rest, hsome⟩ := h.served.outstanding_of_ack henv hack
  have hfill := h.fill
  rw [hsome, List.length_cons, fifoFill] at hfill
  rw [eq_comm, ← sub_eq_zero_iff, toNat_sub_succ _ _ (by omega), hfill, hsome, List.length_cons]
  omega

/-- The request stays on the bus until it is accepted, or is followed by that of the next
access. -/
theorem Inv.pending_busy (h : Inv cfg x) (henv : (unit aw cfg).Environment x i)
    (hplain : Plain cfg i) (hcyc : x.1.cyc = true)
    (hwe : i.iStb = true → x.1.oWbWe = i.access.isStore) (hsame : SameBus cfg x.1 i) :
  (unit aw cfg).accepted x.1 i ++ (unit aw cfg).pending (step cfg x.1 i)
    = (unit aw cfg).pending x.1
      ++ (i.issued cfg.optAlignmentErr).map fun a => a.request aw cfg.withLocalBus
  := by
  have hbus : (step cfg x.1 i).Bus := h.bus.step hcyc
  have hends := h.ends_eq henv hplain
  have hstrobe : ((step cfg x.1 i).oWbStbGbl || (step cfg x.1 i).oWbStbLcl)
      = ((x.1.oWbStbGbl || x.1.oWbStbLcl) && !drops cfg i && !x.1.ends cfg i) := by
    simp only [step, hplain.iReset, hcyc, Bool.not_false, Bool.true_and, if_true]
    cases x.1.oWbStbGbl <;> cases x.1.oWbStbLcl <;> simp
  have hkept : (step cfg x.1 i).oWbWe = x.1.oWbWe := by simp [step, hcyc]
  have hlcl : (step cfg x.1 i).rWbCycLcl = (x.1.rWbCycLcl && !x.1.ends cfg i) := by
    simp [step, hplain.iReset, hcyc]
  rw [MemoryUnit.accepted, hplain.issued_eq]
  cases hstb : i.iStb with
  | true =>
      obtain ⟨hstall, hstrobed⟩ := (h.of_offered henv hstb).2 hcyc
      have hlatch : x.1.latches i = true := by rw [latches, hstall, Bool.not_false, Bool.or_true]
      have hgoes : x.1.ends cfg i = false := by
        rw [← Bool.not_eq_true, hends, hstb]
        simp
      have hdrops : drops cfg i = false := by simp [drops, hstb, hplain.iWbErr]
      rw [hstrobed, hdrops, hgoes] at hstrobe
      rw [hgoes, Bool.not_false, Bool.and_true, ← hsame hplain.iReset hstb hcyc] at hlcl
      rw [hstall, if_neg Bool.false_ne_true, if_pos rfl,
        wires_taken hbus hstb hlatch hstrobe hlcl (hkept.trans (hwe hstb))]
      rfl
  | false =>
      have hdrops : drops cfg i = !i.iWbStall := by
        simp [drops, hstb, hplain.iWbErr, hplain.misaligned]
      rw [hdrops, Bool.not_not] at hstrobe
      rw [if_neg Bool.false_ne_true, List.map_nil, List.append_nil]
      cases hstall : i.iWbStall with
      | false =>
          rw [hstall, Bool.and_false, Bool.false_and] at hstrobe
          have hnone : (unit aw cfg).pending (step cfg x.1 i) = [] := by
            rw [hbus.pending_eq, hstrobe]
            rfl
          rw [hnone, if_neg Bool.false_ne_true, List.append_nil]
      | true =>
          have hlatch : x.1.latches i = false := by rw [latches, hcyc, hstall]; rfl
          have hwires : (unit aw cfg).pending (step cfg x.1 i)
              = if x.1.ends cfg i then [] else (unit aw cfg).pending x.1 := by
            rw [hbus.pending_eq, h.bus.pending_eq, hstrobe, hstall, hlcl]
            simp only [MemoryUnit.wires, unit, hkept]
            simp only [step, hlatch, Bool.false_eq_true, if_false]
            cases x.1.ends cfg i <;> simp
          rw [if_pos rfl, List.nil_append, hwires]
          cases hlast : x.1.ends cfg i with
          | false => rw [if_neg Bool.false_ne_true]
          | true =>
              -- The last answer is to a request that was accepted.
              obtain ⟨hack, hone, -⟩ := hends.mp hlast
              have hanswer := henv.answers hack
              have haccepted : (unit aw cfg).accepted x.1 i = [] := by
                rw [MemoryUnit.accepted, hstall, if_pos rfl]
              have hlength := h.served.length_issued
              rw [haccepted, List.append_nil] at hanswer
              rw [Traffic.outstanding, List.length_drop] at hone
              rw [if_pos rfl, eq_comm, ← List.length_eq_zero_iff]
              omega

theorem oreg_split (r : BitVec 5) :
  BitVec.ofBool (r.getLsbD 4) ++ r.extractLsb' 0 4 = r
  := by
  revert r
  decide

/-- What is returned for the oldest load. -/
theorem Inv.returned_ack (h : Inv cfg x) (henv : (unit aw cfg).Environment x i)
    (hplain : Plain cfg i) (hack : i.iWbAck = true) :
  (unit aw cfg).returned (step cfg x.1 i)
    = if true then
        ((x.2.outstanding cfg.optAlignmentErr).head?.bind fun a => a.result i.iWbData).toList
      else []
  := by
  have hcyc := h.cyc_of_ack henv hack
  obtain ⟨a, rest, hsome⟩ := h.served.outstanding_of_ack henv hack
  have hslots := h.slots
  have halike := h.alike hcyc a
  rw [hsome] at hslots halike
  rw [List.length_cons, slots_cons, List.map_cons, List.cons.injEq] at hslots
  obtain ⟨hstore, hgie⟩ := halike List.mem_cons_self
  have hreg : (step cfg x.1 i).oWreg = a.iOreg := by
    change BitVec.ofBool x.1.fifoGie ++ (x.1.fifoOreg x.1.rdaddr).extractLsb' 4 4 = _
    rw [hslots.1, slot, extract_append_high _ _ (Nat.le_refl 4), extract_all, ← hgie, oreg_split]
  have hresult : (step cfg x.1 i).oResult = a.loaded i.iWbData := by
    have hop : (x.1.fifoOreg x.1.rdaddr).extractLsb' 0 4 = a.decoded := by
      rw [hslots.1, slot, extract_append_low _ _ (Nat.le_refl 4), extract_all]
    rw [← resultFor_decoded, ← hop]
    simp [step, hcyc, hack, wWreg]
  have hvalid : (step cfg x.1 i).oValid = !a.isStore := by
    simp [step, hplain.iReset, hcyc, hack, hstore]
  rw [MemoryUnit.returned, if_pos rfl, hsome, List.head?_cons, Option.bind_some, Access.result]
  change (if (step cfg x.1 i).oValid then
    [((step cfg x.1 i).oWreg, (step cfg x.1 i).oResult)] else []) = _
  rw [hvalid, hreg, hresult]
  cases a.isStore <;> rfl

/-- Where accesses are worked on, none are flagged. -/
theorem Inv.opt_of_busy (h : Inv cfg x) (hcyc : x.1.cyc = true) :
  cfg.optAlignmentErr = false
  := by
  rw [← Bool.not_eq_true]
  intro hopt
  rw [h.idle hopt] at hcyc
  contradiction

/-- What is to be answered after a clock. -/
theorem Inv.length_outstanding (h : Inv cfg x) (henv : (unit aw cfg).Environment x i)
    (hplain : Plain cfg i) :
  (((unit aw cfg).watch x i).2.outstanding cfg.optAlignmentErr).length
    = (x.2.outstanding cfg.optAlignmentErr).length - (if i.iWbAck then 1 else 0)
      + (if i.iStb then 1 else 0)
  := by
  rw [h.served.outstanding_watch henv hplain.iReset, hplain.issued_eq, List.length_append]
  cases i.iWbAck <;> cases i.iStb <;> simp

/-- What is offered is like what was offered before it in the cycle. -/
theorem Inv.alike_offered (h : Inv cfg x) (henv : (unit aw cfg).Environment x i)
    (hcyc : x.1.cyc = true) (hstb : i.iStb = true) :
  i.access.isStore = x.1.oWbWe ∧ i.access.iOreg.getLsbD 4 = x.1.fifoGie
  := by
  obtain ⟨a, ha, hstore, hgie⟩ := h.last hcyc
  obtain ⟨hstore', hgie'⟩ := henv.alike hstb hcyc a (by rw [ha]; rfl)
  use hstore'.symm.trans hstore, hgie'.symm.trans hgie

/-- So what is kept once for all accesses of a cycle does not change. -/
theorem Inv.kept_busy (h : Inv cfg x) (henv : (unit aw cfg).Environment x i)
    (hcyc : x.1.cyc = true) :
  (step cfg x.1 i).oWbWe = x.1.oWbWe ∧ (step cfg x.1 i).fifoGie = x.1.fifoGie
  := by
  constructor
  · simp [step, hcyc]
  · cases hstb : i.iStb with
    | false => simp [step, hstb]
    | true =>
        rw [← (h.alike_offered henv hcyc hstb).2]
        simp [step, hstb]

/-- The ring never overflows. -/
theorem Inv.room_busy (h : Inv cfg x) (henv : (unit aw cfg).Environment x i)
    (hplain : Plain cfg i) (hcyc : x.1.cyc = true) :
  (((unit aw cfg).watch x i).2.outstanding cfg.optAlignmentErr).length ≤ optMaxdepth
    ∧ ((((unit aw cfg).watch x i).2.outstanding cfg.optAlignmentErr).length = optMaxdepth →
      (step cfg x.1 i).fifoFull = true)
  := by
  have hfill := h.fill
  have hroom := h.room
  have hpos := List.length_pos_iff.mpr (h.served.busy_iff.mp hcyc)
  rw [h.length_outstanding henv hplain]
  cases hstb : i.iStb with
  | false =>
      constructor
      · simp
        omega
      · intro hfull
        simp only [step, hplain.iReset, hplain.fails_eq, hfill, Bool.not_false, Bool.true_and, hstb]
        simp at hfull ⊢
        omega
  | true =>
      have := (h.of_offered henv hstb).1
      constructor
      · simp
        omega
      · intro hfull
        simp only [step, hplain.iReset, hplain.fails_eq, hfill, Bool.not_false, Bool.true_and, hstb]
        simp at hfull ⊢
        omega

theorem Inv.alike_busy (h : Inv cfg x) (henv : (unit aw cfg).Environment x i)
    (hplain : Plain cfg i) (hcyc : x.1.cyc = true) :
  ∀ a ∈ ((unit aw cfg).watch x i).2.outstanding cfg.optAlignmentErr,
    a.isStore = x.1.oWbWe ∧ a.iOreg.getLsbD 4 = x.1.fifoGie
  := by
  intro a ha
  rw [h.served.outstanding_watch henv hplain.iReset, hplain.issued_eq, List.mem_append] at ha
  rcases ha with ha | ha
  · apply h.alike hcyc
    split_ifs at ha
    · apply List.mem_of_mem_tail ha
    · apply ha
  · cases hstb : i.iStb with
    | false => simp [hstb] at ha
    | true =>
        rw [hstb, if_pos rfl, List.mem_singleton] at ha
        rw [ha]
        apply h.alike_offered henv hcyc hstb

theorem Inv.last_busy (h : Inv cfg x) (henv : (unit aw cfg).Environment x i)
    (hplain : Plain cfg i) (hcyc : x.1.cyc = true) :
  ∃ a, ((unit aw cfg).watch x i).2.offered.getLast? = some a
    ∧ a.isStore = x.1.oWbWe ∧ a.iOreg.getLsbD 4 = x.1.fifoGie
  := by
  have hoffered : ((unit aw cfg).watch x i).2.offered = x.2.offered ++ i.offered.toList := by
    simp [MemoryUnit.watch, hplain.iReset]
  rw [hoffered, MemoryInput.offered]
  cases hstb : i.iStb with
  | false =>
      obtain ⟨a, ha, halike⟩ := h.last hcyc
      use a
      simpa [ha] using halike
  | true =>
      use i.access
      simpa using h.alike_offered henv hcyc hstb

/-- An access that follows others in a cycle, or an answer. -/
theorem Inv.step_busy (h : Inv cfg x) (henv : (unit aw cfg).Environment x i)
    (hplain : Plain cfg i) (hsame : SameBus cfg x.1 i) (hcyc : x.1.cyc = true) :
  Inv cfg ((unit aw cfg).watch x i)
  := by
  obtain ⟨hfill', hslots'⟩ := h.ring henv hplain
  obtain ⟨hwe, hgie⟩ := h.kept_busy henv hcyc
  have hends := h.ends_eq henv hplain
  have hopt := h.opt_of_busy hcyc
  have hcyc' : (step cfg x.1 i).cyc = !x.1.ends cfg i := by
    simp [step, hplain.iReset, hcyc]
  constructor
  case served =>
    apply h.served.watch henv hplain.iReset
    case hpending =>
      apply h.pending_busy henv hplain hcyc _ hsame
      intro hstb
      apply (h.alike_offered henv hcyc hstb).1.symm
    case hreturned =>
      cases hack : i.iWbAck with
      | false => simp [MemoryUnit.returned, unit, step, hack]
      | true => apply h.returned_ack henv hplain hack
    case herr =>
      simp [unit, step, hplain.misaligned, hplain.iWbErr, hopt]
    case hbusy =>
      have hpos := List.length_pos_iff.mpr (h.served.busy_iff.mp hcyc)
      change (step cfg x.1 i).cyc = true ↔ _
      rw [hcyc', Bool.not_eq_true', ← Bool.not_eq_true, hends, ← List.length_pos_iff,
        h.length_outstanding henv hplain]
      cases i.iWbAck <;> cases i.iStb <;> simp <;> omega
  case idle =>
    intro hopt'
    rw [hopt] at hopt'
    contradiction
  case strobed =>
    intro hs
    change (step cfg x.1 i).cyc = true
    change ((step cfg x.1 i).oWbStbGbl || (step cfg x.1 i).oWbStbLcl) = true at hs
    rw [hcyc', Bool.not_eq_true', ← Bool.not_eq_true]
    intro hlast
    simp [step, hcyc, hlast] at hs
  case bus => apply h.bus.step hcyc
  case fill => apply hfill'
  case room => apply (h.room_busy henv hplain hcyc).1
  case full => apply (h.room_busy henv hplain hcyc).2
  case slots => apply hslots'
  case alike =>
    intro _
    change ∀ a : Access, a ∈ _ → a.isStore = (step cfg x.1 i).oWbWe
      ∧ a.iOreg.getLsbD 4 = (step cfg x.1 i).fifoGie
    rw [hwe, hgie]
    apply h.alike_busy henv hplain hcyc
  case last =>
    intro _
    change ∃ a : Access, _ ∧ a.isStore = (step cfg x.1 i).oWbWe
      ∧ a.iOreg.getLsbD 4 = (step cfg x.1 i).fifoGie
    rw [hwe, hgie]
    apply h.last_busy henv hplain hcyc

theorem Inv.step (h : Inv cfg x) (henv : (unit aw cfg).Environment x i)
    (hflagged : AllFlagged cfg i) (hsame : SameBus cfg x.1 i) :
  Inv cfg ((unit aw cfg).watch x i)
  := by
  cases hreset : i.iReset with
  | true => apply inv_reset hreset
  | false =>
      cases hmis : misaligned cfg i with
      | true =>
          rw [misaligned_eq, Bool.and_eq_true] at hmis
          apply h.step_flagged henv hreset hmis.1 hmis.2
          apply hflagged hreset hmis.2 hmis.1
      | false =>
          have hplain : Plain cfg i := ⟨hreset, henv.noErr, hmis⟩
          cases hcyc : x.1.cyc with
          | true => apply h.step_busy henv hplain hsame hcyc
          | false => apply h.step_idle henv hplain hcyc

/-- Where only misaligned accesses are flagged, no aligned one was offered while all are. -/
theorem allFlagged_of_served (h : Served cfg (unit aw cfg) x)
    (h' : Served cfg (unit aw cfg) ((unit aw cfg).watch x i)) :
  AllFlagged cfg i
  := by
  intro hreset hstb hopt
  have herr : (step cfg x.1 i).oErr = true := by
    simp [step, hreset, misaligned_eq, hopt, hstb]
  have herrors : ((unit aw cfg).watch x i).2.errors = x.2.errors ++ [i.offered] := by
    simp [MemoryUnit.watch, unit, hreset, herr]
  have hoffered : ((unit aw cfg).watch x i).2.offered = x.2.offered ++ [i.access] := by
    simp [MemoryUnit.watch, hreset, MemoryInput.offered, hstb]
  have hsame := h'.errors
  rw [herrors, h.errors, hoffered, List.filter_append, List.map_append,
    List.append_cancel_left_eq] at hsame
  by_contra hflag
  simp [hflag] at hsame

/-- Where the requests of all accesses are made, none was offered in a cycle of the other
bus. -/
theorem Inv.sameBus_of_served (h : Inv cfg x) (henv : (unit aw cfg).Environment x i)
    (h' : Served cfg (unit aw cfg) ((unit aw cfg).watch x i)) :
  SameBus cfg x.1 i
  := by
  intro hreset hstb hcyc
  have hopt := h.opt_of_busy hcyc
  have hplain : Plain cfg i := by
    constructor
    · apply hreset
    · apply henv.noErr
    · rw [misaligned_eq, hopt, Bool.false_and]
  obtain ⟨hstall, hstrobed⟩ := (h.of_offered henv hstb).2 hcyc
  have hgoes : x.1.ends cfg i = false := by
    rw [← Bool.not_eq_true, h.ends_eq henv hplain, hstb]
    simp
  have hlcl : (Pipemem.step cfg x.1 i).rWbCycLcl = x.1.rWbCycLcl := by
    simp [Pipemem.step, hreset, hcyc, hgoes]
  -- The request before it is accepted, and what follows it on the bus is that of the access.
  have hrequests := h'.requests
  have haccepted : ((unit aw cfg).watch x i).2.requests
      = x.2.requests ++ (unit aw cfg).pending x.1 := by
    simp [MemoryUnit.watch, MemoryUnit.accepted, hreset, hstall]
  rw [issued_watch hreset, List.map_append, h.served.requests, haccepted,
    List.append_cancel_left_eq, hplain.issued_eq, if_pos hstb] at hrequests
  change _ = (unit aw cfg).pending (Pipemem.step cfg x.1 i) at hrequests
  have hbus : (Pipemem.step cfg x.1 i).Bus := h.bus.step hcyc
  rw [hbus.pending_eq, hlcl] at hrequests
  split_ifs at hrequests
  · simpa [Access.request, MemoryUnit.wires] using congrArg (·.map LaneRequest.lcl) hrequests
  · simp at hrequests

end Step

section Runs

variable {cfg : MemoryConfig} {s₀ : Pipemem aw} {inp : ℕ → MemoryInput}

theorem inv_start (h₀ : s₀.Initial) :
  Inv cfg (s₀, Traffic.none aw)
  := by
  have hnone : (Traffic.none aw).outstanding cfg.optAlignmentErr = [] := rfl
  constructor
  case served =>
    apply served_none
    · apply h₀.oWbStbGbl
    · apply h₀.oWbStbLcl
    · apply h₀.cyc
  case bus => constructor <;> simp [h₀.oWbStbGbl, h₀.oWbStbLcl]
  case room =>
    rw [hnone]
    apply Nat.zero_le
  case full =>
    rw [hnone]
    intro hlength
    contradiction
  all_goals simp [hnone, fifoFill, h₀.cyc, h₀.oWbStbGbl, h₀.oWbStbLcl, h₀.rdaddr, h₀.wraddr]

/-- `pipemem` does what the accesses ask for exactly as long as no aligned access is offered
while misaligned ones are to be flagged, and none in a cycle of the other bus. -/
theorem serves_iff (h₀ : s₀.Initial)
    (henv : ∀ n, (unit aw cfg).Environment ((unit aw cfg).history s₀ inp n) (inp n)) :
  (∀ n, Served cfg (unit aw cfg) ((unit aw cfg).history s₀ inp n))
    ↔ (∀ n, AllFlagged cfg (inp n))
      ∧ ∀ n, SameBus cfg ((unit aw cfg).history s₀ inp n).1 (inp n)
  := by
  constructor
  · intro h
    have hflagged : ∀ n, AllFlagged cfg (inp n) := fun n => allFlagged_of_served (h n) (h (n + 1))
    have hinv : ∀ n, Inv cfg ((unit aw cfg).history s₀ inp n) := by
      intro n
      induction n with
      | zero => apply inv_start h₀
      | succ n ih => apply ih.step (henv n) (hflagged n) (ih.sameBus_of_served (henv n) (h (n + 1)))
    use hflagged
    intro n
    apply (hinv n).sameBus_of_served (henv n) (h (n + 1))
  · rintro ⟨hflagged, hsame⟩ n
    have hinv : Inv cfg ((unit aw cfg).history s₀ inp n) := by
      induction n with
      | zero => apply inv_start h₀
      | succ n ih => apply ih.step (henv n) (hflagged n) (hsame n)
    apply hinv.served

end Runs

end Pipemem

end ZBasic
