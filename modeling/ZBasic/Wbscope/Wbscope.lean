import ZBasic.Clocked.Ring
import ZBasic.Clocked.Run

/-!
# The scope

`wbscope` records a sample at every `i_ce`, one sample late, into a memory of `2 ^ lg` words
until some samples after a trigger. A read of the data port returns the words from the oldest
one on. Here the samples come with the clock of the bus, and the holdoff has more than one
bit.
-/

namespace ZBasic

open Clocked

/-- The registers of `wbscope`. -/
structure Wbscope (lg b : ℕ) where
  brConfig : BitVec 3
  brHoldoff : BitVec b
  drTriggered : Bool
  drPrimed : Bool
  drStopped : Bool
  counter : BitVec b
  waddr : BitVec lg
  dataPipe : BitVec 32
  mem : BitVec lg → BitVec 32
  readAddress : Bool
  raddr : BitVec lg
  thisAddr : BitVec lg
  nxtMem : BitVec 32
  oBusData : BitVec 32
  brPreWbAck : Bool
  brWbAck : Bool

namespace Wbscope

variable {lg b : ℕ}

/-- The inputs at a clock. -/
structure Input where
  iCe : Bool
  iTrigger : Bool
  iData : BitVec 32
  iWbCyc : Bool
  iWbStb : Bool
  iWbWe : Bool
  iWbAddr : Bool
  iWbData : BitVec 32

/-- `read_from_data` -/
def Input.readFromData (i : Input) : Bool := i.iWbStb && !i.iWbWe && i.iWbAddr

/-- `write_to_control` -/
def Input.writeToControl (i : Input) : Bool := i.iWbStb && i.iWbWe && !i.iWbAddr

/-- The registers with an initial value. -/
structure Initial (defaultHoldoff : BitVec b) (p : Wbscope lg b) : Prop where
  brConfig : p.brConfig = 0
  brHoldoff : p.brHoldoff = defaultHoldoff
  drTriggered : p.drTriggered = false
  drPrimed : p.drPrimed = false
  drStopped : p.drStopped = false
  counter : p.counter = 0
  waddr : p.waddr = 0
  brPreWbAck : p.brPreWbAck = false
  brWbAck : p.brWbAck = false

section Wires

variable (p : Wbscope lg b) (i : Input)

/-- `dw_reset`, which is also `bw_reset_request` and `bw_reset_complete`. -/
def dwReset : Bool := !p.brConfig.getLsbD 2

/-- `dw_manual_trigger` -/
def dwManualTrigger : Bool := p.brConfig.getLsbD 1

/-- `dw_disable_trigger` -/
def dwDisableTrigger : Bool := p.brConfig.getLsbD 0

/-- `dw_trigger` -/
def dwTrigger : Bool :=
  p.drPrimed && (i.iTrigger && !p.dwDisableTrigger || p.dwManualTrigger)

/-- `o_wb_ack` -/
def oWbAck : Bool := i.iWbCyc && p.brWbAck

/-- The status word. -/
def status : BitVec 32 :=
  BitVec.ofBool p.dwReset ++ BitVec.ofBool p.drStopped ++ BitVec.ofBool p.drTriggered
    ++ BitVec.ofBool p.drPrimed ++ BitVec.ofBool p.dwManualTrigger
    ++ BitVec.ofBool p.dwDisableTrigger ++ BitVec.ofBool (p.raddr == 0) ++ BitVec.ofNat 5 lg
    ++ p.brHoldoff.setWidth 20

/-- One clock of `wbscope`. -/
def step : Wbscope lg b where
  brConfig :=
    if i.writeToControl then
      BitVec.ofBool
          (if p.dwReset then true
           else if !p.brConfig.getLsbD 2 then false
           else i.iWbData.getLsbD 31)
        ++ BitVec.ofBool (i.iWbData.getLsbD 27) ++ BitVec.ofBool (i.iWbData.getLsbD 26)
    else if p.dwReset then 1#1 ++ p.brConfig.extractLsb' 0 2
    else p.brConfig
  brHoldoff :=
    if i.writeToControl && !i.iWbData.getLsbD 31 then i.iWbData.extractLsb' 0 b
    else p.brHoldoff
  drTriggered :=
    if p.dwReset then false
    else if i.iCe && p.dwTrigger i then true
    else p.drTriggered
  counter :=
    if p.dwReset then 0
    else if i.iCe && p.drTriggered && !p.drStopped then p.counter + 1
    else p.counter
  drStopped :=
    if !p.drTriggered || p.dwReset then false
    else p.counter ≥ p.brHoldoff
  waddr :=
    if p.dwReset then 0
    else if i.iCe && !p.drStopped then p.waddr + 1
    else p.waddr
  drPrimed :=
    if p.dwReset then false
    else if i.iCe && !p.drStopped && !p.drPrimed then p.waddr == BitVec.allOnes lg
    else p.drPrimed
  dataPipe := if i.iCe then i.iData else p.dataPipe
  mem :=
    if i.iCe && !p.drStopped then Function.update p.mem p.waddr p.dataPipe
    else p.mem
  raddr :=
    if p.dwReset || i.writeToControl then 0
    else if i.readFromData && p.drStopped then p.raddr + 1
    else p.raddr
  brPreWbAck := i.iWbStb
  brWbAck := p.brPreWbAck && i.iWbCyc
  thisAddr := if i.readFromData then p.raddr + p.waddr + 1 else p.raddr + p.waddr
  nxtMem := p.mem p.thisAddr
  readAddress := i.iWbAddr
  oBusData :=
    if !p.readAddress then p.status
    else if !p.drStopped then i.iData
    else p.nxtMem

end Wires

/-! ### What is recorded -/

/-- The memory holds the sample number `k` in slot `k + 1`, for the samples before number `e`
as far back as there are slots. -/
def Recorded (p : Wbscope lg b) (samples : List (BitVec 32)) (e : ℕ) : Prop :=
  ∀ k v, samples[k]? = some v → k < e → e ≤ k + 2 ^ lg → p.mem (BitVec.ofNat lg (k + 1)) = v

/-- Samples are recorded: all but the last one are in the memory, and that one is on its way.
The number of the sample taken with the trigger is `trigger`, once it was seen. -/
structure Capturing (samples : List (BitVec 32)) (trigger : Option ℕ) (p : Wbscope lg b) :
    Prop where
  drStopped : p.drStopped = false
  waddr : p.waddr = BitVec.ofNat lg samples.length
  recorded : p.Recorded samples (samples.length - 1)
  dataPipe : ∀ v, samples.getLast? = some v → p.dataPipe = v
  drPrimed : p.drPrimed = decide (2 ^ lg ≤ samples.length)
  drTriggered : p.drTriggered = trigger.isSome
  counter : trigger = none → p.counter = 0
  since : ∀ k, trigger = some k → p.counter.toNat + k + 1 = samples.length
  primed : ∀ k, trigger = some k → 2 ^ lg ≤ k
  le : p.counter ≤ p.brHoldoff

/-- The scope has stopped with the sample taken the holdoff after the trigger. -/
structure Stopped (samples : List (BitVec 32)) (trigger : Option ℕ) (p : Wbscope lg b) :
    Prop where
  drStopped : p.drStopped = true
  drTriggered : p.drTriggered = true
  le : p.brHoldoff ≤ p.counter
  captured : ∃ k, trigger = some k ∧ 2 ^ lg ≤ k ∧ k + p.brHoldoff.toNat < samples.length
    ∧ p.waddr = BitVec.ofNat lg (k + p.brHoldoff.toNat + 2)
    ∧ p.Recorded samples (k + p.brHoldoff.toNat + 1)

section Step

variable {samples : List (BitVec 32)} {trigger : Option ℕ} {p : Wbscope lg b} {i : Input}

theorem capturing_of_dwReset (hreset : p.dwReset = true) :
  (p.step i).Capturing [] none
  := by
  have hpos : ¬ 2 ^ lg ≤ 0 := Nat.not_le.mpr (Nat.two_pow_pos lg)
  constructor
  · simp [step, hreset]
  · simp [step, hreset]
  · intro k v hk
    simp at hk
  · intro v hv
    simp at hv
  · simp [step, hreset, hpos]
  · simp [step, hreset]
  · simp [step, hreset]
  · intro k hk
    simp at hk
  · intro k hk
    simp at hk
  · simp [step, hreset, BitVec.le_def]

/-- The samples with the one taken at this clock. -/
def taken (samples : List (BitVec 32)) (i : Input) : List (BitVec 32) :=
  samples ++ if i.iCe then [i.iData] else []

/-- The number of the sample taken with the trigger, if it has now been seen. -/
def seen (p : Wbscope lg b) (i : Input) (samples : List (BitVec 32)) (trigger : Option ℕ) :
    Option ℕ :=
  if i.iCe && p.dwTrigger i && !p.drTriggered then some samples.length else trigger

theorem getLsbD_config (x y z : Bool) :
  (BitVec.ofBool x ++ BitVec.ofBool y ++ BitVec.ofBool z).getLsbD 2 = x
  := by cases x <;> cases y <;> cases z <;> rfl

theorem brHoldoff_step (hrun : p.dwReset = false) (hrun' : (p.step i).dwReset = false) :
  (p.step i).brHoldoff = p.brHoldoff
  := by
  cases hwrite : i.writeToControl with
  | false => simp [step, hwrite]
  | true =>
      have hdone : p.brConfig.getLsbD 2 = true := by simpa [dwReset] using hrun
      have hkeep : i.iWbData.getLsbD 31 = true := by
        simpa only [dwReset, step, hwrite, if_true, hdone, Bool.not_true, Bool.false_eq_true,
          if_false, getLsbD_config, Bool.not_eq_false'] using hrun'
      simp only [step, hkeep, Bool.not_true, Bool.and_false, Bool.false_eq_true, if_false]

theorem drTriggered_step (hrun : p.dwReset = false) :
  (p.step i).drTriggered = (i.iCe && p.dwTrigger i || p.drTriggered)
  := by
  simp only [step, hrun]
  cases i.iCe <;> cases p.dwTrigger i <;> simp

/-- With a sample, the one before it goes to the memory. -/
theorem Capturing.recorded_step (h : p.Capturing samples trigger) (hce : i.iCe = true) :
  (p.step i).Recorded (samples ++ [i.iData]) samples.length
  := by
  intro k v hk hlt hle
  have hmem : (p.step i).mem
      = Function.update p.mem (BitVec.ofNat lg samples.length) p.dataPipe := by
    simp [step, hce, h.drStopped, h.waddr]
  rw [List.getElem?_append_left hlt] at hk
  rw [hmem]
  rcases Nat.lt_or_ge k (samples.length - 1) with hbefore | hlast
  · rw [Function.update_of_ne]
    · apply h.recorded k v hk hbefore (by omega)
    · have hne := slot_ne (Nat.le_refl lg) 0 (i := k + 1) (j := samples.length) (by omega) (by omega)
      simpa using hne
  · have hk' : k + 1 = samples.length := by omega
    have hpipe := h.dataPipe v (by rw [List.getLast?_eq_getElem?, ← hk]; congr 1; omega)
    rw [hk', Function.update_self, hpipe]

theorem waddr_step (hrun : p.dwReset = false) (hgoing : p.drStopped = false)
    (hwaddr : p.waddr = BitVec.ofNat lg samples.length) :
  (p.step i).waddr = BitVec.ofNat lg (taken samples i).length
  := by
  by_cases hce : i.iCe = true
  · simp [step, hrun, hgoing, taken, hwaddr, BitVec.ofNat_add, hce]
  · simp [step, hrun, hgoing, taken, hwaddr, hce]

theorem drPrimed_step (hrun : p.dwReset = false) (h : p.Capturing samples trigger) :
  (p.step i).drPrimed = decide (2 ^ lg ≤ (taken samples i).length)
  := by
  have hprimed := h.drPrimed
  by_cases hce : i.iCe = true
  · by_cases hfull : 2 ^ lg ≤ samples.length
    · have hfull' : 2 ^ lg ≤ samples.length + 1 := Nat.le_succ_of_le hfull
      simp [step, hrun, h.drStopped, taken, hce, hprimed, hfull, hfull']
    · have hlast : p.waddr = BitVec.allOnes lg ↔ 2 ^ lg ≤ samples.length + 1 := by
        rw [h.waddr, ← BitVec.toNat_inj, BitVec.toNat_ofNat, BitVec.toNat_allOnes,
          Nat.mod_eq_of_lt (by omega)]
        omega
      simp [step, hrun, h.drStopped, taken, hce, hprimed, hfull, beq_eq_decide, hlast]
  · simp [step, hrun, h.drStopped, taken, hce, hprimed]

theorem counter_step (hrun : p.dwReset = false) (hgoing : p.drStopped = false) :
  (p.step i).counter = if i.iCe && p.drTriggered then p.counter + 1 else p.counter
  := by simp [step, hrun, hgoing]

theorem toNat_counter_succ (h : p.counter ≠ BitVec.allOnes b) :
  (p.counter + 1).toNat = p.counter.toNat + 1
  := by
  have hlt := p.counter.isLt
  have hne : p.counter.toNat ≠ 2 ^ b - 1 := by
    rw [← BitVec.toNat_allOnes]
    intro heq
    apply h (BitVec.eq_of_toNat_eq heq)
  rw [BitVec.toNat_add, toNat_one_of_lt (by omega), Nat.mod_eq_of_lt (by omega)]

theorem counter_ne_of_lt (h : p.counter < p.brHoldoff) :
  p.counter ≠ BitVec.allOnes b
  := by
  intro heq
  rw [heq, BitVec.lt_def, BitVec.toNat_allOnes] at h
  have := p.brHoldoff.isLt
  omega

/-- Until the holdoff is over samples are recorded. -/
theorem Capturing.step (h : p.Capturing samples trigger) (hrun : p.dwReset = false)
    (hrun' : (p.step i).dwReset = false)
    (hlt : p.drTriggered = true → p.counter < p.brHoldoff) :
  (p.step i).Capturing (taken samples i) (p.seen i samples trigger)
  := by
  have hholdoff := brHoldoff_step hrun hrun'
  have hcounter := counter_step (i := i) hrun h.drStopped
  have hnext : p.drTriggered = true → (p.counter + 1).toNat = p.counter.toNat + 1 :=
    fun htriggered => toNat_counter_succ (counter_ne_of_lt (hlt htriggered))
  have htriggered := h.drTriggered
  have hzero := h.counter
  have hsince := h.since
  have hprimed := h.primed
  constructor
  · simp only [Wbscope.step, hrun]
    grind
  · apply waddr_step hrun h.drStopped h.waddr
  · by_cases hce : i.iCe = true
    · have hlen : (taken samples i).length - 1 = samples.length := by simp [taken, hce]
      rw [hlen, taken, if_pos hce]
      apply h.recorded_step hce
    · have hsame : taken samples i = samples := by simp [taken, hce]
      have hmem : (p.step i).mem = p.mem := by simp [Wbscope.step, hce]
      rw [hsame, Recorded, hmem]
      apply h.recorded
  · intro v hv
    by_cases hce : i.iCe = true
    · simp [taken, hce] at hv
      simp [Wbscope.step, hce, hv]
    · simp only [taken, hce, Bool.false_eq_true, if_false, List.append_nil] at hv
      simp [Wbscope.step, hce, h.dataPipe v hv]
  · apply drPrimed_step hrun h
  · rw [drTriggered_step hrun, seen]
    cases i.iCe <;> cases p.dwTrigger i <;> cases htr : p.drTriggered <;>
      simp [← htriggered, htr]
  · intro hnone
    simp only [seen] at hnone
    grind
  · intro k hk
    rw [hcounter]
    simp only [seen] at hk
    simp only [taken]
    cases hce : i.iCe <;> cases htr : p.drTriggered <;> simp_all
    grind
  · intro k hk
    have := h.drPrimed
    simp only [seen, dwTrigger] at hk
    grind
  · have hle := h.le
    rw [hholdoff, hcounter]
    rw [BitVec.le_def] at hle ⊢
    cases htr : p.drTriggered with
    | false => simpa using hle
    | true =>
        have hbound := hlt htr
        rw [BitVec.lt_def] at hbound
        cases i.iCe with
        | false => simpa using hle
        | true =>
            rw [Bool.and_self, if_pos rfl, hnext htr]
            omega

theorem seen_of_drTriggered (htriggered : p.drTriggered = true) :
  p.seen i samples trigger = trigger
  := by simp [seen, htriggered]

/-- The scope stops at the sample after the one that ends the holdoff. -/
theorem Capturing.stop (h : p.Capturing samples trigger) (hrun : p.dwReset = false)
    (hrun' : (p.step i).dwReset = false) (htriggered : p.drTriggered = true)
    (hover : p.brHoldoff ≤ p.counter) (hce : i.iCe = true)
    (hholdoff : p.brHoldoff ≠ BitVec.allOnes b) :
  (p.step i).Stopped (taken samples i) (p.seen i samples trigger)
  := by
  have hkeep := brHoldoff_step hrun hrun'
  have hover' : p.counter = p.brHoldoff := by
    apply BitVec.eq_of_toNat_eq (Nat.le_antisymm (BitVec.le_def.mp h.le) (BitVec.le_def.mp hover))
  obtain ⟨k, hk⟩ := Option.isSome_iff_exists.mp (h.drTriggered ▸ htriggered)
  have hsince := h.since k hk
  rw [hover'] at hsince
  have hlen : k + p.brHoldoff.toNat + 1 = samples.length := by omega
  constructor
  · simp [Wbscope.step, hrun, htriggered, hover]
  · rw [drTriggered_step hrun, htriggered, Bool.or_true]
  · have hsucc := toNat_counter_succ (hover' ▸ hholdoff)
    rw [hkeep, counter_step hrun h.drStopped, hce, htriggered, Bool.and_self, if_pos rfl,
      BitVec.le_def, hsucc, hover']
    omega
  · use k
    rw [seen_of_drTriggered htriggered, hkeep, hlen]
    use hk, h.primed k hk
    have hlen' : (taken samples i).length = samples.length + 1 := by simp [taken, hce]
    constructor
    · omega
    · constructor
      · have hend : k + p.brHoldoff.toNat + 2 = samples.length + 1 := by omega
        rw [waddr_step hrun h.drStopped h.waddr, hlen', hend]
      · rw [taken, if_pos hce]
        apply h.recorded_step hce

/-- A scope that has stopped leaves its memory alone. -/
theorem keeps_of_drStopped (hstopped : p.drStopped = true) (hrun : p.dwReset = false) :
  (p.step i).mem = p.mem ∧ (p.step i).waddr = p.waddr ∧ (p.step i).counter = p.counter
  := by simp [step, hstopped, hrun]

theorem Stopped.step (h : p.Stopped samples trigger) (hrun : p.dwReset = false)
    (hrun' : (p.step i).dwReset = false) :
  (p.step i).Stopped (taken samples i) (p.seen i samples trigger)
  := by
  have hkeep := brHoldoff_step hrun hrun'
  obtain ⟨hmem, hwaddr, hcounter⟩ := keeps_of_drStopped (i := i) h.drStopped hrun
  constructor
  · simp [Wbscope.step, hrun, h.drTriggered, h.le]
  · rw [drTriggered_step hrun, h.drTriggered, Bool.or_true]
  · rw [hkeep, hcounter]
    apply h.le
  · obtain ⟨k, hk, hprimed, hlt, hend, hrecorded⟩ := h.captured
    use k
    rw [seen_of_drTriggered h.drTriggered, hkeep, hwaddr]
    use hk, hprimed
    constructor
    · rw [taken, List.length_append]
      omega
    · use hend
      intro j v hj hjlt hle
      rw [hmem]
      rw [taken, List.getElem?_append_left (by omega)] at hj
      apply hrecorded j v hj hjlt hle

end Step

end Wbscope

end ZBasic
