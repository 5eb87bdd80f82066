import ZBasic.Cpu.Mpyop

/-!
# The arithmetic unit with its multiplier

`cpuops` starts its multiplier with the operation it is given, and is busy until the product
is there. Whichever multiplier it has, it gives the same half of the same product; only the
number of clocks until then differs.
-/

namespace ZBasic

open Clocked

/-- The inputs of `cpuops` at one clock. -/
structure AluInput where
  iReset : Bool
  iStb : Bool
  iOp : BitVec 4
  iA : BitVec 32
  iB : BitVec 32

/-- The registers of `cpuops`, with those of its multiplier. -/
structure Alu (σ : Type) where
  cpuops : Cpuops
  thempy : σ

namespace AluInput

/-- `this_is_a_multiply_op` -/
def thisIsAMultiplyOp (i : AluInput) : Bool :=
  i.iStb && (i.iOp.extractLsb' 1 3 == 0x5 || i.iOp == 0xc)

/-- What the multiplier is given. -/
def thempy (i : AluInput) : MpyopInput where
  iReset := i.iReset
  iStb := i.thisIsAMultiplyOp
  iOp := i.iOp.extractLsb' 0 2
  iA := i.iA
  iB := i.iB

end AluInput

namespace Alu

section Source

variable {σ : Type} (implementMpy : ℕ) (mul : Multiplier σ) (s : Alu σ) (i : AluInput)

/-- The inputs of `cpuops`, with what its multiplier gives it. -/
def cpuopsInput : CpuopsInput where
  iReset := i.iReset
  iStb := i.iStb
  iOp := i.iOp
  iA := i.iA
  iB := i.iB
  mpydone := mul.oValid s.thempy i.thempy
  mpybusy := mul.oBusy s.thempy
  mpyResult := mul.oResult s.thempy i.thempy
  mpyhi := mul.oHi s.thempy i.thempy

/-- One clock edge of `cpuops` and its multiplier. -/
def step : Alu σ where
  cpuops := Cpuops.step implementMpy s.cpuops (cpuopsInput mul s i)
  thempy := mul.step s.thempy i.thempy

/-- `cpuops`, seen from outside. -/
def interface : Interface (Alu σ) AluInput where
  step := step implementMpy mul
  reset := AluInput.iReset
  asks _ i := i.iStb
  busy s := s.cpuops.rBusy
  valid s := s.cpuops.oValid

end Source

/-- The registers with an initial value at power up; the others are arbitrary. -/
structure Initial (implementMpy : ℕ) (s : Alu (Mpyop implementMpy)) : Prop where
  rBusy : s.cpuops.rBusy = false
  oValid : s.cpuops.oValid = false
  thempy : Mpyop.Initial implementMpy s.thempy

/-! ### The result of a multiplication -/

/-- A multiplication has the half of the product that it is to give, with its flags. -/
structure Multiplied (op : AluInput) (c : Cpuops) : Prop where
  mpy : op.iOp = 0xc → c.oC.toNat = op.iA.toNat * op.iB.toNat % 2 ^ 32
  mpyuhi : op.iOp = 0xa → c.oC.toNat = op.iA.toNat * op.iB.toNat / 2 ^ 32
  mpyshi : op.iOp = 0xb → c.oC.toInt = op.iA.toInt * op.iB.toInt / 2 ^ 32
  zero : c.oF.getLsbD 0 = true ↔ c.oC = 0
  negative : c.oF.getLsbD 2 = true ↔ c.oC.toInt < 0

/-- The half of the product that a multiplication asks for. -/
def half (op : MpyopInput) : BitVec 32 :=
  if op.iOp.getLsbD 1 then (Mpyop.product op).extractLsb' 32 32
  else (Mpyop.product op).extractLsb' 0 32

theorem multiplied_of {op : AluInput} {c : Cpuops} (hkeep : c.keepSgnOnOvfl = false)
    (hoC : c.oC = half op.thempy) :
  Multiplied op c
  := by
  obtain ⟨hz, -, hn, -⟩ := Cpuops.oF_eq c
  constructor
  · intro hop
    have hhalf : half op.thempy
        = (BitVec.ofInt 64 (op.iA.toNat * op.iB.toNat)).extractLsb' 0 32 := by
      simp [half, AluInput.thempy, Mpyop.product, Mpyop.factor, hop]
    rw [hoC, hhalf, toNat_extract_low, ← Nat.cast_mul, BitVec.ofInt_natCast, BitVec.toNat_ofNat]
    apply Nat.mod_mod_of_dvd
    decide
  · intro hop
    have hhalf : half op.thempy
        = (BitVec.ofInt 64 (op.iA.toNat * op.iB.toNat)).extractLsb' 32 32 := by
      simp [half, AluInput.thempy, Mpyop.product, Mpyop.factor, hop]
    have hlt : op.iA.toNat * op.iB.toNat < 2 ^ 64 := by
      have := Nat.mul_lt_mul'' op.iA.isLt op.iB.isLt
      omega
    rw [hoC, hhalf, toNat_extract_high _ rfl, ← Nat.cast_mul, BitVec.ofInt_natCast,
      BitVec.toNat_ofNat, Nat.mod_eq_of_lt hlt]
  · intro hop
    have hhalf : half op.thempy
        = (BitVec.ofInt 64 (op.iA.toInt * op.iB.toInt)).extractLsb' 32 32 := by
      simp [half, AluInput.thempy, Mpyop.product, Mpyop.factor, hop]
    have hlow := BitVec.le_toInt_mul_toInt (x := op.iA) (y := op.iB)
    have hhigh := BitVec.toInt_mul_toInt_le (x := op.iA) (y := op.iB)
    rw [hoC, hhalf, BitVec.toInt_eq_toNat_cond, toNat_extract_high _ rfl, BitVec.toNat_ofInt]
    omega
  · rw [hz, Cpuops.z, beq_iff_eq]
  · rw [hn, Cpuops.n, Cpuops.vx, hkeep, Bool.false_and, Bool.xor_false, Cpuops.top_eq_neg,
      decide_eq_true_iff]

/-! ### One clock -/

section Stages

variable {σ : Type} (clocks : ℕ) (Idle : σ → Prop) (Stage : MpyopInput → ℕ → σ → Prop)

/-- The number of clocks until an operation is done. -/
def latency (op : AluInput) : ℕ := if op.thisIsAMultiplyOp then clocks + 1 else 1

/-- Nothing is being worked on. -/
structure Ready (s : Alu σ) : Prop where
  rBusy : s.cpuops.rBusy = false
  thempy : Idle s.thempy

/-- Nothing is being worked on, and nothing shown. -/
structure AtRest (s : Alu σ) : Prop extends Ready Idle s where
  oValid : s.cpuops.oValid = false

/-- The multiplier works on a multiplication. -/
structure Working (op : AluInput) (k : ℕ) (s : Alu σ) : Prop where
  multiply : op.thisIsAMultiplyOp = true
  le : k ≤ clocks
  rBusy : s.cpuops.rBusy = true
  oValid : s.cpuops.oValid = false
  keepSgnOnOvfl : s.cpuops.keepSgnOnOvfl = false
  thempy : Stage op.thempy k s.thempy

/-- An operation is done. -/
structure Done (op : AluInput) (s : Alu σ) : Prop extends Ready Idle s where
  oValid : s.cpuops.oValid = true
  multiplied : op.thisIsAMultiplyOp = true → Multiplied op s.cpuops

/-- The stages of an operation. -/
inductive AtStage (op : AluInput) : ℕ → Alu σ → Prop
  | working {k : ℕ} {s : Alu σ} (h : Working clocks Stage op k s) : AtStage op k s
  | done {s : Alu σ} (h : Done Idle op s) : AtStage op (latency clocks op) s

end Stages

section Step

variable {σ : Type} {implementMpy clocks : ℕ} {mul : Multiplier σ} {Idle Able : σ → Prop}
  {Stage : MpyopInput → ℕ → σ → Prop} {s : Alu σ} {op i : AluInput} {k : ℕ}

theorem latency_pos (op : AluInput) :
  0 < latency clocks op
  := by
  rw [latency]
  split_ifs <;> omega

theorem keepSgnOnOvfl_multiply (h : i.thisIsAMultiplyOp = true) :
  (step implementMpy mul s i).cpuops.keepSgnOnOvfl = false
  := by
  have hother : ∀ o : BitVec 4, o.extractLsb' 1 3 = 0x5 ∨ o = 0xc →
      (o == 0x0) = false ∧ (o == 0x2) = false := by decide
  rw [AluInput.thisIsAMultiplyOp, Bool.and_eq_true, Bool.or_eq_true, beq_iff_eq, beq_iff_eq] at h
  obtain ⟨hsub, hadd⟩ := hother i.iOp h.2
  simp only [step, Cpuops.step, cpuopsInput, h.1, if_true, Cpuops.mayOverflow, hsub, hadd,
    Bool.false_and, Bool.or_false]

theorem cpuops_multiply (hmpy : 1 < implementMpy) (hreset : i.iReset = false)
    (h : i.thisIsAMultiplyOp = true) (hvalid : mul.oValid s.thempy i.thempy = false) :
  (step implementMpy mul s i).cpuops.rBusy = true
    ∧ (step implementMpy mul s i).cpuops.oValid = false
  := by
  have hstb : i.iStb = true := by
    rw [AluInput.thisIsAMultiplyOp, Bool.and_eq_true] at h
    apply h.1
  have hsame : Cpuops.thisIsAMultiplyOp (cpuopsInput mul s i) = i.thisIsAMultiplyOp := rfl
  constructor
  · simp only [step, Cpuops.step, hsame, h]
    simp [cpuopsInput, hreset, hstb, hmpy]
  · simp only [step, Cpuops.step, hsame, h]
    simp [cpuopsInput, hreset, hvalid, Nat.not_le.mpr hmpy]

/-- An operation that is no multiplication is done at once. -/
theorem cpuops_other (hreset : i.iReset = false) (hstb : i.iStb = true)
    (h : i.thisIsAMultiplyOp = false) (hbusy : mul.oBusy s.thempy = false) :
  (step implementMpy mul s i).cpuops.rBusy = false
    ∧ (step implementMpy mul s i).cpuops.oValid = true
  := by
  have hsame : Cpuops.thisIsAMultiplyOp (cpuopsInput mul s i) = i.thisIsAMultiplyOp := rfl
  constructor
  · simp only [step, Cpuops.step, hsame, h]
    simp [cpuopsInput, hbusy]
  · simp only [step, Cpuops.step, hsame, h]
    simp [cpuopsInput, hreset, hstb]

/-- What a multiplication gives at once is the half of what the multiplier has. -/
theorem oC_multiply (h : i.thisIsAMultiplyOp = true) :
  (step implementMpy mul s i).cpuops.oC
    = if i.thempy.iOp.getLsbD 1 then (mul.oResult s.thempy i.thempy).extractLsb' 32 32
      else (mul.oResult s.thempy i.thempy).extractLsb' 0 32
  := by
  rw [AluInput.thisIsAMultiplyOp, Bool.and_eq_true, Bool.or_eq_true, beq_iff_eq, beq_iff_eq] at h
  obtain ⟨hstb, hop⟩ := h
  have hops : ∀ o : BitVec 4, o.extractLsb' 1 3 = 0x5 ∨ o = 0xc → o = 0xa ∨ o = 0xb ∨ o = 0xc := by
    decide
  have hC : (step implementMpy mul s i).cpuops.oC = (Cpuops.result (cpuopsInput mul s i)).2 := by
    simp [step, Cpuops.step, cpuopsInput, hstb]
  rw [hC]
  rcases hops i.iOp hop with hop | hop | hop <;>
    simp [Cpuops.result, cpuopsInput, AluInput.thempy, hop]

/-- Between operations, and while the multiplier works, `cpuops` follows the multiplier. -/
theorem cpuops_follows (hmpy : 1 < implementMpy) (hreset : i.iReset = false)
    (hstb : i.iStb = false) :
  (step implementMpy mul s i).cpuops.rBusy = mul.oBusy s.thempy
    ∧ (step implementMpy mul s i).cpuops.oValid = mul.oValid s.thempy i.thempy
    ∧ (step implementMpy mul s i).cpuops.keepSgnOnOvfl = s.cpuops.keepSgnOnOvfl
    ∧ (step implementMpy mul s i).cpuops.oC
      = if mul.oHi s.thempy i.thempy then (mul.oResult s.thempy i.thempy).extractLsb' 32 32
        else (mul.oResult s.thempy i.thempy).extractLsb' 0 32
  := by
  refine ⟨?_, ?_, ?_, ?_⟩
  · simp [step, Cpuops.step, cpuopsInput, hreset, hstb, hmpy]
  · simp [step, Cpuops.step, cpuopsInput, hreset, hstb, Nat.not_le.mpr hmpy]
  · simp [step, Cpuops.step, cpuopsInput, hstb]
  · simp [step, Cpuops.step, cpuopsInput, hstb]

theorem thempy_quiet (h : i.iStb = false) :
  i.thempy.iStb = false
  := by rw [AluInput.thempy, AluInput.thisIsAMultiplyOp, h, Bool.false_and]

/-- While the multiplier works, nothing is shown but at its last stage the product. -/
theorem Working.step (hmpy : 1 < implementMpy) (hmul : mul.Delivers clocks Idle Able Stage)
    (h : Working clocks Stage op k s) (hreset : i.iReset = false) (hstb : i.iStb = false) :
  AtStage clocks Idle Stage op (k + 1) (Alu.step implementMpy mul s i)
  := by
  obtain ⟨hbusy, hvalid, hkeep, hoC⟩ :
      (Alu.step implementMpy mul s i).cpuops.rBusy = mul.oBusy s.thempy ∧ _ :=
    cpuops_follows hmpy hreset hstb
  have hquiet := thempy_quiet hstb
  rw [hmul.oValid] at hvalid
  rcases Nat.eq_or_lt_of_le h.le with rfl | hlt
  · -- The last stage.
    have hlast : k + 1 = latency k op := by rw [latency, h.multiply, if_pos rfl]
    have hready := hmul.ready_of_last _ _ h.thempy
    rw [hlast]
    apply AtStage.done
    constructor
    · constructor
      · rw [hbusy]
        apply hmul.busy_of_ready _ hready
      · apply hmul.idle _ i.thempy hready hreset hquiet
    · rw [hvalid]
      apply (hmul.valid_of_stage _ _ _ h.thempy).mpr rfl
    · intro _
      apply multiplied_of (hkeep.trans h.keepSgnOnOvfl)
      rw [hoC, hmul.oHi _ _ _ h.thempy, hmul.oResult _ _ _ h.thempy, half]
  · apply AtStage.working
    constructor
    · apply h.multiply
    · apply hlt
    · rw [hbusy]
      apply hmul.busy_of_stage _ _ _ h.thempy hlt
    · rw [hvalid, ← Bool.not_eq_true]
      intro hdone
      have := (hmul.valid_of_stage _ _ _ h.thempy).mp hdone
      omega
    · apply hkeep.trans h.keepSgnOnOvfl
    · apply hmul.work _ _ _ i.thempy h.thempy hlt hreset hquiet

/-- From where nothing is being worked on, an operation is taken in. -/
theorem Ready.take (hmpy : 1 < implementMpy) (hmul : mul.Delivers clocks Idle Able Stage)
    (h : Ready Idle s) (hreset : i.iReset = false) (hstb : i.iStb = true) :
  AtStage clocks Idle Stage i 1 (Alu.step implementMpy mul s i)
  := by
  have hable := hmul.ready_of_idle _ h.thempy
  cases hmultiply : i.thisIsAMultiplyOp with
  | true =>
      have hnone : mul.oValid s.thempy i.thempy = false := by
        rw [hmul.oValid]
        apply hmul.valid_of_idle _ h.thempy
      obtain ⟨hbusy, hvalid⟩ := cpuops_multiply hmpy hreset hmultiply hnone
      apply AtStage.working
      constructor
      · apply hmultiply
      · apply hmul.pos i.thempy
      · apply hbusy
      · apply hvalid
      · apply keepSgnOnOvfl_multiply hmultiply
      · apply hmul.take _ i.thempy hable hreset hmultiply
  | false =>
      have hone : 1 = latency clocks i := by
        rw [latency, hmultiply, if_neg Bool.false_ne_true]
      obtain ⟨hbusy, hvalid⟩ : (Alu.step implementMpy mul s i).cpuops.rBusy = false ∧ _ :=
        cpuops_other hreset hstb hmultiply (hmul.busy_of_ready _ hable)
      rw [hone]
      apply AtStage.done
      constructor
      · constructor
        · apply hbusy
        · apply hmul.idle _ i.thempy hable hreset hmultiply
      · apply hvalid
      · intro hmultiply'
        rw [hmultiply] at hmultiply'
        contradiction

theorem AtStage.working_or_done (h : AtStage clocks Idle Stage op k s) :
  (k < latency clocks op ∧ Working clocks Stage op k s)
    ∨ (k = latency clocks op ∧ Done Idle op s)
  := by
  cases h with
  | working h =>
      left
      constructor
      · rw [latency, h.multiply, if_pos rfl]
        apply Nat.lt_succ_of_le h.le
      · apply h
  | done h =>
      right
      use rfl

/-- With any multiplier, one operation is worked on at a time. -/
theorem oneAtATime (hmpy : 1 < implementMpy) (hmul : mul.Delivers clocks Idle Able Stage) :
  OneAtATime (interface implementMpy mul) (latency clocks) (AtRest Idle) (Ready Idle)
    (AtStage clocks Idle Stage)
  := by
  constructor
  case pos => apply latency_pos
  case ready_of_idle =>
    intro s h
    apply h.toReady
  case ready_of_last =>
    intro op s h
    rcases h.working_or_done with ⟨hlt, -⟩ | ⟨-, h⟩
    · omega
    · apply h.toReady
  case busy_of_ready =>
    intro s h
    apply h.rBusy
  case busy_of_stage =>
    intro op k s h hk
    rcases h.working_or_done with ⟨-, h⟩ | ⟨hlast, -⟩
    · apply h.rBusy
    · omega
  case valid_of_idle =>
    intro s h
    apply h.oValid
  case valid_of_stage =>
    intro op k s h
    rcases h.working_or_done with ⟨hlt, h⟩ | ⟨hlast, h⟩
    · simp [interface, h.oValid, hlt.ne]
    · simp [interface, h.oValid, hlast]
  case idle_of_reset =>
    intro s i hreset
    change i.iReset = true at hreset
    constructor
    · constructor
      · simp [interface, step, Cpuops.step, cpuopsInput, hreset]
      · apply hmul.idle_of_reset _ i.thempy hreset
    · simp [interface, step, Cpuops.step, cpuopsInput, hreset]
  case idle =>
    intro s i hready hreset hasks
    change i.iStb = false at hasks
    have hable := hmul.ready_of_idle _ hready.thempy
    obtain ⟨hbusy, hvalid, -, -⟩ :
        (Alu.step implementMpy mul s i).cpuops.rBusy = mul.oBusy s.thempy ∧ _ :=
      cpuops_follows hmpy hreset hasks
    constructor
    · constructor
      · apply hbusy.trans (hmul.busy_of_ready _ hable)
      · apply hmul.idle _ i.thempy hable hreset (thempy_quiet hasks)
    · rw [hmul.oValid] at hvalid
      apply hvalid.trans (hmul.valid_of_idle _ hready.thempy)
  case take =>
    intro s i hready hreset hasks
    apply hready.take hmpy hmul hreset hasks
  case work =>
    intro op k s i h hk hreset hasks
    rcases h.working_or_done with ⟨-, h⟩ | ⟨hlast, -⟩
    · apply h.step hmpy hmul hreset hasks
    · omega

end Step

/-- Without registers between the factors and the product, an operation is done at once. -/
theorem oneAtATime_mpy1ck :
  OneAtATime (interface 1 Mpyop.mpy1ck) (latency 0) (AtRest (fun _ => True))
    (Ready (fun _ => True)) (AtStage 0 (fun _ => True) (fun _ _ _ => False))
  := by
  have hone : ∀ op, latency 0 op = 1 := by
    intro op
    rw [latency, ite_self]
  constructor
  case pos => apply latency_pos
  case ready_of_idle =>
    intro s h
    apply h.toReady
  case ready_of_last =>
    intro op s h
    rcases h.working_or_done with ⟨-, h⟩ | ⟨-, h⟩
    · apply h.thempy.elim
    · apply h.toReady
  case busy_of_ready =>
    intro s h
    apply h.rBusy
  case busy_of_stage =>
    intro op k s h hk
    rcases h.working_or_done with ⟨-, h⟩ | ⟨hlast, -⟩
    · apply h.thempy.elim
    · omega
  case valid_of_idle =>
    intro s h
    apply h.oValid
  case valid_of_stage =>
    intro op k s h
    rcases h.working_or_done with ⟨-, h⟩ | ⟨hlast, h⟩
    · apply h.thempy.elim
    · simp [interface, h.oValid, hlast]
  case idle_of_reset =>
    intro s i hreset
    change i.iReset = true at hreset
    constructor
    · constructor
      · simp [interface, step, Cpuops.step, cpuopsInput, hreset]
      · trivial
    · simp [interface, step, Cpuops.step, cpuopsInput, hreset]
  case idle =>
    intro s i _ hreset hasks
    change i.iStb = false at hasks
    constructor
    · constructor
      · simp [interface, step, Cpuops.step]
      · trivial
    · simp [interface, step, Cpuops.step, cpuopsInput, hasks]
  case take =>
    intro s i _ hreset hasks
    change i.iReset = false at hreset
    change i.iStb = true at hasks
    have hdone : Done (fun _ => True) i (step 1 Mpyop.mpy1ck s i) := by
      constructor
      · constructor
        · simp [step, Cpuops.step]
        · trivial
      · simp [step, Cpuops.step, cpuopsInput, hasks, hreset]
      · intro hmultiply
        apply multiplied_of (keepSgnOnOvfl_multiply hmultiply)
        rw [oC_multiply hmultiply, half, Mpyop.product]
        simp only [Mpyop.mpy1ck, Mpyop.extended_eq, ← BitVec.ofInt_mul]
    have hstage : AtStage 0 (fun _ => True) (fun _ _ _ => False) i (latency 0 i)
        (step 1 Mpyop.mpy1ck s i) := AtStage.done hdone
    rw [hone] at hstage
    apply hstage
  case work =>
    intro op k s i h hk
    rcases h.working_or_done with ⟨-, h⟩ | ⟨hlast, -⟩
    · apply h.thempy.elim
    · omega

/-! ### Every multiplier -/

/-- Whichever multiplier it has, the unit works on one operation at a time. -/
theorem oneAtATime_mpyop {implementMpy : ℕ} (hmpy : 1 ≤ implementMpy) :
  ∃ (Idle : Mpyop implementMpy → Prop) (Stage : MpyopInput → ℕ → Mpyop implementMpy → Prop),
    OneAtATime (interface implementMpy (mpyop implementMpy))
      (latency (Mpyop.clocks implementMpy)) (AtRest Idle) (Ready Idle)
      (AtStage (Mpyop.clocks implementMpy) Idle Stage)
      ∧ ∀ s, Mpyop.Initial implementMpy s → Idle s
  := by
  match implementMpy with
  | 1 =>
      use fun _ => True, fun _ _ _ => False, oneAtATime_mpy1ck
      intro _ _
      trivial
  | 2 =>
      refine ⟨_, _, oneAtATime (by omega) Mpyop.mpy2ck_pipelined.delivers, ?_⟩
      intro s h
      change s.mpypipe = false at h
      rw [h, Bool.toNat_false]
  | 3 =>
      refine ⟨_, _, oneAtATime (by omega) Mpyop.mpy3ck_pipelined.delivers, ?_⟩
      intro s h
      change s.mpypipe = 0 at h
      rw [h]
      rfl
  | 4 =>
      refine ⟨_, _, oneAtATime (by omega) Mpyop.mpy4ck_pipelined.delivers, ?_⟩
      intro s h
      change s.mpypipe = 0 at h
      rw [h]
      rfl
  | n + 5 =>
      refine ⟨_, _, oneAtATime (by omega) Mpyop.mpyslow_delivers, ?_⟩
      intro s h
      constructor
      · apply h.oBusy
      · apply h.oDone

section Runs

variable {implementMpy : ℕ}

/-- Each operation that no reset cuts short ends with one `o_valid`, which is that of no other
operation, and with the product that it asks for. -/
structure Multiplies (implementMpy : ℕ) (s₀ : Alu (Mpyop implementMpy)) (inp : ℕ → AluInput) :
    Prop where
  valid_iff : ∀ n, (run (step implementMpy (mpyop implementMpy)) s₀ inp n).cpuops.oValid = true
    ↔ ∃ m, n = m + latency (Mpyop.clocks implementMpy) (inp m)
      ∧ (interface implementMpy (mpyop implementMpy)).TakesIn s₀ inp m
      ∧ (interface implementMpy (mpyop implementMpy)).NoReset inp m n
  once : ∀ m m', (interface implementMpy (mpyop implementMpy)).TakesIn s₀ inp m →
    (interface implementMpy (mpyop implementMpy)).TakesIn s₀ inp m' →
    (interface implementMpy (mpyop implementMpy)).NoReset inp m
      (m + latency (Mpyop.clocks implementMpy) (inp m)) →
    (interface implementMpy (mpyop implementMpy)).NoReset inp m'
      (m' + latency (Mpyop.clocks implementMpy) (inp m')) →
    m + latency (Mpyop.clocks implementMpy) (inp m)
      = m' + latency (Mpyop.clocks implementMpy) (inp m') → m = m'
  multiplied : ∀ m, (interface implementMpy (mpyop implementMpy)).TakesIn s₀ inp m →
    (interface implementMpy (mpyop implementMpy)).NoReset inp m
      (m + latency (Mpyop.clocks implementMpy) (inp m)) →
    (inp m).thisIsAMultiplyOp = true →
    Multiplied (inp m) (run (step implementMpy (mpyop implementMpy)) s₀ inp
      (m + latency (Mpyop.clocks implementMpy) (inp m))).cpuops

/-- All multipliers multiply, as long as nothing is asked of the unit while it is busy. -/
theorem multiplies_mpyop {s₀ : Alu (Mpyop implementMpy)} {inp : ℕ → AluInput}
    (hmpy : 1 ≤ implementMpy) (h₀ : Initial implementMpy s₀)
    (hasks : (interface implementMpy (mpyop implementMpy)).Respected s₀ inp) :
  Multiplies implementMpy s₀ inp
  := by
  obtain ⟨Idle, Stage, hunit, hidle⟩ := oneAtATime_mpyop hmpy
  have hrest : AtRest Idle s₀ := ⟨⟨h₀.rBusy, hidle _ h₀.thempy⟩, h₀.oValid⟩
  constructor
  case valid_iff =>
    intro n
    apply hunit.valid_iff hasks hrest n
  case once =>
    intro m m' htakes htakes' hno hno' hend
    apply hunit.takesIn_eq_of_end hasks hrest htakes htakes' hno hno' hend
  case multiplied =>
    intro m htakes hno hmultiply
    have hstage := hunit.stage hasks hrest htakes (hunit.pos _) (Nat.le_refl _) hno
    rcases hstage.working_or_done with ⟨hlt, -⟩ | ⟨-, hdone⟩
    · omega
    · apply hdone.multiplied hmultiply

/-- The unit with the multiplier of four clocks at power up. -/
def start : Alu (Mpyop 4) where
  cpuops := ⟨false, false, false, false, 0, false, false⟩
  thempy := (⟨0, 0, 0, false, 0, 0, 0, 0, 0, false⟩ : Mpy4ck)

/-- A signed product of which one factor is negative. -/
theorem multiplies_mpy4ck :
  Multiplies 4 start (fun n => ⟨false, n == 0, 0xb, 0xfffffffd, 5⟩)
  := multiplies_mpyop (by decide) ⟨rfl, rfl, rfl⟩ (by
    intro n hbusy
    cases n with
    | zero => contradiction
    | succ n => rfl)

end Runs

end Alu

end ZBasic
