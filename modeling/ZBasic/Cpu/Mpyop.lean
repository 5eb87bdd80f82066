import ZBasic.Cpu.Cpuops
import ZBasic.Cpu.Slowmpy
import Mathlib.Tactic.Ring

/-!
# The multipliers

`mpyop` is one of several multipliers, chosen by `IMPLEMENT_MPY`. The first multiplies at
once, the next two take more registers between the factors and the product, the fourth puts
the product together from the products of the halves of the factors, and any other is the
slow multiplier. All but the first show when the product is there, and each has a register
for which half of the product was asked for.
-/

namespace ZBasic

open Clocked

/-- The inputs of `mpyop` at one clock. Bit 0 of `iOp` asks for signed factors, bit 1 for the
high half of the product. -/
structure MpyopInput where
  iReset : Bool
  iStb : Bool
  iOp : BitVec 2
  iA : BitVec 32
  iB : BitVec 32

/-- A multiplier with the registers `σ`: its clock edge and its outputs. -/
structure Multiplier (σ : Type) where
  step : σ → MpyopInput → σ
  oValid : σ → MpyopInput → Bool
  oBusy : σ → Bool
  oResult : σ → MpyopInput → BitVec 64
  oHi : σ → MpyopInput → Bool

/-- The registers of `MPY2CK`. -/
structure Mpy2ck where
  rMpyAInput : BitVec 64
  rMpyBInput : BitVec 64
  mpypipe : Bool
  oHi : Bool

/-- The registers of `MPY3CK`. -/
structure Mpy3ck where
  rSmpyResult : BitVec 64
  rUmpyResult : BitVec 64
  rMpyAInput : BitVec 32
  rMpyBInput : BitVec 32
  mpypipe : BitVec 2
  rSgn : BitVec 2
  oHi : Bool

/-- The registers of `MPY4CK`. -/
structure Mpy4ck where
  rMpyResult : BitVec 64
  rMpyAInput : BitVec 32
  rMpyBInput : BitVec 32
  rMpySigned : Bool
  mpypipe : BitVec 3
  ppF : BitVec 32
  ppL : BitVec 32
  ppOi : BitVec 33
  ppS : BitVec 33
  oHi : Bool

/-- The registers of `MPYSLOW`. -/
structure Mpyslow where
  slowmpyi : Slowmpy 6 33
  oHi : Bool

namespace Mpyop

section Source

/-- A factor below 32 copies of its sign, which count for signed factors only. -/
def extended (signed : Bool) (x : BitVec 32) : BitVec 64 :=
  (BitVec.ofBool (x.getLsbD 31 && signed)).signExtend 32 ++ x

/-- A factor whose sign bit is flipped for signed factors. -/
def flipped (signed : Bool) (x : BitVec 32) : BitVec 32 :=
  if signed then BitVec.ofBool (!x.getLsbD 31) ++ x.extractLsb' 0 31 else x

/-- `o_hi`, where it is a register. -/
def nextHi (oHi : Bool) (i : MpyopInput) : Bool := if i.iStb then i.iOp.getLsbD 1 else oHi

/-- `MPYNONE` -/
def mpynone : Multiplier Unit where
  step _ _ := ()
  oValid _ i := i.iStb
  oBusy _ := false
  oResult _ _ := 0
  oHi _ _ := false

/-- `MPY1CK` -/
def mpy1ck : Multiplier Unit where
  step _ _ := ()
  oValid _ _ := false
  oBusy _ := false
  oResult _ i := extended (i.iOp.getLsbD 0) i.iA * extended (i.iOp.getLsbD 0) i.iB
  oHi _ i := i.iOp.getLsbD 1

/-- `MPY2CK` -/
def mpy2ck : Multiplier Mpy2ck where
  step s i :=
    { rMpyAInput := extended (i.iOp.getLsbD 0) i.iA
      rMpyBInput := extended (i.iOp.getLsbD 0) i.iB
      mpypipe := !i.iReset && i.iStb
      oHi := nextHi s.oHi i }
  oValid s _ := s.mpypipe
  oBusy _ := false
  oResult s _ := s.rMpyAInput * s.rMpyBInput
  oHi s _ := s.oHi

/-- `MPY3CK` -/
def mpy3ck : Multiplier Mpy3ck where
  step s i :=
    { rSmpyResult := s.rMpyAInput.signExtend 64 * s.rMpyBInput.signExtend 64
      rUmpyResult := s.rMpyAInput.setWidth 64 * s.rMpyBInput.setWidth 64
      rMpyAInput := i.iA
      rMpyBInput := i.iB
      mpypipe := if i.iReset then 0 else s.mpypipe.extractLsb' 0 1 ++ BitVec.ofBool i.iStb
      rSgn := s.rSgn.extractLsb' 0 1 ++ i.iOp.extractLsb' 0 1
      oHi := nextHi s.oHi i }
  oValid s _ := s.mpypipe.getLsbD 1
  oBusy s := s.mpypipe.getLsbD 0
  oResult s _ := if s.rSgn.getLsbD 1 then s.rSmpyResult else s.rUmpyResult
  oHi s _ := s.oHi

/-- `MPY4CK` -/
def mpy4ck : Multiplier Mpy4ck where
  step s i :=
    { rMpyAInput := flipped (i.iOp.getLsbD 0) i.iA
      rMpyBInput := flipped (i.iOp.getLsbD 0) i.iB
      rMpySigned := i.iOp.getLsbD 0
      mpypipe := if i.iReset then 0 else s.mpypipe.extractLsb' 0 2 ++ BitVec.ofBool i.iStb
      oHi := nextHi s.oHi i
      ppF := (s.rMpyAInput.extractLsb' 16 16).setWidth 32
        * (s.rMpyBInput.extractLsb' 16 16).setWidth 32
      ppOi := (s.rMpyAInput.extractLsb' 16 16).setWidth 33
          * (s.rMpyBInput.extractLsb' 0 16).setWidth 33
        + (s.rMpyAInput.extractLsb' 0 16).setWidth 33
          * (s.rMpyBInput.extractLsb' 16 16).setWidth 33
      ppL := (s.rMpyAInput.extractLsb' 0 16).setWidth 32
        * (s.rMpyBInput.extractLsb' 0 16).setWidth 32
      ppS := if s.rMpySigned then
          0x80000000 - (s.rMpyAInput.setWidth 33 + s.rMpyBInput.setWidth 33)
        else 0
      rMpyResult := ((s.ppL.extractLsb' 16 16).setWidth 48 + s.ppOi.setWidth 48
        + (s.ppS ++ 0#15) + (s.ppF ++ 0#16)) ++ s.ppL.extractLsb' 0 16 }
  oValid s _ := s.mpypipe.getLsbD 2
  oBusy s := s.mpypipe.getLsbD 0 || s.mpypipe.getLsbD 1
  oResult s _ := s.rMpyResult
  oHi s _ := s.oHi

/-- What the slow multiplier is given: the factors below their sign, which is none for
unsigned factors. -/
def slowmpyInput (i : MpyopInput) : SlowmpyInput 33 where
  iReset := i.iReset
  iStb := i.iStb
  iA := BitVec.ofBool (i.iOp.getLsbD 0 && i.iA.getLsbD 31) ++ i.iA
  iB := BitVec.ofBool (i.iOp.getLsbD 0 && i.iB.getLsbD 31) ++ i.iB
  iAux := false

/-- `MPYSLOW` -/
def mpyslow : Multiplier Mpyslow where
  step s i :=
    { slowmpyi := s.slowmpyi.step true (slowmpyInput i)
      oHi := nextHi s.oHi i }
  oValid s _ := s.slowmpyi.oDone
  oBusy s := s.slowmpyi.oBusy
  oResult s _ := s.slowmpyi.oP.extractLsb' 0 64
  oHi s _ := s.oHi

end Source

end Mpyop

/-- The registers of `mpyop`, which depend on `IMPLEMENT_MPY`. -/
def Mpyop : ℕ → Type
  | 0 => Unit
  | 1 => Unit
  | 2 => Mpy2ck
  | 3 => Mpy3ck
  | 4 => Mpy4ck
  | _ + 5 => Mpyslow

/-- `mpyop` -/
def mpyop : (implementMpy : ℕ) → Multiplier (Mpyop implementMpy)
  | 0 => Mpyop.mpynone
  | 1 => Mpyop.mpy1ck
  | 2 => Mpyop.mpy2ck
  | 3 => Mpyop.mpy3ck
  | 4 => Mpyop.mpy4ck
  | _ + 5 => Mpyop.mpyslow

/-- The number of clocks from the factors to the product. -/
def Mpyop.clocks : ℕ → ℕ
  | 0 => 0
  | 1 => 0
  | 2 => 1
  | 3 => 2
  | 4 => 3
  | _ + 5 => 35

/-- The registers of `mpyop` with an initial value at power up; the others are arbitrary. -/
def Mpyop.Initial : (implementMpy : ℕ) → Mpyop implementMpy → Prop
  | 0, _ => True
  | 1, _ => True
  | 2, s => Mpy2ck.mpypipe s = false
  | 3, s => Mpy3ck.mpypipe s = 0
  | 4, s => Mpy4ck.mpypipe s = 0
  | _ + 5, s => (Mpyslow.slowmpyi s).Initial

namespace Mpyop

/-! ### Products -/

/-- A factor, read as a signed or as an unsigned number. -/
def factor (signed : Bool) (x : BitVec 32) : ℤ := if signed then x.toInt else x.toNat

/-- The product of a multiplication. -/
def product (op : MpyopInput) : BitVec 64 :=
  BitVec.ofInt 64 (factor (op.iOp.getLsbD 0) op.iA * factor (op.iOp.getLsbD 0) op.iB)

theorem extended_eq (signed : Bool) (x : BitVec 32) :
  extended signed x = BitVec.ofInt 64 (factor signed x)
  := by
  rw [extended, factor]
  cases signed with
  | false =>
      have hzero : (0#32).toNat = 0 := rfl
      apply BitVec.eq_of_toNat_eq
      rw [Bool.and_false, if_neg Bool.false_ne_true, BitVec.ofInt_natCast]
      change (0#32 ++ x).toNat = _
      rw [toNat_append, hzero, BitVec.toNat_ofNat]
      omega
  | true =>
      rw [Bool.and_true, if_pos rfl]
      change _ = x.signExtend 64
      ext i hi
      rw [BitVec.getElem_append, BitVec.getElem_signExtend]
      split_ifs with h
      · rfl
      · rw [BitVec.getElem_signExtend]
        simp [BitVec.msb_eq_getLsbD_last]

theorem toNat_flipped (signed : Bool) (x : BitVec 32) :
  ((flipped signed x).toNat : ℤ) = factor signed x + if signed then 2 ^ 31 else 0
  := by
  have hlt := x.isLt
  rw [flipped, factor]
  cases signed with
  | false => simp
  | true =>
      rw [if_pos rfl, if_pos rfl, if_pos rfl, Slowmpy.toNat_cons, toNat_extract_low,
        BitVec.toInt_eq_toNat_cond, BitVec.getLsbD, Nat.testBit_eq_decide_div_mod_eq]
      split_ifs with h
      · rw [decide_eq_false (by omega)]
        simp only [Bool.not_false, Bool.toNat_true]
        omega
      · rw [decide_eq_true (by omega)]
        simp only [Bool.not_true, Bool.toNat_false]
        omega

/-- The registers hold the products of the halves of `a` and `b` and, for signed factors, what
is to be taken off for the flipped sign bits. -/
structure PartialProducts (signed : Bool) (a b : BitVec 32) (s : Mpy4ck) : Prop where
  ppF : s.ppF.toNat = a.toNat / 2 ^ 16 * (b.toNat / 2 ^ 16)
  ppOi : s.ppOi.toNat = a.toNat / 2 ^ 16 * (b.toNat % 2 ^ 16)
    + a.toNat % 2 ^ 16 * (b.toNat / 2 ^ 16)
  ppL : s.ppL.toNat = a.toNat % 2 ^ 16 * (b.toNat % 2 ^ 16)
  ppS : (s.ppS.toNat : ℤ) = (if signed then 2 ^ 31 - (a.toNat + b.toNat : ℤ) else 0) % 2 ^ 33

theorem halves_mul_lt {x y : ℕ} (hx : x < 2 ^ 16) (hy : y < 2 ^ 16) :
  x * y ≤ (2 ^ 16 - 1) * (2 ^ 16 - 1)
  := Nat.mul_le_mul (Nat.le_pred_of_lt hx) (Nat.le_pred_of_lt hy)

theorem partialProducts_step (s : Mpy4ck) (i : MpyopInput) :
  PartialProducts s.rMpySigned s.rMpyAInput s.rMpyBInput (mpy4ck.step s i)
  := by
  have hA := s.rMpyAInput.isLt
  have hB := s.rMpyBInput.isLt
  have hhigh : ∀ x : BitVec 32, (x.extractLsb' 16 16).toNat = x.toNat / 2 ^ 16 := by
    intro x
    apply toNat_extract_high x rfl
  have hhighA : s.rMpyAInput.toNat / 2 ^ 16 < 2 ^ 16 := by omega
  have hhighB : s.rMpyBInput.toNat / 2 ^ 16 < 2 ^ 16 := by omega
  have hlowA := Nat.mod_lt s.rMpyAInput.toNat (Nat.two_pow_pos 16)
  have hlowB := Nat.mod_lt s.rMpyBInput.toNat (Nat.two_pow_pos 16)
  constructor
  · have hF := halves_mul_lt hhighA hhighB
    simp only [mpy4ck, BitVec.toNat_mul, BitVec.toNat_setWidth, hhigh]
    simp (disch := omega) only [Nat.mod_eq_of_lt]
  · have hO := halves_mul_lt hhighA hlowB
    have hI := halves_mul_lt hlowA hhighB
    simp only [mpy4ck, BitVec.toNat_add, BitVec.toNat_mul, BitVec.toNat_setWidth, hhigh,
      toNat_extract_low]
    rw [Nat.mod_eq_of_lt (a := s.rMpyAInput.toNat / 2 ^ 16) (b := 2 ^ 33) (by omega)]
    simp (disch := omega) only [Nat.mod_eq_of_lt]
  · have hL := halves_mul_lt hlowA hlowB
    simp only [mpy4ck, BitVec.toNat_mul, BitVec.toNat_setWidth, toNat_extract_low]
    simp (disch := omega) only [Nat.mod_eq_of_lt]
  · simp only [mpy4ck]
    cases s.rMpySigned with
    | false => rfl
    | true =>
        rw [if_pos rfl, if_pos rfl, BitVec.toNat_sub, BitVec.toNat_add, BitVec.toNat_setWidth,
          BitVec.toNat_setWidth]
        have h8 : (0x80000000 : BitVec 33).toNat = 2 ^ 31 := rfl
        rw [h8]
        omega

/-- The partial products of the factors with flipped signs add up to the product. -/
theorem PartialProducts.step {s : Mpy4ck} {i op : MpyopInput}
    (h : PartialProducts (op.iOp.getLsbD 0) (flipped (op.iOp.getLsbD 0) op.iA)
      (flipped (op.iOp.getLsbD 0) op.iB) s) :
  (mpy4ck.step s i).rMpyResult = product op
  := by
  have hF := h.ppF
  have hOi := h.ppOi
  have hL := h.ppL
  have hS := h.ppS
  have hA := toNat_flipped (op.iOp.getLsbD 0) op.iA
  have hB := toNat_flipped (op.iOp.getLsbD 0) op.iB
  generalize (flipped (op.iOp.getLsbD 0) op.iA).toNat = a at *
  generalize (flipped (op.iOp.getLsbD 0) op.iB).toNat = b at *
  have hresult : (mpy4ck.step s i).rMpyResult.toNat
      = 2 ^ 16 * ((s.ppL.toNat / 2 ^ 16 + s.ppOi.toNat + 2 ^ 15 * s.ppS.toNat
        + 2 ^ 16 * s.ppF.toNat) % 2 ^ 48) + s.ppL.toNat % 2 ^ 16 := by
    have h15 : (0#15).toNat = 0 := rfl
    have h16 : (0#16).toNat = 0 := rfl
    have := s.ppL.isLt
    have := s.ppOi.isLt
    simp only [mpy4ck]
    rw [toNat_append, toNat_extract_low, BitVec.toNat_add, BitVec.toNat_add, BitVec.toNat_add,
      toNat_append, toNat_append, h15, h16, BitVec.toNat_setWidth, BitVec.toNat_setWidth,
      toNat_extract_high s.ppL rfl]
    omega
  -- The factors by their halves.
  have hproduct : (a : ℤ) * b = 2 ^ 32 * (a / 2 ^ 16 * (b / 2 ^ 16) : ℕ)
      + 2 ^ 16 * (a / 2 ^ 16 * (b % 2 ^ 16) + a % 2 ^ 16 * (b / 2 ^ 16) : ℕ)
      + (a % 2 ^ 16 * (b % 2 ^ 16) : ℕ) := by
    have hasplit : (a : ℤ) = 2 ^ 16 * (a / 2 ^ 16 : ℕ) + (a % 2 ^ 16 : ℕ) := by omega
    have hbsplit : (b : ℤ) = 2 ^ 16 * (b / 2 ^ 16 : ℕ) + (b % 2 ^ 16 : ℕ) := by omega
    generalize a / 2 ^ 16 = ah at *
    generalize a % 2 ^ 16 = al at *
    generalize b / 2 ^ 16 = bh at *
    generalize b % 2 ^ 16 = bl at *
    rw [hasplit, hbsplit]
    push_cast
    ring
  rw [← hF, ← hOi, ← hL] at hproduct
  apply BitVec.eq_of_toNat_eq
  rw [hresult, product, BitVec.toNat_ofInt]
  cases hsigned : op.iOp.getLsbD 0 with
  | false =>
      rw [hsigned, if_neg Bool.false_ne_true] at hA hB hS
      rw [Int.add_zero] at hA hB
      rw [← hA, ← hB, hproduct]
      omega
  | true =>
      rw [hsigned, if_pos rfl] at hA hB hS
      have hshift : factor true op.iA * factor true op.iB
          = (a : ℤ) * b + 2 ^ 31 * (2 ^ 31 - (a + b)) := by
        rw [hA, hB]
        ring
      rw [hshift, hproduct]
      omega

end Mpyop

/-! ### When the product is there -/

/-- The inputs of a clock at which no multiplication is asked for. -/
def MpyopInput.quiet : MpyopInput := ⟨false, false, 0, 0, 0⟩

namespace Multiplier

variable {σ : Type}

/-- A multiplier, seen from outside. -/
def interface (mul : Multiplier σ) : Interface σ MpyopInput where
  step := mul.step
  reset := MpyopInput.iReset
  asks _ i := i.iStb
  busy := mul.oBusy
  valid s := mul.oValid s .quiet

/-- A multiplier that works on one multiplication at a time and has the product, of which it
shows which half was asked for, a number of clocks after the factors. -/
structure Delivers (mul : Multiplier σ) (clocks : ℕ) (Idle Ready : σ → Prop)
    (Stage : MpyopInput → ℕ → σ → Prop) : Prop
    extends OneAtATime mul.interface (fun _ => clocks) Idle Ready Stage where
  oValid : ∀ s i, mul.oValid s i = mul.oValid s .quiet
  oResult : ∀ op s i, Stage op clocks s → mul.oResult s i = Mpyop.product op
  oHi : ∀ op s i, Stage op clocks s → mul.oHi s i = op.iOp.getLsbD 1

/-- A multiplier that moves a multiplication along a pipe of one bit for each clock. -/
structure Pipelined (mul : Multiplier σ) (clocks : ℕ) (pipe : σ → ℕ)
    (Holds : MpyopInput → ℕ → σ → Prop) : Prop where
  pos : 0 < clocks
  pipe_reset : ∀ s i, i.iReset = true → pipe (mul.step s i) = 0
  pipe_step : ∀ s i, i.iReset = false →
    pipe (mul.step s i) = (2 * pipe s + i.iStb.toNat) % 2 ^ clocks
  oBusy : ∀ s, mul.oBusy s = true ↔ pipe s % 2 ^ (clocks - 1) ≠ 0
  oValid : ∀ s i, mul.oValid s i = true ↔ 2 ^ (clocks - 1) ≤ pipe s
  take : ∀ s i, i.iStb = true → Holds i 1 (mul.step s i)
  work : ∀ op k s i, Holds op k s → k < clocks → i.iStb = false → Holds op (k + 1) (mul.step s i)
  oResult : ∀ op s i, Holds op clocks s → mul.oResult s i = Mpyop.product op
  oHi : ∀ op s i, Holds op clocks s → mul.oHi s i = op.iOp.getLsbD 1

/-- A multiplication that has come to bit `k - 1` of the pipe. -/
structure InPipe (pipe : σ → ℕ) (clocks : ℕ) (Holds : MpyopInput → ℕ → σ → Prop)
    (op : MpyopInput) (k : ℕ) (s : σ) : Prop where
  pos : 0 < k
  le : k ≤ clocks
  pipe : pipe s = 2 ^ (k - 1)
  holds : Holds op k s

variable {mul : Multiplier σ} {clocks : ℕ} {pipe : σ → ℕ} {Holds : MpyopInput → ℕ → σ → Prop}

theorem Pipelined.delivers (h : Pipelined mul clocks pipe Holds) :
  Delivers mul clocks (fun s => pipe s = 0) (fun s => pipe s % 2 ^ (clocks - 1) = 0)
    (InPipe pipe clocks Holds)
  := by
  have hdouble : 2 ^ clocks = 2 * 2 ^ (clocks - 1) := (mul_pow_sub_one h.pos.ne' 2).symm
  have hpos := Nat.two_pow_pos (clocks - 1)
  constructor
  case toOneAtATime =>
    constructor
    case pos =>
      intro _
      apply h.pos
    case ready_of_idle =>
      intro s hidle
      rw [hidle, Nat.zero_mod]
    case ready_of_last =>
      intro op s hstage
      rw [hstage.pipe, Nat.mod_self]
    case busy_of_ready =>
      intro s hready
      rw [← Bool.not_eq_true]
      intro hbusy
      apply (h.oBusy s).mp hbusy hready
    case busy_of_stage =>
      intro op k s hstage hk
      have hk₀ := hstage.pos
      have hlt : 2 ^ (k - 1) < 2 ^ (clocks - 1) := Nat.pow_lt_pow_right Nat.one_lt_two (by omega)
      apply (h.oBusy s).mpr
      rw [hstage.pipe, Nat.mod_eq_of_lt hlt]
      apply (Nat.two_pow_pos _).ne'
    case valid_of_idle =>
      intro s hidle
      rw [← Bool.not_eq_true]
      intro hvalid
      have := (h.oValid s .quiet).mp hvalid
      omega
    case valid_of_stage =>
      intro op k s hstage
      have hk₀ := hstage.pos
      have hle := hstage.le
      have hpow : 2 ^ (clocks - 1) ≤ 2 ^ (k - 1) ↔ clocks - 1 ≤ k - 1 :=
        Nat.pow_le_pow_iff_right Nat.one_lt_two
      change mul.oValid s .quiet = true ↔ _
      rw [h.oValid, hstage.pipe, hpow]
      omega
    case idle_of_reset =>
      intro s i hreset
      apply h.pipe_reset s i hreset
    case idle =>
      intro s i hready hreset hasks
      change i.iStb = false at hasks
      change pipe (mul.step s i) = 0
      rw [h.pipe_step s i hreset, hasks, hdouble, Bool.toNat_false, Nat.add_zero,
        Nat.mul_mod_mul_left, hready]
    case take =>
      intro s i hready hreset hasks
      change i.iStb = true at hasks
      constructor
      · apply Nat.one_pos
      · apply h.pos
      · change pipe (mul.step s i) = 2 ^ 0
        have hmultiple := Nat.mul_div_cancel' (Nat.dvd_of_mod_eq_zero hready)
        rw [h.pipe_step s i hreset, hasks, hdouble, Bool.toNat_true, ← hmultiple, ← Nat.mul_assoc,
          Nat.mul_add_mod, Nat.mod_eq_of_lt (by omega), Nat.pow_zero]
      · apply h.take s i hasks
    case work =>
      intro op k s i hstage hk hreset hasks
      change i.iStb = false at hasks
      have hk₀ := hstage.pos
      constructor
      · omega
      · apply hk
      · change pipe (mul.step s i) = 2 ^ k
        have hlt : 2 ^ k < 2 ^ clocks := Nat.pow_lt_pow_right Nat.one_lt_two hk
        rw [h.pipe_step s i hreset, hasks, hstage.pipe, mul_pow_sub_one hk₀.ne', Bool.toNat_false,
          Nat.add_zero, Nat.mod_eq_of_lt hlt]
      · apply h.work op k s i hstage.holds hk hasks
  case oValid =>
    intro s i
    rw [Bool.eq_iff_iff, h.oValid, h.oValid]
  case oResult =>
    intro op s i hstage
    apply h.oResult op s i hstage.holds
  case oHi =>
    intro op s i hstage
    apply h.oHi op s i hstage.holds

end Multiplier

namespace Mpyop

/-- What is held of a multiplication at each clock by `MPY2CK`. -/
inductive Mpy2ck.Holds (op : MpyopInput) : ℕ → Mpy2ck → Prop
  | factors {s : Mpy2ck} (rMpyAInput : s.rMpyAInput = extended (op.iOp.getLsbD 0) op.iA)
      (rMpyBInput : s.rMpyBInput = extended (op.iOp.getLsbD 0) op.iB)
      (oHi : s.oHi = op.iOp.getLsbD 1) : Holds op 1 s

/-- What is held of a multiplication at each clock by `MPY3CK`. -/
inductive Mpy3ck.Holds (op : MpyopInput) : ℕ → Mpy3ck → Prop
  | factors {s : Mpy3ck} (rMpyAInput : s.rMpyAInput = op.iA) (rMpyBInput : s.rMpyBInput = op.iB)
      (rSgn : s.rSgn.getLsbD 0 = op.iOp.getLsbD 0) (oHi : s.oHi = op.iOp.getLsbD 1) :
      Holds op 1 s
  | products {s : Mpy3ck} (result : mpy3ck.oResult s .quiet = product op)
      (oHi : s.oHi = op.iOp.getLsbD 1) : Holds op 2 s

/-- What is held of a multiplication at each clock by `MPY4CK`. -/
inductive Mpy4ck.Holds (op : MpyopInput) : ℕ → Mpy4ck → Prop
  | factors {s : Mpy4ck} (rMpyAInput : s.rMpyAInput = flipped (op.iOp.getLsbD 0) op.iA)
      (rMpyBInput : s.rMpyBInput = flipped (op.iOp.getLsbD 0) op.iB)
      (rMpySigned : s.rMpySigned = op.iOp.getLsbD 0) (oHi : s.oHi = op.iOp.getLsbD 1) :
      Holds op 1 s
  | halves {s : Mpy4ck} (products : PartialProducts (op.iOp.getLsbD 0)
        (flipped (op.iOp.getLsbD 0) op.iA) (flipped (op.iOp.getLsbD 0) op.iB) s)
      (oHi : s.oHi = op.iOp.getLsbD 1) : Holds op 2 s
  | sum {s : Mpy4ck} (rMpyResult : s.rMpyResult = product op)
      (oHi : s.oHi = op.iOp.getLsbD 1) : Holds op 3 s

theorem nextHi_keep {oHi : Bool} {i : MpyopInput} (h : i.iStb = false) :
  nextHi oHi i = oHi
  := by rw [nextHi, h, if_neg Bool.false_ne_true]

theorem nextHi_take {oHi : Bool} {i : MpyopInput} (h : i.iStb = true) :
  nextHi oHi i = i.iOp.getLsbD 1
  := by rw [nextHi, h, if_pos rfl]

theorem mpy2ck_pipelined :
  mpy2ck.Pipelined 1 (fun s => s.mpypipe.toNat) Mpy2ck.Holds
  := by
  constructor
  case pos => apply Nat.one_pos
  case pipe_reset =>
    intro s i hreset
    simp [mpy2ck, hreset]
  case pipe_step =>
    intro s i hreset
    cases hstb : i.iStb <;> simp [mpy2ck, hreset, hstb]
  case oBusy =>
    intro s
    simp [mpy2ck, Nat.mod_one]
  case oValid =>
    intro s i
    cases hpipe : s.mpypipe <;> simp [mpy2ck, hpipe]
  case take =>
    intro s i hstb
    apply Mpy2ck.Holds.factors rfl rfl (nextHi_take hstb)
  case work =>
    intro op k s i hholds hk _
    cases hholds with
    | factors => contradiction
  case oResult =>
    intro op s i hholds
    cases hholds with
    | factors hA hB _ =>
        simp only [mpy2ck]
        rw [hA, hB, extended_eq, extended_eq, ← BitVec.ofInt_mul, product]
  case oHi =>
    intro op s i hholds
    cases hholds with
    | factors _ _ hHi => apply hHi

theorem mpy3ck_pipelined :
  mpy3ck.Pipelined 2 (fun s => s.mpypipe.toNat) Mpy3ck.Holds
  := by
  constructor
  case pos => apply Nat.two_pos
  case pipe_reset =>
    intro s i hreset
    simp [mpy3ck, hreset]
  case pipe_step =>
    intro s i hreset
    simp only [mpy3ck, hreset, Bool.false_eq_true, if_false]
    rw [toNat_append, toNat_extract_low, BitVec.toNat_ofBool]
    have := Bool.toNat_lt i.iStb
    omega
  case oBusy =>
    intro s
    simp only [mpy3ck]
    rw [BitVec.getLsbD, Nat.testBit_zero, decide_eq_true_iff]
    omega
  case oValid =>
    intro s i
    have := s.mpypipe.isLt
    simp only [mpy3ck]
    rw [BitVec.getLsbD, Nat.testBit_eq_decide_div_mod_eq, decide_eq_true_iff]
    omega
  case take =>
    intro s i hstb
    apply Mpy3ck.Holds.factors rfl rfl _ (nextHi_take hstb)
    simp only [mpy3ck, BitVec.getLsbD_append, BitVec.getLsbD_extractLsb']
    simp
  case work =>
    intro op k s i hholds hk hstb
    cases hholds with
    | factors hA hB hsgn hHi =>
        apply Mpy3ck.Holds.products _ ((nextHi_keep hstb).trans hHi)
        have hnext : (mpy3ck.step s i).rSgn.getLsbD 1 = op.iOp.getLsbD 0 := by
          rw [← hsgn]
          simp only [mpy3ck, BitVec.getLsbD_append, BitVec.getLsbD_extractLsb']
          simp
        change (if (mpy3ck.step s i).rSgn.getLsbD 1 then (mpy3ck.step s i).rSmpyResult
          else (mpy3ck.step s i).rUmpyResult) = _
        rw [hnext, product]
        cases op.iOp.getLsbD 0 with
        | false =>
            rw [if_neg Bool.false_ne_true, factor, factor, if_neg Bool.false_ne_true,
              if_neg Bool.false_ne_true, BitVec.ofInt_mul, BitVec.ofInt_natCast,
              BitVec.ofInt_natCast, BitVec.ofNat_toNat, BitVec.ofNat_toNat, ← hA, ← hB]
            rfl
        | true =>
            rw [if_pos rfl, factor, factor, if_pos rfl, if_pos rfl, BitVec.ofInt_mul, ← hA, ← hB]
            rfl
    | products => contradiction
  case oResult =>
    intro op s i hholds
    cases hholds with
    | products hresult _ => apply hresult
  case oHi =>
    intro op s i hholds
    cases hholds with
    | products _ hHi => apply hHi

theorem mpy4ck_pipelined :
  mpy4ck.Pipelined 3 (fun s => s.mpypipe.toNat) Mpy4ck.Holds
  := by
  constructor
  case pos => apply Nat.succ_pos
  case pipe_reset =>
    intro s i hreset
    simp [mpy4ck, hreset]
  case pipe_step =>
    intro s i hreset
    simp only [mpy4ck, hreset, Bool.false_eq_true, if_false]
    rw [toNat_append, toNat_extract_low, BitVec.toNat_ofBool]
    have := Bool.toNat_lt i.iStb
    omega
  case oBusy =>
    intro s
    simp only [mpy4ck]
    rw [Bool.or_eq_true, BitVec.getLsbD, BitVec.getLsbD, Nat.testBit_zero, decide_eq_true_iff,
      Nat.testBit_eq_decide_div_mod_eq, decide_eq_true_iff]
    omega
  case oValid =>
    intro s i
    have := s.mpypipe.isLt
    simp only [mpy4ck]
    rw [BitVec.getLsbD, Nat.testBit_eq_decide_div_mod_eq, decide_eq_true_iff]
    omega
  case take =>
    intro s i hstb
    apply Mpy4ck.Holds.factors rfl rfl rfl (nextHi_take hstb)
  case work =>
    intro op k s i hholds hk hstb
    cases hholds with
    | factors hA hB hsigned hHi =>
        apply Mpy4ck.Holds.halves _ ((nextHi_keep hstb).trans hHi)
        rw [← hA, ← hB, ← hsigned]
        apply partialProducts_step
    | halves hproducts hHi =>
        apply Mpy4ck.Holds.sum hproducts.step ((nextHi_keep hstb).trans hHi)
    | sum => contradiction
  case oResult =>
    intro op s i hholds
    cases hholds with
    | sum hresult _ => apply hresult
  case oHi =>
    intro op s i hholds
    cases hholds with
    | sum _ hHi => apply hHi

/-- The slow multiplier is at a stage of a multiplication. -/
structure Mpyslow.Stage (op : MpyopInput) (k : ℕ) (s : Mpyslow) : Prop where
  slowmpyi : Slowmpy.Stage true (slowmpyInput op) k s.slowmpyi
  oHi : s.oHi = op.iOp.getLsbD 1

theorem toInt_slowmpyInput (signed : Bool) (x : BitVec 32) :
  (BitVec.ofBool (signed && x.getLsbD 31) ++ x).toInt = factor signed x
  := by
  have hlt := x.isLt
  rw [BitVec.toInt_eq_toNat_cond, Slowmpy.toNat_cons, factor, BitVec.toInt_eq_toNat_cond,
    Cpuops.getLsbD_top]
  cases signed with
  | false =>
      rw [Bool.false_and, Bool.toNat_false, if_neg Bool.false_ne_true, if_pos (by omega)]
      omega
  | true =>
      rw [Bool.true_and, if_pos rfl]
      rcases Nat.lt_or_ge x.toNat (2 ^ 31) with h | h
      · rw [decide_eq_false (by omega), Bool.toNat_false, if_pos (by omega), if_pos (by omega)]
        omega
      · rw [decide_eq_true h, Bool.toNat_true, if_neg (by omega), if_neg (by omega)]
        omega

theorem mpyslow_delivers :
  mpyslow.Delivers 35 (fun s => s.slowmpyi.Idle) (fun s => s.slowmpyi.oBusy = false)
    Mpyslow.Stage
  := by
  have hslow : OneAtATime (Slowmpy.interface true 6 33) (fun _ => 35) Slowmpy.Idle
      (fun s => s.oBusy = false) (Slowmpy.Stage true) :=
    Slowmpy.oneAtATime (by omega) (by omega)
  constructor
  case toOneAtATime =>
    constructor
    case pos =>
      intro op
      apply hslow.pos (slowmpyInput op)
    case ready_of_idle =>
      intro s h
      apply hslow.ready_of_idle _ h
    case ready_of_last =>
      intro op s h
      apply hslow.ready_of_last _ _ h.slowmpyi
    case busy_of_ready =>
      intro s h
      apply hslow.busy_of_ready _ h
    case busy_of_stage =>
      intro op k s h hk
      apply hslow.busy_of_stage _ _ _ h.slowmpyi hk
    case valid_of_idle =>
      intro s h
      apply hslow.valid_of_idle _ h
    case valid_of_stage =>
      intro op k s h
      apply hslow.valid_of_stage _ _ _ h.slowmpyi
    case idle_of_reset =>
      intro s i hreset
      apply hslow.idle_of_reset _ (slowmpyInput i) hreset
    case idle =>
      intro s i hready hreset hasks
      change i.iStb = false at hasks
      apply hslow.idle _ (slowmpyInput i) hready hreset
      simp [Slowmpy.interface, slowmpyInput, hasks]
    case take =>
      intro s i hready hreset hasks
      change i.iStb = true at hasks
      constructor
      · apply hslow.take _ (slowmpyInput i) hready hreset
        simp [Slowmpy.interface, slowmpyInput, hasks, hready]
      · apply nextHi_take hasks
    case work =>
      intro op k s i h hk hreset hasks
      change i.iStb = false at hasks
      constructor
      · apply hslow.work _ _ _ (slowmpyInput i) h.slowmpyi hk hreset
        simp [Slowmpy.interface, slowmpyInput, hasks]
      · apply (nextHi_keep hasks).trans h.oHi
  case oValid =>
    intro s i
    rfl
  case oResult =>
    intro op s i h
    rcases h.slowmpyi.busy_or_done with ⟨hlt, -⟩ | ⟨-, hdone⟩
    · omega
    · have hproduct := hdone.signed rfl
      change s.slowmpyi.oP.toInt = (BitVec.ofBool (op.iOp.getLsbD 0 && op.iA.getLsbD 31)
        ++ op.iA).toInt * (BitVec.ofBool (op.iOp.getLsbD 0 && op.iB.getLsbD 31)
        ++ op.iB).toInt at hproduct
      rw [toInt_slowmpyInput, toInt_slowmpyInput] at hproduct
      change s.slowmpyi.oP.extractLsb' 0 64 = _
      rw [product, ← hproduct]
      apply BitVec.eq_of_toNat_eq
      have hlt := s.slowmpyi.oP.isLt
      rw [toNat_extract_low, BitVec.toNat_ofInt, BitVec.toInt_eq_toNat_cond]
      split_ifs <;> omega
  case oHi =>
    intro op s i h
    apply h.oHi

end Mpyop

end ZBasic
