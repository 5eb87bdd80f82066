import Mathlib.Tactic.SplitIfs
import ZBasic.Clocked.Bits
import ZBasic.Clocked.Run
import ZBasic.Cpu.Idecode

/-!
# Accesses to memory back to back

`o_pipe` marks an access to memory that may be issued right behind the one before. What has to hold
between the two is compared as the second is decoded, with the registers of the first; these belong
to the last instruction that was issued.
-/

namespace ZBasic

open Clocked

namespace Idecode

/-- The second of two accesses to memory may be issued right behind the first. -/
structure BackToBack (first second : Issue) : Prop where
  memory : first.oM = true ∧ second.oM = true
  direction : first.oOp.getLsbD 0 = second.oOp.getLsbD 0
  baseRead : first.oRB = true ∧ second.oRB = true
  base : first.oDcdB.extractLsb' 0 5 = second.oDcdB.extractLsb' 0 5
  condition : first.oCond = second.oCond ∨ first.oCond = 0x8
  baseHigh : first.oDcdB.extractLsb' 1 3 ≠ 0x7
  loadTarget : first.oOp.getLsbD 0 = false →
    first.oDcdR.extractLsb' 0 5 ≠ first.oDcdB.extractLsb' 0 5
  targetHigh : first.oDcdR.extractLsb' 1 3 ≠ 0x7
  offset : first.oI.toInt ≤ second.oI.toInt ∧ second.oI.toInt ≤ first.oI.toInt + 4

/-! ### Offsets -/

/-- A number of 14 bits with its sign. -/
def Short (x : BitVec 23) : Prop := x = (x.extractLsb' 0 14).signExtend 23

theorem short_signExtend (x : BitVec 14) :
  Short (x.signExtend 23)
  := by
  rw [Short]
  congr 1
  ext i hi
  rw [BitVec.getElem_extractLsb', BitVec.getLsbD_signExtend]
  simp [hi, show i < 23 by omega]

theorem short_byte (x : BitVec 8) :
  Short (x.signExtend 23)
  := by
  rw [Short]
  revert x
  decide

theorem oI_eq (x : Issue) :
  x.oI = x.rI.signExtend 32
  := by
  rw [Issue.oI]
  ext i hi
  rw [BitVec.getElem_append, BitVec.getElem_signExtend]
  split_ifs with hlow hin
  · simp [BitVec.getElem_extractLsb', BitVec.getLsbD_eq_getElem hin]
  · omega
  · obtain rfl : i = 22 := by omega
    simp [BitVec.getElem_signExtend]
  · simp [BitVec.getElem_signExtend, BitVec.msb_eq_getLsbD_last]

theorem toInt_oI {x : Issue} (h : Short x.rI) :
  x.oI.toInt = (x.rI.extractLsb' 0 14).toInt
  := by
  rw [oI_eq, BitVec.toInt_signExtend_of_le (by decide), h,
    BitVec.toInt_signExtend_of_le (by decide), ← h]

/-- Where the signs agree a difference of 14 bits is the difference of the numbers. -/
theorem toInt_close {x y : BitVec 14} (hsign : y.getLsbD 13 = x.getLsbD 13)
    (hdiff : y - x ≤ 0x4) :
  x.toInt ≤ y.toInt ∧ y.toInt ≤ x.toInt + 4
  := by
  have hx := x.isLt
  have hy := y.isLt
  have hmsb : y.msb = x.msb := by
    rw [BitVec.msb_eq_getLsbD_last, BitVec.msb_eq_getLsbD_last]
    apply hsign
  have hxsign := BitVec.msb_eq_decide x
  have hysign := BitVec.msb_eq_decide y
  rw [BitVec.le_def, BitVec.toNat_sub] at hdiff
  change _ ≤ 4 at hdiff
  rw [BitVec.toInt_eq_msb_cond, BitVec.toInt_eq_msb_cond, hmsb]
  rw [hmsb] at hysign
  cases hneg : x.msb with
  | true =>
      rw [hneg] at hxsign hysign
      have hlarge := of_decide_eq_true hxsign.symm
      have hlarge' := of_decide_eq_true hysign.symm
      simp only [if_true]
      omega
  | false =>
      rw [hneg] at hxsign hysign
      have hsmall := of_decide_eq_false hxsign.symm
      have hsmall' := of_decide_eq_false hysign.symm
      simp only [Bool.false_eq_true, if_false]
      omega

/-! ### What is decoded -/

section Decode

variable {c : Config} {gie : Bool} {w : BitVec 32}

/-- Without compressed instructions the bit for them is cleared. -/
def Cleared (c : Config) (w : BitVec 32) : Prop := c.optCis = false → w.getLsbD cisBit = false

theorem mem_cases (op : BitVec 5)
    (h : (decide (op.extractLsb' 3 2 = 0b10) && decide (op.extractLsb' 1 2 ≠ 0b00)) = true) :
  op ≠ 0x0d ∧ op.extractLsb' 1 4 ≠ 0xc ∧ op.extractLsb' 2 3 ≠ 0b111 ∧ op.extractLsb' 1 4 ≠ 0xf
  := by
  revert op
  decide

/-- An access to memory is no other instruction. -/
theorem only_mem (hmem : wMem c w = true) :
  wMov c w = false ∧ wLdi c w = false ∧ wSpecial c w = false
  := by
  obtain ⟨hmov, hldi, hspecial, -⟩ := mem_cases _ hmem
  refine ⟨decide_eq_false hmov, decide_eq_false hldi, ?_⟩
  rw [wSpecial]
  cases hcis : w.getLsbD cisBit with
  | true => rfl
  | false =>
      have hop : wCisOp c w = wOp w := by
        rw [wCisOp, hcis, Bool.and_false]
        rfl
      rw [hop] at hspecial
      rw [decide_eq_false hspecial, Bool.and_false]

theorem oOp_decode (hmem : wMem c w = true) :
  (decode c gie w).oOp.getLsbD 0 = (wCisOp c w).getLsbD 0
  := by
  obtain ⟨-, hldi, hspecial⟩ := only_mem hmem
  have hnoop : wNoop c w = false := by rw [wNoop, hspecial, Bool.false_and]
  have hlock : wLock c w = false := by rw [wLock, hspecial, Bool.false_and]
  simp [decode, hldi, hnoop, hlock]

/-- The base register is one of the set in use. -/
theorem wDcdB_eq (hmem : wMem c w = true) :
  wDcdB c gie w = BitVec.ofBool gie ++ (wDcdB c gie w).extractLsb' 0 4
  := by
  obtain ⟨hmov, -⟩ := only_mem hmem
  rw [wDcdB, hmov, extract_append_low _ _ (by decide), extract_all]
  simp

theorem short_decode (hcleared : Cleared c w) (hmem : wMem c w = true) (hbase : wRB c w = true) :
  Short (decode c gie w).rI
  := by
  obtain ⟨hmov, hldi, hspecial⟩ := only_mem hmem
  change Short (wI c w)
  rw [wI]
  cases hcis : w.getLsbD cisBit with
  | true =>
      have hopt : c.optCis = true := by
        by_contra hno
        rw [hcleared (by simpa using hno)] at hcis
        contradiction
      rw [hopt, Bool.and_self, if_pos rfl]
      apply short_byte
  | false =>
      have hsel : w.getLsbD immSel = true := by
        simpa [wRB, hmov, hcis, hldi, hspecial] using hbase
      rw [Bool.and_false, if_neg (by decide), wFullI, hldi, hmov, hsel]
      apply short_signExtend

/-- The highest bit of a condition tells whether there is none. -/
theorem oCond_decode :
  wCond c w = BitVec.ofBool ((wCond c w).extractLsb' 0 3 = 0) ++ (wCond c w).extractLsb' 0 3
  := by
  rw [wCond]
  split_ifs
  · decide
  · rw [extract_append_low _ _ (by decide), extract_all]

end Decode

/-! ### Two accesses -/

section Pair

variable {c : Config} {s : Idecode} {i : Input} {w₁ w₂ : BitVec 32}

/-- What is compared makes the second access one that may follow the first. -/
theorem backToBack (hcleared₁ : Cleared c w₁) (hcleared₂ : Cleared c w₂)
    (hout : s.out = decode c i.iGie w₁) (hword : iword c s i = w₂)
    (hpipeable : pipeable c i.iGie w₁ = true) (hfollows : follows c s i w₂ = true) :
  BackToBack (decode c i.iGie w₁) (decode c i.iGie w₂)
  := by
  simp only [pipeable, Bool.and_eq_true, Bool.or_eq_true, decide_eq_true_eq] at hpipeable
  obtain ⟨⟨⟨⟨hmem₁, hbase₁⟩, hbaseHigh⟩, htargetHigh⟩, htarget⟩ := hpipeable
  simp only [follows, pipeAddrDiff, hword, hout, Bool.and_eq_true, Bool.or_eq_true,
    decide_eq_true_eq] at hfollows
  obtain ⟨⟨⟨⟨⟨⟨⟨-, hmem₂⟩, hop⟩, hbase₂⟩, hsame⟩, hcond⟩, hsign⟩, hdiff⟩ := hfollows
  have hdcdB : ∀ w, (decode c i.iGie w).oDcdB.extractLsb' 0 4 =
      (wDcdB c i.iGie w).extractLsb' 0 4 := by
    intro w
    apply extract_append_low _ _ (by decide)
  have hdcdB' : ∀ w, (decode c i.iGie w).oDcdB.extractLsb' 0 5 = wDcdB c i.iGie w := by
    intro w
    have hall : (wDcdB c i.iGie w).extractLsb' 0 5 = wDcdB c i.iGie w := extract_all _
    rw [← hall]
    apply extract_append_low _ _ (by decide)
  have hdcdR' : ∀ w, (decode c i.iGie w).oDcdR.extractLsb' 0 5 = wDcdR c i.iGie w := by
    intro w
    have hall : (wDcdR c i.iGie w).extractLsb' 0 5 = wDcdR c i.iGie w := extract_all _
    rw [← hall]
    apply extract_append_low _ _ (by decide)
  have hshort₁ : Short (decode c i.iGie w₁).rI := short_decode hcleared₁ hmem₁ hbase₁
  have hshort₂ : Short (decode c i.iGie w₂).rI := short_decode hcleared₂ hmem₂ hbase₂
  constructor
  case memory => exact ⟨hmem₁, hmem₂⟩
  case direction =>
      rw [hop, oOp_decode hmem₂]
  case baseRead => exact ⟨hbase₁, hbase₂⟩
  case base =>
      rw [hdcdB] at hsame
      rw [hdcdB', hdcdB', wDcdB_eq hmem₁, wDcdB_eq hmem₂, hsame]
  case condition =>
      change wCond c w₁ = wCond c w₂ ∨ wCond c w₁ = 0x8
      change (wCond c w₂).extractLsb' 0 3 = (wCond c w₁).extractLsb' 0 3
        ∨ (wCond c w₁).extractLsb' 0 3 = 0x0 at hcond
      rcases hcond with hequal | hnone
      · left
        rw [oCond_decode (w := w₁), oCond_decode (w := w₂), hequal]
      · right
        rw [oCond_decode, hnone]
        decide
  case baseHigh =>
      have hhigh : (decode c i.iGie w₁).oDcdB.extractLsb' 1 3 =
          (wDcdB c i.iGie w₁).extractLsb' 1 3 := extract_append_low _ _ (by decide)
      rw [hhigh]
      apply hbaseHigh
  case loadTarget =>
      intro hload
      rw [oOp_decode hmem₁] at hload
      rw [hdcdR', hdcdB']
      rcases htarget with hstore | hother
      · rw [hload] at hstore
        contradiction
      · apply hother.symm
  case targetHigh =>
      have hhigh : (decode c i.iGie w₁).oDcdR.extractLsb' 1 3 =
          (wDcdR c i.iGie w₁).extractLsb' 1 3 := extract_append_low _ _ (by decide)
      rw [hhigh]
      apply htargetHigh
  case offset =>
      rw [toInt_oI hshort₁, toInt_oI hshort₂]
      apply toInt_close
      · rw [BitVec.getLsbD_extractLsb', BitVec.getLsbD_extractLsb']
        apply congrArg (true && ·) hsign
      · apply hdiff

theorem cleared_iword :
  Cleared c (iword c s i)
  := by
  intro hno
  rw [iword, hno, if_neg (by decide), cisBit, BitVec.getLsbD_append]
  rfl

end Pair

/-! ### Runs -/

section Runs

variable (c : Config) (s₀ : Idecode) (inp : ℕ → Input)

/-- The registers before the clock `t`. -/
def state (t : ℕ) : Idecode := run (step c) s₀ inp t

/-- At this clock an instruction is issued: the registers are loaded, and are valid. -/
def issues (s : Idecode) (i : Input) : Bool :=
  !i.iReset && (i.iCe && ((pfValid c s i || oPhase c s) && !oLjmp c s))

/-- What is issued at the clock `t`. -/
def issuedAt (t : ℕ) : List Issue :=
  if issues c (state c s₀ inp t) (inp t) then [(state c s₀ inp (t + 1)).out] else []

/-- What has been issued before the clock `t`, in order. -/
def issued (t : ℕ) : List Issue := log (issuedAt c s₀ inp) t

/-- Between resets the register set stays the same. -/
def Constant : Prop :=
  ∀ t, (inp t).iReset = false → (inp (t + 1)).iReset = false →
    (inp (t + 1)).iGie = (inp t).iGie

/-- Without a pipeline the decoder is stalled where it is not enabled. -/
def Promised : Prop := c.optPipelined = false → ∀ t, (inp t).iCe = !(inp t).iStalled

/-- The registers before the clock `t`: where a memory operation may follow they are those of the
last instruction that was issued; and where the last instruction is valid and marked it may be
issued right behind the one before. -/
structure Tracked (t : ℕ) : Prop where
  pipeable : (state c s₀ inp t).rInsnIsPipeable = true →
    ∃ u w l, t = u + 1 ∧ (inp u).iReset = false
      ∧ (state c s₀ inp t).out = decode c (inp u).iGie w ∧ Cleared c w
      ∧ Idecode.pipeable c (inp u).iGie w = true
      ∧ issued c s₀ inp t = l ++ [(state c s₀ inp t).out]
  pipe : (state c s₀ inp t).rValid = true → (state c s₀ inp t).rPipe = true →
    ∃ l first, issued c s₀ inp t = l ++ [first, (state c s₀ inp t).out]
      ∧ BackToBack first (state c s₀ inp t).out

variable {c s₀ inp}

theorem state_succ (t : ℕ) :
  state c s₀ inp (t + 1) = (state c s₀ inp t).step c (inp t)
  := rfl

/-- Where the decoder is enabled the registers become valid if an instruction is issued. -/
theorem oValid_enabled (hpromised : Promised c inp) {t : ℕ} (hce : (inp t).iCe = true) :
  oValid (state c s₀ inp (t + 1)) = issues c (state c s₀ inp t) (inp t)
  := by
  rw [oValid, state_succ, issues, hce, Bool.true_and]
  simp only [step, hce, if_true]
  cases hreset : (inp t).iReset with
  | true => rfl
  | false =>
      cases hpipelined : c.optPipelined with
      | true => rfl
      | false =>
          have hstalled := hpromised hpipelined t
          rw [hce] at hstalled
          rw [← hstalled]
          rfl

/-- Where it is not enabled they are valid only as long as they were before. -/
theorem oValid_disabled (hpromised : Promised c inp) {t : ℕ} (hce : (inp t).iCe = false)
    (hvalid : oValid (state c s₀ inp (t + 1)) = true) :
  oValid (state c s₀ inp t) = true
  := by
  rw [oValid, state_succ] at hvalid
  simp only [step, hce, Bool.false_eq_true, if_false] at hvalid
  cases hpipelined : c.optPipelined with
  | true =>
      rw [hpipelined, if_pos rfl] at hvalid
      split_ifs at hvalid
      apply hvalid
  | false =>
      have hstalled := hpromised hpipelined t
      rw [hce] at hstalled
      rw [hpipelined, if_neg Bool.false_ne_true, ← hstalled, if_neg Bool.false_ne_true] at hvalid
      split_ifs at hvalid

/-- The register set at a clock that is neither a reset nor right after one. -/
theorem Tracked.pipeable_now (hconstant : Constant inp) {t : ℕ} (h : Tracked c s₀ inp t)
    (hreset : (inp t).iReset = false) (hset : (state c s₀ inp t).rInsnIsPipeable = true) :
  ∃ w l, (state c s₀ inp t).out = decode c (inp t).iGie w ∧ Cleared c w
    ∧ Idecode.pipeable c (inp t).iGie w = true
    ∧ issued c s₀ inp t = l ++ [(state c s₀ inp t).out]
  := by
  obtain ⟨u, w, l, rfl, hbefore, hout, hcleared, hpipeable, hissued⟩ := h.pipeable hset
  use w, l
  rw [hconstant u hbefore hreset]
  exact ⟨hout, hcleared, hpipeable, hissued⟩

/-- While the decoder is not enabled the registers stay as they are. -/
theorem tracked_disabled (hconstant : Constant inp) (hpromised : Promised c inp) {t : ℕ}
    (h : Tracked c s₀ inp t) (hreset : (inp t).iReset = false) (hce : (inp t).iCe = false) :
  Tracked c s₀ inp (t + 1)
  := by
  have hissued : issued c s₀ inp (t + 1) = issued c s₀ inp t := by
    rw [issued, log_succ, issuedAt, issues, hce, Bool.false_and, Bool.and_false,
      if_neg (by decide), List.append_nil, issued]
  have hout : (state c s₀ inp (t + 1)).out = (state c s₀ inp t).out := by
    rw [state_succ]
    simp only [step, hce, Bool.false_eq_true, if_false]
  constructor
  case pipeable =>
      intro hset
      have hbefore : (state c s₀ inp t).rInsnIsPipeable = true := by
        rw [state_succ] at hset
        simp only [step, hreset, hce, Bool.false_and, Bool.or_false, Bool.false_eq_true,
          if_false] at hset
        split_ifs at hset
        apply hset
      obtain ⟨w, l, hdecode, hcleared, hpipeable, hlast⟩ :=
        h.pipeable_now hconstant hreset hbefore
      use t, w, l
      rw [hissued, hout]
      exact ⟨rfl, hreset, hdecode, hcleared, hpipeable, hlast⟩
  case pipe =>
      intro hvalid hpipe
      rw [hissued, hout]
      apply h.pipe
      · apply oValid_disabled hpromised hce hvalid
      · rw [state_succ] at hpipe
        simpa only [step, hreset, hce, Bool.false_eq_true, if_false] using hpipe

/-- Where the decoder is enabled the registers are loaded. -/
theorem tracked_enabled (hconstant : Constant inp) (hpromised : Promised c inp) {t : ℕ}
    (h : Tracked c s₀ inp t) (hreset : (inp t).iReset = false) (hce : (inp t).iCe = true) :
  Tracked c s₀ inp (t + 1)
  := by
  have hout : (state c s₀ inp (t + 1)).out =
      decode c (inp t).iGie (iword c (state c s₀ inp t) (inp t)) := by
    rw [state_succ]
    simp only [step, hce, if_true]
  have hissued : (pfValid c (state c s₀ inp t) (inp t) || oPhase c (state c s₀ inp t)) = true →
      oLjmp c (state c s₀ inp t) = false →
      issued c s₀ inp (t + 1) = issued c s₀ inp t ++ [(state c s₀ inp (t + 1)).out] := by
    intro hword hljmp
    rw [issued, log_succ, issuedAt, issues, hreset, hce, hword, hljmp]
    rfl
  constructor
  case pipeable =>
      intro hset
      rw [state_succ] at hset
      simp only [step, hreset, hce, Bool.true_and, Bool.or_false, if_true] at hset
      split_ifs at hset with hopt hbubble hljmp hcis
      use t, iword c (state c s₀ inp t) (inp t), issued c s₀ inp t
      have hword : (pfValid c (state c s₀ inp t) (inp t) || oPhase c (state c s₀ inp t)) =
          true := by
        cases hpf : pfValid c (state c s₀ inp t) (inp t) with
        | true => rfl
        | false =>
            rw [hpf] at hbubble
            simpa using hbubble
      rw [hissued hword (by simpa using hljmp), hout]
      exact ⟨rfl, hreset, rfl, cleared_iword, hset, rfl⟩
  case pipe =>
      intro hvalid hpipe
      have hboth : (pfValid c (state c s₀ inp t) (inp t) || oPhase c (state c s₀ inp t)) = true ∧
          oLjmp c (state c s₀ inp t) = false := by
        have hissues : issues c (state c s₀ inp t) (inp t) = true := by
          rw [← oValid_enabled hpromised hce]
          apply hvalid
        rw [issues, hreset, hce, Bool.not_false, Bool.true_and, Bool.true_and, Bool.and_eq_true,
          Bool.not_eq_true'] at hissues
        apply hissues
      have hfollows : follows c (state c s₀ inp t) (inp t)
          (iword c (state c s₀ inp t) (inp t)) = true := by
        rw [state_succ] at hpipe
        simp only [step, hreset, hce, Bool.false_eq_true, if_false, if_true] at hpipe
        rw [Bool.and_eq_true] at hpipe
        apply hpipe.2
      have hset : (state c s₀ inp t).rInsnIsPipeable = true := by
        simp only [follows, Bool.and_eq_true] at hfollows
        apply hfollows.1.1.1.1.1.1.1
      obtain ⟨w, l, hdecode, hcleared, hpipeable, hlast⟩ := h.pipeable_now hconstant hreset hset
      use l, (state c s₀ inp t).out
      constructor
      · rw [hissued hboth.1 hboth.2, hlast, List.append_assoc]
        rfl
      · rw [hout, hdecode]
        apply backToBack hcleared cleared_iword hdecode rfl hpipeable hfollows

theorem tracked_succ (hconstant : Constant inp) (hpromised : Promised c inp) {t : ℕ}
    (h : Tracked c s₀ inp t) :
  Tracked c s₀ inp (t + 1)
  := by
  cases hreset : (inp t).iReset with
  | true =>
      constructor
      · intro hset
        simp [state_succ, step, hreset] at hset
      · intro hvalid
        simp [state_succ, step, hreset] at hvalid
  | false =>
      cases hce : (inp t).iCe with
      | true => apply tracked_enabled hconstant hpromised h hreset hce
      | false => apply tracked_disabled hconstant hpromised h hreset hce

theorem tracked (h₀ : Initial s₀) (hconstant : Constant inp) (hpromised : Promised c inp) (t : ℕ) :
  Tracked c s₀ inp t
  := by
  induction t with
  | zero =>
      constructor
      · intro hset
        have hnot : (state c s₀ inp 0).rInsnIsPipeable = false := h₀.rInsnIsPipeable
        rw [hnot] at hset
        contradiction
      · intro hvalid
        have hnot : (state c s₀ inp 0).rValid = false := h₀.rValid
        rw [hnot] at hvalid
        contradiction
  | succ t ih => apply tracked_succ hconstant hpromised ih

/-- An access to memory that is valid and marked was issued last, and may be issued right behind the
instruction that was issued before it. -/
theorem pipe_sound (h₀ : Initial s₀) (hconstant : Constant inp) (hpromised : Promised c inp)
    {t : ℕ} (hvalid : oValid (state c s₀ inp t) = true)
    (hpipe : oPipe c (state c s₀ inp t) = true) :
  ∃ l first, issued c s₀ inp t = l ++ [first, (state c s₀ inp t).out]
    ∧ BackToBack first (state c s₀ inp t).out
  := by
  rw [oPipe, Bool.and_eq_true] at hpipe
  apply (tracked h₀ hconstant hpromised t).pipe hvalid hpipe.2

end Runs

/-! ### Examples -/

/-- The decoder with all that it has. -/
def whole : Config := ⟨true, true, true, true, true, true, true, true, true, false⟩

/-- The registers at power up. -/
def powerUp : Idecode :=
  ⟨decode whole false 0, false, 0, false, false, false, false, false, false, false⟩

/-- The words from address 0 of `R1`, and from address 4, are loaded. -/
def twoLoads (t : ℕ) : Input where
  iReset := false
  iCe := true
  iStalled := false
  iInstruction := if t = 0 then 0x14844000 else 0x1c844004
  iGie := true
  iPfValid := true
  iIllegal := false

theorem pipe_sound_twoLoads :
  ∃ l first, issued whole powerUp twoLoads 2 = l ++ [first, (state whole powerUp twoLoads 2).out]
    ∧ BackToBack first (state whole powerUp twoLoads 2).out
  := by
  apply pipe_sound
  · exact ⟨rfl, rfl, rfl, rfl, rfl, rfl, rfl, rfl⟩
  · intro t _ _
    rfl
  · intro hno
    cases hno
  · decide
  · decide

end Idecode

end ZBasic
