import ZBasic.Clocked.Ring
import ZBasic.Wbxbar.Grants

/-!
# A request on its way through the crossbar

The requests of a master that are not answered yet are in its skid buffer, in its decoder, on their
way to the slave it is granted, with that slave, or answered by it at the clock before. None is lost
on the way, unless the master has as many requests unanswered as can be counted, and asks for
another slave.
-/

namespace ZBasic

open Clocked Wishbone

/-- Nearly all numbers of `lg` bits, but for the last three, as the counter tells them. -/
theorem Wbxbar.nearly_all {lg : ℕ} (hlg : 2 ≤ lg) (x : BitVec lg) :
  (x.extractLsb' 2 (lg - 2) == BitVec.allOnes (lg - 2) && x.extractLsb' 0 2 != 0)
    = decide (2 ^ lg ≤ x.toNat + 3)
  := by
  have hpow : 2 ^ lg = 2 ^ (lg - 2) * 2 ^ 2 := by rw [← Nat.pow_add, Nat.sub_add_cancel hlg]
  have hpos := Nat.two_pow_pos (lg - 2)
  have hx := x.isLt
  have hhigh : (x.extractLsb' 2 (lg - 2) == BitVec.allOnes (lg - 2))
      = decide (x.toNat / 4 = 2 ^ (lg - 2) - 1) := by
    rw [beq_eq_decide, decide_eq_decide, ← BitVec.toNat_inj, BitVec.extractLsb'_toNat,
      BitVec.toNat_allOnes, Nat.shiftRight_eq_div_pow, Nat.mod_eq_of_lt (by omega)]
  have hlow : (x.extractLsb' 0 2 != 0) = decide (x.toNat % 4 ≠ 0) := by
    rw [bne, beq_eq_decide, ← decide_not, decide_eq_decide, ← BitVec.toNat_inj,
      BitVec.extractLsb'_toNat]
    rfl
  rw [hhigh, hlow, ← Bool.decide_and, decide_eq_decide]
  omega

namespace Wbxbar

variable {nm ns aw dw lg : ℕ}

section Parts

variable (p : Wbxbar nm ns aw dw lg) (i : Input nm ns aw dw)

/-- What happens on the port of a master. -/
def upPort (n : Fin nm) : Port (BusRequest aw dw) (BitVec dw) where
  cyc := i.iMcyc n && !i.iReset
  request := if i.iMstb n && !p.oMstall i n then some (i.iM n).shown else none
  ack := p.oMack n
  err := p.oMerr n
  data := p.oMdata n

/-- What happens on the port of a slave. -/
def downPort (s : Fin ns) : Port (BusRequest aw dw) (BitVec dw) where
  cyc := p.oScyc s
  request := if p.oSstb s && !i.iSstall s then some (p.oS s) else none
  ack := i.iSack s
  err := i.iSerr s
  data := i.iSdata s

/-- The request in the skid buffer of a master. -/
def skidding (n : Fin nm) : List (BusRequest aw dw) :=
  ((p.iskid n).held skid).map fun v => (BusRequest.unpack v).shown

/-- The request in the decoder of a master. -/
def decoding (n : Fin nm) : List (BusRequest aw dw) := if p.dcdStb n then [(p.m n).shown] else []

/-- The request on its way to a slave. -/
def offering (s : Fin ns) : List (BusRequest aw dw) := if p.oSstb s then [p.oS s] else []

/-- The requests with a slave or on their way to it, with what is `pending` there. -/
def atSlave (pending : Fin ns → List (BusRequest aw dw)) (s : Fin ns) :
    List (BusRequest aw dw) :=
  if p.oScyc s then pending s ++ p.offering s else []

/-- The request that the skid buffer of a master lets out. -/
def leaving (n : Fin nm) : List (BusRequest aw dw) :=
  if (p.iskid n).oValid skid (p.iskidInput i n) && (p.iskidInput i n).iReady then
    [(p.skd i n).shown]
  else []

/-- The request that is let through to a slave. -/
def passing (n : Fin nm) : List (BusRequest aw dw) :=
  if p.mStb i n && !p.mStall i n then [(p.m n).shown] else []

/-- The decoder of a master lets go of a request that is not let through to a slave. -/
def drops (n : Fin nm) : Bool := p.dcdStb n && p.mfull n && !p.mStall i n

end Parts

section Step

variable [NeZero ns] {A : AddressMap ns aw} {p : Wbxbar nm ns aw dw lg}
  {i : Input nm ns aw dw} {n : Fin nm} {s : Fin ns}

/-! ### Up to the decoder -/

omit [NeZero ns] in
theorem upPort_cyc :
  (upPort p i n).cyc = true ↔ i.iReset = false ∧ i.iMcyc n = true
  := by simp [upPort, and_comm]

theorem skid_inv {w : ℕ} (b : Skidbuffer w) :
  Skidbuffer.Inv skid b
  := by constructor <;> simp [skid]

/-- What goes into the skid buffer comes out, or stays. -/
theorem skidding_step (hup : (upPort p i n).cyc = true) :
  p.leaving i n ++ (p.step i A).skidding n = p.skidding n ++ (upPort p i n).request.toList
  := by
  obtain ⟨hreset, hcyc⟩ := upPort_cyc.mp hup
  have hkept : (p.iskidInput i n).iReset = false := by
    rw [iskidInput, hreset, hcyc]
    rfl
  have hconserves := congrArg (List.map fun v => (BusRequest.unpack v).shown)
    ((skid_inv (p.iskid n)).conserves hkept)
  rw [List.map_append, List.map_append] at hconserves
  have hleaving : (Skidbuffer.delivered skid (p.iskid n) (p.iskidInput i n)).map
      (fun v => (BusRequest.unpack v).shown) = p.leaving i n := by
    rw [Skidbuffer.delivered, leaving]
    split_ifs <;> rfl
  have hrequest : (Skidbuffer.accepted skid (p.iskid n) (p.iskidInput i n)).map
      (fun v => (BusRequest.unpack v).shown) = (upPort p i n).request.toList := by
    have hvalid : (p.iskidInput i n).iValid = i.iMstb n := rfl
    rw [Skidbuffer.accepted, upPort, oMstall, Bool.not_not, hvalid]
    split_ifs
    · rw [List.map_singleton, iskidInput, BusRequest.unpack_pack]
      rfl
    · rfl
  rw [hleaving, hrequest] at hconserves
  apply hconserves

/-- The decoder keeps its request while it is stalled. -/
theorem adcd_of_mStall (hup : (upPort p i n).cyc = true) (hstb : p.dcdStb n = true)
    (hstall : p.mStall i n = true) :
  (p.step i A).adcd n = p.adcd n
  := by
  obtain ⟨hreset, hcyc⟩ := upPort_cyc.mp hup
  have hvalid : (p.adcd n).oValid = true := hstb
  have hsame : (⟨true, (p.adcd n).oDecode, (p.adcd n).oAddr, (p.adcd n).oData⟩ :
      Addrdecode ns aw (Bool × BitVec dw × BitVec (dw / 8))) = p.adcd n := by rw [← hvalid]
  simpa [step, Addrdecode.step, Addrdecode.oStall, adcdInput, hreset, hcyc, hvalid, hstall]
    using hsame

/-- Else it takes what comes out of the skid buffer. -/
theorem decoding_of_not_mStall (hup : (upPort p i n).cyc = true)
    (hfree : (p.dcdStb n && p.mStall i n) = false) :
  (p.step i A).decoding n = p.leaving i n
  := by
  obtain ⟨hreset, hcyc⟩ := upPort_cyc.mp hup
  have hready : (p.iskidInput i n).iReady = true := by
    have hstall : (p.adcd n).oStall (p.mStall i n) = false := hfree
    rw [iskidInput, hcyc, Bool.and_true, hstall, Bool.not_false]
  have hfree' : (!(p.adcd n).oValid || !p.mStall i n) = true := by
    rw [← Bool.not_and, Bool.not_eq_true']
    apply hfree
  have hstb : (p.step i A).dcdStb n = (p.iskid n).oValid skid (p.iskidInput i n) := by
    simp only [dcdStb, step, Addrdecode.step, Addrdecode.oStall, adcdInput, hreset, hcyc,
      Bool.and_true, Bool.not_and (p.adcd n).oValid, hfree', if_true, Bool.false_eq_true, if_false]
  have hm : (p.step i A).m n = p.skd i n := by
    simp only [m, step, Addrdecode.step, adcdInput, hcyc, Bool.and_true, hfree', if_true]
  rw [decoding, leaving, hstb, hm, hready, Bool.and_true]

/-- What comes out of the skid buffer goes into the decoder. -/
theorem decoding_step (hup : (upPort p i n).cyc = true) (hdrops : p.drops i n = false) :
  p.passing i n ++ (p.step i A).decoding n = p.decoding n ++ p.leaving i n
  := by
  obtain ⟨hreset, hcyc⟩ := upPort_cyc.mp hup
  cases hheld : p.dcdStb n && p.mStall i n with
  | true =>
      rw [Bool.and_eq_true] at hheld
      have hready : (p.iskidInput i n).iReady = false := by
        have hstall : (p.adcd n).oStall (p.mStall i n) = true := by
          rw [Addrdecode.oStall, hheld.2, Bool.and_true]
          apply hheld.1
        rw [iskidInput, hcyc, Bool.and_true, hstall, Bool.not_true]
      have hsame : (p.step i A).decoding n = p.decoding n := by
        rw [decoding, dcdStb, m, adcd_of_mStall hup hheld.1 hheld.2]
        rfl
      rw [hsame, passing, hheld.2, Bool.not_true, Bool.and_false, leaving, hready, Bool.and_false]
      simp
  | false =>
      rw [decoding_of_not_mStall hup hheld]
      congr 1
      rw [drops] at hdrops
      rw [passing, decoding, mStb, hcyc, Bool.true_and]
      cases hstb : p.dcdStb n <;> cases hfull : p.mfull n <;> cases hstall : p.mStall i n <;>
        simp_all

/-! ### The count of what is let through -/

/-- The counter of a master, and what is told of it, when it waits for `k` answers. -/
structure Counts (p : Wbxbar nm ns aw dw lg) (n : Fin nm) (k : ℕ) : Prop where
  lclpending : (p.lclpending n).toNat = k
  mempty : p.mempty n = decide (k = 0)
  mfull : p.mfull n = decide (k + 1 = 2 ^ lg)
  mnearfull : p.mnearfull n = decide (2 ^ lg ≤ k + 2)

omit [NeZero ns] in
theorem mfull_of_mStb (hstb : p.mStb i n = true) :
  p.mfull n = false
  := by
  rw [mStb] at hstb
  split_ifs at hstb with hfull
  rw [Bool.not_eq_true] at hfull
  apply hfull

/-- A master that is without a cycle waits for nothing. -/
theorem counts_of_not_cyc (hlg : 2 ≤ lg) (hup : (upPort p i n).cyc = false) :
  (p.step i A).Counts n 0
  := by
  have hdown : (i.iReset || !i.iMcyc n || p.oMerr n) = true := by
    have hor : (i.iMcyc n && !i.iReset) = false := hup
    cases hreset : i.iReset with
    | true => rw [Bool.true_or, Bool.true_or]
    | false =>
        rw [hreset, Bool.not_false, Bool.and_true] at hor
        rw [hor, Bool.false_or, Bool.not_false, Bool.true_or]
  have hpow : 2 ^ 2 ≤ 2 ^ lg := Nat.pow_le_pow_right (by decide) hlg
  constructor
  · simp only [step, hdown, if_true]
    rfl
  · simp only [step, hdown, if_true]
    rfl
  · rw [decide_eq_false (by omega)]
    simp only [step, hdown, if_true]
  · rw [decide_eq_false (by omega)]
    simp only [step, hdown, if_true]

/-- The counter goes up with every request that is let through, and down with every answer. -/
theorem Counts.step {k : ℕ} (h : p.Counts n k) (hlg : 2 ≤ lg) (hup : (upPort p i n).cyc = true)
    (hmerr : p.oMerr n = false) (hack : p.oMack n = true → 0 < k) :
  (p.step i A).Counts n (k + (p.mStb i n && !p.mStall i n).toNat - (p.oMack n).toNat)
  := by
  obtain ⟨hreset, hcyc⟩ := upPort_cyc.mp hup
  have hgo : (i.iReset || !i.iMcyc n || p.oMerr n) = false := by rw [hreset, hcyc, hmerr]; rfl
  have hk := (p.lclpending n).isLt
  rw [h.lclpending] at hk
  have hpow : 2 ^ 2 ≤ 2 ^ lg := Nat.pow_le_pow_right (by decide) hlg
  have hone : (1 : BitVec lg).toNat = 1 := toNat_one_of_lt (by omega)
  cases haccepted : p.mStb i n && !p.mStall i n with
  | true =>
      rw [Bool.toNat_true]
      have hroom : k + 1 ≠ 2 ^ lg := by
        have hfull := mfull_of_mStb (Bool.and_eq_true_iff.mp haccepted).1
        rw [h.mfull, decide_eq_false_iff_not] at hfull
        apply hfull
      cases hmack : p.oMack n with
      | true =>
          rw [Bool.toNat_true, Nat.add_sub_cancel]
          constructor
          · simp only [Wbxbar.step, hgo, haccepted, hmack, Bool.false_eq_true, if_false]
            apply h.lclpending
          · simp only [Wbxbar.step, hgo, haccepted, hmack, Bool.false_eq_true, if_false]
            apply h.mempty
          · simp only [Wbxbar.step, hgo, haccepted, hmack, Bool.false_eq_true, if_false]
            apply h.mfull
          · simp only [Wbxbar.step, hgo, haccepted, hmack, Bool.false_eq_true, if_false]
            apply h.mnearfull
      | false =>
          rw [Bool.toNat_false, Nat.sub_zero]
          constructor
          · simp only [Wbxbar.step, hgo, haccepted, hmack, Bool.false_eq_true, if_false]
            rw [BitVec.toNat_add, h.lclpending, hone, Nat.mod_eq_of_lt (by omega)]
          · simp [Wbxbar.step, hgo, haccepted, hmack]
          · simp only [Wbxbar.step, hgo, haccepted, hmack, Bool.false_eq_true, if_false]
            rw [h.mnearfull, decide_eq_decide]
            omega
          · simp only [Wbxbar.step, hgo, haccepted, hmack, Bool.false_eq_true, if_false]
            rw [nearly_all hlg, h.lclpending]
  | false =>
      rw [Bool.toNat_false, Nat.add_zero]
      cases hmack : p.oMack n with
      | true =>
          have hpos := hack hmack
          rw [Bool.toNat_true]
          constructor
          · simp only [Wbxbar.step, hgo, haccepted, hmack, Bool.false_eq_true, if_false]
            rw [BitVec.toNat_sub_of_le (by rw [BitVec.le_def, hone, h.lclpending]; omega),
              h.lclpending, hone]
          · simp only [Wbxbar.step, hgo, haccepted, hmack, Bool.false_eq_true, if_false]
            rw [beq_eq_decide, decide_eq_decide, ← BitVec.toNat_inj, h.lclpending, hone]
            omega
          · simp only [Wbxbar.step, hgo, haccepted, hmack, Bool.false_eq_true, if_false]
            rw [decide_eq_false (by omega)]
          · simp only [Wbxbar.step, hgo, haccepted, hmack, Bool.false_eq_true, if_false]
            rw [h.mfull, decide_eq_decide]
            omega
      | false =>
          rw [Bool.toNat_false, Nat.sub_zero]
          constructor
          · simp only [Wbxbar.step, hgo, haccepted, hmack, Bool.false_eq_true, if_false]
            apply h.lclpending
          · simp only [Wbxbar.step, hgo, haccepted, hmack, Bool.false_eq_true, if_false]
            apply h.mempty
          · simp only [Wbxbar.step, hgo, haccepted, hmack, Bool.false_eq_true, if_false]
            apply h.mfull
          · simp only [Wbxbar.step, hgo, haccepted, hmack, Bool.false_eq_true, if_false]
            apply h.mnearfull

end Step

end Wbxbar

end ZBasic
