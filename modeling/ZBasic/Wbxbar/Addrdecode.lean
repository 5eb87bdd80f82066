import Mathlib.Algebra.Ring.Nat
import Mathlib.Data.List.FinRange
import ZBasic.Clocked.Run

/-!
# Address decoding

`addrdecode` finds the slave that an address belongs to, and passes the request on a clock later.
An address that belongs to no slave is decoded to none, unless the first slave takes all of these.
-/

namespace ZBasic

open Clocked

/-- A vector with a bit for each slave, and one, `[NS]`, for none. -/
structure Selection (ns : ℕ) where
  slave : Fin ns → Bool
  none : Bool

namespace Selection

variable {ns : ℕ}

/-- No bit is set. -/
def zero : Selection ns where
  slave := fun _ => false
  none := false

/-- At most one bit is set. -/
structure OneHot (v : Selection ns) : Prop where
  eq : ∀ m m', v.slave m = true → v.slave m' = true → m = m'
  none : ∀ m, v.slave m = true → v.none = false

theorem oneHot_zero :
  (zero : Selection ns).OneHot
  := by
  constructor
  · intro m m' hm
    cases hm
  · intro m hm
    cases hm

end Selection

/-- The parameters of `addrdecode`. -/
structure AddressMap (ns aw : ℕ) where
  slaveAddr : Fin ns → BitVec aw
  slaveMask : Fin ns → BitVec aw
  accessAllowed : Fin ns → Bool

namespace AddressMap

variable {ns aw : ℕ} [NeZero ns] (A : AddressMap ns aw)

/-- `OPT_NONESEL` -/
def optNonesel : Bool := !A.accessAllowed 0 || A.slaveMask 0 != 0

/-- `prerequest` -/
def prerequest (addr : BitVec aw) (m : Fin ns) : Bool :=
  (addr ^^^ A.slaveAddr m) &&& A.slaveMask m == 0 && A.accessAllowed m

/-- `request`, for an address that is valid. -/
def decode (addr : BitVec aw) : Selection ns where
  slave := fun m =>
    if A.optNonesel then A.prerequest addr m
    else if ns = 1 then true
    else if m = 0 && (List.finRange ns).any (fun k => k ≠ 0 && A.prerequest addr k) then false
    else A.prerequest addr m
  none := A.optNonesel && !(List.finRange ns).any (A.prerequest addr)

/-- No address belongs to two slaves, but to the first one and another if the first one takes all
addresses. -/
def Disjoint : Prop :=
  ∀ m m', m ≠ m' → (A.optNonesel = true ∨ m ≠ 0 ∧ m' ≠ 0) →
    (A.slaveAddr m ^^^ A.slaveAddr m') &&& (A.slaveMask m &&& A.slaveMask m') ≠ 0

instance : Decidable A.Disjoint := inferInstanceAs (Decidable (∀ _, _))

/-- `OPT_BUFFER_DECODER`: the decoder is registered. -/
def optBufferDecoder : Bool := ns != 1 || A.slaveMask 0 != 0

/-- The address maps of a crossbar whose decoders are registered. -/
structure Usable : Prop where
  buffered : A.optBufferDecoder = true
  disjoint : A.Disjoint

variable {A}

omit [NeZero ns] in
/-- Two slaves that an address belongs to agree where both look. -/
theorem agree_of_prerequest {addr : BitVec aw} {m m' : Fin ns}
    (hm : A.prerequest addr m = true) (hm' : A.prerequest addr m' = true) :
  (A.slaveAddr m ^^^ A.slaveAddr m') &&& (A.slaveMask m &&& A.slaveMask m') = 0
  := by
  rw [prerequest, Bool.and_eq_true, beq_iff_eq] at hm hm'
  apply BitVec.eq_of_getElem_eq
  intro k hk
  have hbit := congrArg (fun v : BitVec aw => v[k]) hm.1
  have hbit' := congrArg (fun v : BitVec aw => v[k]) hm'.1
  simp only [BitVec.getElem_and, BitVec.getElem_xor, BitVec.ofNat_eq_ofNat,
    BitVec.getElem_zero] at hbit hbit' ⊢
  grind

/-- An address is decoded to one slave at most. -/
theorem Disjoint.oneHot (h : A.Disjoint) (addr : BitVec aw) :
  (A.decode addr).OneHot
  := by
  have heq : ∀ m m', (A.optNonesel = true ∨ m ≠ 0 ∧ m' ≠ 0) → A.prerequest addr m = true →
      A.prerequest addr m' = true → m = m' := by
    intro m m' hor hm hm'
    by_contra hne
    apply h m m' hne hor (agree_of_prerequest hm hm')
  constructor
  case eq =>
      intro m m' hm hm'
      simp only [decode] at hm hm'
      by_cases hnone : A.optNonesel = true
      · rw [if_pos hnone] at hm hm'
        apply heq m m' (Or.inl hnone) hm hm'
      · rw [if_neg hnone] at hm hm'
        by_cases hone : ns = 1
        · subst hone
          apply Subsingleton.elim
        · rw [if_neg hone] at hm hm'
          -- The first slave is not selected together with another one.
          have hzero : ∀ k k' : Fin ns, k = 0 → k' ≠ 0 → A.prerequest addr k' = true →
              (k = 0 && (List.finRange ns).any fun k => k ≠ 0 && A.prerequest addr k) = true := by
            intro k k' hk hk' hpre
            rw [Bool.and_eq_true, List.any_eq_true]
            use decide_eq_true hk, k', List.mem_finRange k'
            rw [hpre, Bool.and_true, decide_eq_true hk']
          split_ifs at hm hm' with hfirst hfirst'
          by_cases hm0 : m = 0
          · by_contra hne
            apply hfirst
            apply hzero m m' hm0 _ hm'
            rintro rfl
            apply hne hm0
          · by_cases hm0' : m' = 0
            · cases hfirst' (hzero m' m hm0' hm0 hm)
            · apply heq m m' (Or.inr ⟨hm0, hm0'⟩) hm hm'
  case none =>
      intro m hm
      simp only [decode] at hm ⊢
      by_cases hnone : A.optNonesel = true
      · rw [if_pos hnone] at hm
        rw [hnone, Bool.true_and, Bool.not_eq_false', List.any_eq_true]
        use m, List.mem_finRange m
      · rw [Bool.not_eq_true] at hnone
        rw [hnone, Bool.false_and]

/-- Every address is decoded to a slave or to none. -/
theorem decode_total (addr : BitVec aw) :
  (∃ m, (A.decode addr).slave m = true) ∨ (A.decode addr).none = true
  := by
  simp only [decode]
  by_cases hnone : A.optNonesel = true
  · rw [hnone, Bool.true_and, Bool.not_eq_true', ← Bool.not_eq_true, List.any_eq_true]
    by_cases hsome : ∃ m ∈ List.finRange ns, A.prerequest addr m = true
    · obtain ⟨m, -, hm⟩ := hsome
      left
      use m
      rw [if_pos rfl, hm]
    · right
      apply hsome
  · left
    simp only [if_neg hnone]
    by_cases hone : ns = 1
    · use 0
      rw [if_pos hone]
    · simp only [if_neg hone]
      by_cases hother : ∃ m, m ≠ 0 ∧ A.prerequest addr m = true
      · obtain ⟨m, hm, hpre⟩ := hother
        use m
        rw [decide_eq_false hm, Bool.false_and, if_neg Bool.false_ne_true, hpre]
      · -- The first slave takes all that is left.
        use 0
        have hno : (List.finRange ns).any (fun k => k ≠ 0 && A.prerequest addr k) = false := by
          rw [← Bool.not_eq_true, List.any_eq_true]
          rintro ⟨m, -, hm⟩
          rw [Bool.and_eq_true, decide_eq_true_eq] at hm
          apply hother ⟨m, hm⟩
        rw [Bool.not_eq_true, optNonesel, Bool.or_eq_false_iff, Bool.not_eq_false', bne_eq_false_iff_eq]
          at hnone
        rw [hno, Bool.and_false, if_neg Bool.false_ne_true, prerequest, hnone.2, hnone.1]
        simp

end AddressMap

/-- The registers of `addrdecode`. -/
structure Addrdecode (ns aw : ℕ) (δ : Type*) where
  oValid : Bool
  oDecode : Selection ns
  oAddr : BitVec aw
  oData : δ

namespace Addrdecode

variable {ns aw : ℕ} {δ : Type*}

/-- The inputs of `addrdecode` at a clock. -/
structure Input (aw : ℕ) (δ : Type*) where
  iReset : Bool
  iValid : Bool
  iAddr : BitVec aw
  iData : δ
  iStall : Bool

/-- `o_stall` -/
def oStall (s : Addrdecode ns aw δ) (iStall : Bool) : Bool := s.oValid && iStall

/-- One clock of `addrdecode`. -/
def step [NeZero ns] (A : AddressMap ns aw) (s : Addrdecode ns aw δ) (i : Input aw δ) :
    Addrdecode ns aw δ where
  oValid := if i.iReset then false else if !s.oStall i.iStall then i.iValid else s.oValid
  oDecode :=
    if i.iReset then .zero
    else if !s.oValid || !i.iStall then (if i.iValid then A.decode i.iAddr else .zero)
    else s.oDecode
  oAddr := if !s.oValid || !i.iStall then i.iAddr else s.oAddr
  oData := if !s.oValid || !i.iStall then i.iData else s.oData

/-- What is passed on has been decoded. -/
theorem oDecode_step [NeZero ns] {A : AddressMap ns aw} {s : Addrdecode ns aw δ} {i : Input aw δ}
    (h : s.oValid = true → s.oDecode = A.decode s.oAddr) (hvalid : (s.step A i).oValid = true) :
  (s.step A i).oDecode = A.decode (s.step A i).oAddr
  := by
  have hstall : (!s.oStall i.iStall) = (!s.oValid || !i.iStall) := by rw [oStall, Bool.not_and]
  simp only [step, hstall] at hvalid ⊢
  cases hreset : i.iReset with
  | true =>
      rw [hreset, if_pos rfl] at hvalid
      contradiction
  | false =>
      rw [hreset, if_neg Bool.false_ne_true] at hvalid
      rw [if_neg Bool.false_ne_true]
      split_ifs at hvalid ⊢
      · rfl
      · apply h hvalid

/-- A request that is abandoned is not passed on. -/
theorem oValid_step_eq_false [NeZero ns] {A : AddressMap ns aw} {s : Addrdecode ns aw δ}
    {i : Input aw δ} (h : i.iReset = true ∨ i.iValid = false ∧ i.iStall = false) :
  (s.step A i).oValid = false
  := by
  rcases h with hreset | ⟨hvalid, hstall⟩
  · simp [step, hreset]
  · simp [step, oStall, hvalid, hstall]

end Addrdecode

end ZBasic
