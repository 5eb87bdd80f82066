import ZBasic.Clocked.Run
import Mathlib.Data.Bool.Basic
import Mathlib.Tactic.Push
import Mathlib.Tactic.Use

/-!
# Arbiters of a pipelined bus

An arbiter connects several masters to one slave port, as streams. The port may drive several
buses that share their lines except for the cycle and the strobe. One master owns the port at a
time. As long as the owner changes only while its cycle is down, whatever the slave answers
goes to the master that asked.
-/

namespace Wishbone

open Clocked

/-- An arbiter between the masters `ι` of the buses `β` with requests `ρ`, at each clock. -/
structure Arbiter (ι β ρ : Type*) where
  /-- The arbiter is reset, along with the masters and the slave. -/
  reset : ℕ → Bool
  /-- The master that owns the port. -/
  owner : ℕ → ι
  /-- The cycle lines of the masters. -/
  cyc : ι → β → ℕ → Bool
  /-- What the masters request. -/
  request : ι → β → ℕ → Option ρ
  /-- The stall, the acknowledgement and the error that the masters see. -/
  stall : ι → ℕ → Bool
  ack : ι → ℕ → Bool
  err : ι → ℕ → Bool
  /-- The cycle lines of the port. -/
  outCyc : β → ℕ → Bool
  /-- What is requested of the slave. -/
  outRequest : β → ℕ → Option ρ
  /-- The stall, the acknowledgement and the error of the slave. -/
  inStall : ℕ → Bool
  inAck : ℕ → Bool
  inErr : ℕ → Bool

namespace Arbiter

variable {ι β ρ : Type*} (S : Arbiter ι β ρ)

/-- The request that a master sees accepted. -/
def accepted (i : ι) (b : β) (n : ℕ) : Option ρ :=
  if S.cyc i b n && !S.stall i n then S.request i b n else none

/-- The request that the slave accepts, with the owner of the port. -/
def granted (b : β) (n : ℕ) : Option (ι × ρ) :=
  if S.outCyc b n && !S.inStall n then (S.outRequest b n).map (S.owner n, ·) else none

/-- The requests of the cycle that the slave has not answered yet, in order. -/
def pending (b : β) : ℕ → List (ι × ρ)
  | 0 => []
  | n + 1 =>
      if S.outCyc b n && !S.reset n then
        (pending b n ++ (S.granted b n).toList).drop (if S.inAck n || S.inErr n then 1 else 0)
      else []

/-- The port is connected to its owner, and the owner changes only while its cycles are
down. -/
structure Connects : Prop where
  keeps : ∀ n, S.reset n = false → (∃ b, S.cyc (S.owner n) b n = true) → S.owner (n + 1) = S.owner n
  outCyc : ∀ b n, S.outCyc b n = S.cyc (S.owner n) b n
  outRequest : ∀ b n, S.outCyc b n = true → S.outRequest b n = S.request (S.owner n) b n
  others : ∀ i n, i ≠ S.owner n → S.stall i n = true ∧ S.ack i n = false ∧ S.err i n = false
  own : ∀ b n, S.outCyc b n = true → S.stall (S.owner n) n = S.inStall n
    ∧ S.ack (S.owner n) n = S.inAck n ∧ S.err (S.owner n) n = S.inErr n

/-- The masters share the port. -/
structure Shares [DecidableEq ι] : Prop where
  /-- The slave accepts the requests that each master sees accepted, in its order. -/
  accepts : ∀ i b n, log (fun k => (S.accepted i b k).toList) n
    = ((log (fun k => (S.granted b k).toList) n).filter (·.1 = i)).map Prod.snd
  /-- An answer goes to the master that issued the request, and to no other. -/
  answers : ∀ b n i r rest, S.outCyc b n = true →
    S.pending b n ++ (S.granted b n).toList = (i, r) :: rest →
    S.ack i n = S.inAck n ∧ S.err i n = S.inErr n
      ∧ ∀ j ≠ i, S.ack j n = false ∧ S.err j n = false
  /-- The owner does not change while its cycle is up. -/
  keeps : ∀ n, S.reset n = false → (∃ b, S.cyc (S.owner n) b n = true) → S.owner (n + 1) = S.owner n
  /-- A master that is not the owner is stalled. -/
  stalls : ∀ i n, i ≠ S.owner n → S.stall i n = true

/-- A master that requests the port is granted it at the end of the cycle of its owner. -/
def Alternates : Prop :=
  ∀ i b r n, i ≠ S.owner n → (∀ b, S.cyc (S.owner n) b n = false) → S.cyc i b n = true →
    S.request i b n = some r → S.owner (n + 1) = i

variable {S}

/-- The slave accepts requests of the owner only. -/
theorem granted_owner {b : β} {n : ℕ} {x : ι × ρ} (hx : x ∈ (S.granted b n).toList) :
  x.1 = S.owner n
  := by
  rw [granted] at hx
  split_ifs at hx
  · simp only [Option.mem_toList, Option.map_eq_some_iff] at hx
    obtain ⟨r, -, rfl⟩ := hx
    rfl
  · cases hx

/-- The slave accepts what the owner sees accepted, and the others see nothing accepted. -/
theorem Connects.granted_eq (h : S.Connects) [DecidableEq ι] (i : ι) (b : β) (n : ℕ) :
  ((S.granted b n).toList.filter (·.1 = i)).map Prod.snd = (S.accepted i b n).toList
  := by
  rw [granted, accepted]
  by_cases howner : i = S.owner n
  · subst howner
    cases hcyc : S.outCyc b n with
    | false =>
        rw [h.outCyc] at hcyc
        simp [hcyc]
    | true =>
        rw [(h.own b n hcyc).1, h.outRequest b n hcyc]
        rw [h.outCyc] at hcyc
        rw [hcyc]
        cases S.inStall n with
        | true => rfl
        | false => cases S.request (S.owner n) b n <;> simp
  · rw [(h.others i n howner).1]
    cases S.outRequest b n <;> cases S.outCyc b n <;> cases S.inStall n <;>
      simp [Ne.symm howner]

/-- What the slave has not answered was issued by the owner of the port. -/
theorem Connects.pending_owner (h : S.Connects) (b : β) (n : ℕ) :
  ∀ x ∈ S.pending b n, x.1 = S.owner n
  := by
  induction n with
  | zero =>
      intro x hx
      cases hx
  | succ n ih =>
      intro x hx
      rw [pending] at hx
      cases hlasts : S.outCyc b n && !S.reset n with
      | false =>
          rw [hlasts, if_neg Bool.false_ne_true] at hx
          cases hx
      | true =>
          rw [hlasts, if_pos rfl] at hx
          rw [Bool.and_eq_true, Bool.not_eq_true', h.outCyc] at hlasts
          rw [h.keeps n hlasts.2 ⟨b, hlasts.1⟩]
          rcases List.mem_append.mp (List.mem_of_mem_drop hx) with hx | hx
          · apply ih x hx
          · apply granted_owner hx
/-- An arbiter that connects the port to its owner shares it. -/
theorem Connects.shares (h : S.Connects) [DecidableEq ι] :
  S.Shares
  := by
  constructor
  · intro i b n
    induction n with
    | zero => rfl
    | succ n ih =>
        rw [log_succ, log_succ, ih, List.filter_append, List.map_append, h.granted_eq]
  · intro b n i r rest hcyc hfirst
    have hmem : (i, r) ∈ S.pending b n ++ (S.granted b n).toList := by simp [hfirst]
    have howner : i = S.owner n := by
      rcases List.mem_append.mp hmem with hmem | hmem
      · apply h.pending_owner b n _ hmem
      · apply granted_owner hmem
    subst howner
    obtain ⟨-, hack, herr⟩ := h.own b n hcyc
    refine ⟨hack, herr, ?_⟩
    intro j hj
    apply (h.others j n hj).2
  · apply h.keeps
  · intro i n hi
    apply (h.others i n hi).1

end Arbiter

end Wishbone
