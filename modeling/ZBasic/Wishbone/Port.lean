import Mathlib.Data.Bool.Basic
import Mathlib.Data.Nat.Basic
import Mathlib.Tactic.Use

/-!
# Ports of a pipelined bus

At each clock a request may be accepted on a port, and one that has been accepted may be answered.
The requests that are not answered yet are pending. They are abandoned when the cycle is dropped.
-/

namespace Wishbone

variable {ρ δ : Type*}

/-- What happens on a port at a clock: the cycle line, the request that is accepted, and the answer
to an earlier one. -/
structure Port (ρ δ : Type*) where
  cyc : Bool
  request : Option ρ
  ack : Bool
  err : Bool
  data : δ

namespace Port

/-- The requests that can be answered at a clock. -/
def asked (q : Port ρ δ) (pending : List ρ) : List ρ := pending ++ q.request.toList

/-- A request is answered at this clock. -/
def answered (q : Port ρ δ) : Bool := q.cyc && (q.ack || q.err)

/-- The requests pending after a clock. -/
def next (q : Port ρ δ) (pending : List ρ) : List ρ :=
  if q.cyc then (q.asked pending).drop q.answered.toNat else []

/-- Only what has been asked is answered, either with an acknowledgement or with an error. -/
structure Owed (q : Port ρ δ) (pending : List ρ) : Prop where
  asked : q.answered = true → q.asked pending ≠ []
  single : q.answered = true → q.ack = true → q.err = false

/-- The requests pending on a port before each clock. -/
def pending (q : ℕ → Port ρ δ) : ℕ → List ρ
  | 0 => []
  | n + 1 => (q n).next (pending q n)

theorem next_of_not_cyc {q : Port ρ δ} (hcyc : q.cyc = false) (pending : List ρ) :
  q.next pending = []
  := by rw [next, hcyc, if_neg Bool.false_ne_true]

theorem next_of_cyc {q : Port ρ δ} (hcyc : q.cyc = true) (pending : List ρ) :
  q.next pending = (q.asked pending).drop (q.ack || q.err).toNat
  := by rw [next, hcyc, if_pos rfl, answered, hcyc, Bool.true_and]

/-- What is pending was pending before or has just been asked. -/
theorem mem_of_mem_next {q : Port ρ δ} {pending : List ρ} {a : ρ} (h : a ∈ q.next pending) :
  a ∈ pending ∨ q.request = some a
  := by
  rw [next] at h
  split_ifs at h
  · have hasked := List.mem_of_mem_drop h
    rw [asked, List.mem_append, Option.mem_toList] at hasked
    apply hasked
  · contradiction

/-- The answer to the oldest request takes it away. -/
theorem exists_of_answered {q : Port ρ δ} {pending : List ρ} (h : q.Owed pending)
    (hcyc : q.cyc = true) (hanswer : (q.ack || q.err) = true) :
  ∃ a, q.asked pending = a :: q.next pending
  := by
  have hanswered : q.answered = true := by rw [answered, hcyc, hanswer, Bool.and_self]
  obtain ⟨a, rest, hasked⟩ := List.exists_cons_of_ne_nil (h.asked hanswered)
  use a
  rw [next_of_cyc hcyc, hanswer, hasked]
  rfl

end Port

end Wishbone
