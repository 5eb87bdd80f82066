import ZBasic.Wishbone.Memory

/-!
# A master that only reads

Such a master has requests accepted, some of which are still to be answered. The bus answers
them in the order in which they were accepted, at the clock of the request or later, with the
word that was asked for or with an error. A cycle that is dropped abandons what is
outstanding.
-/

namespace Wishbone

variable {A V : Type*}

/-- What a master that only reads does at a clock, and what it is answered. -/
structure Read (A V : Type*) where
  cyc : Bool
  request : Option A
  ack : Bool
  err : Bool
  data : V

namespace Read

/-- The requests that can be answered at a clock. -/
def asked (q : Read A V) (pending : List A) : List A := pending ++ q.request.toList

/-- A request is answered at this clock. -/
def answered (q : Read A V) : Bool := q.cyc && (q.ack || q.err)

/-- The requests outstanding after a clock. -/
def next (q : Read A V) (pending : List A) : List A :=
  if q.cyc then
    if q.answered then (q.asked pending).tail else q.asked pending
  else []

/-- What is answered at a clock: the address, and the word unless it is an error. -/
def reply (q : Read A V) (pending : List A) : List (A × Option V) :=
  if q.answered then
    (q.asked pending).head?.toList.map fun a => (a, if q.ack then some q.data else none)
  else []

/-- The bus answers only what it has been asked, if need be at the clock after the cycle was
dropped. It answers the requests of a cycle in order, with the words of `mem` or an error. -/
structure Answers (mem : A → V) (pending : List A) (q : Read A V) : Prop where
  asked : (q.ack || q.err) = true → q.asked pending ≠ []
  single : q.cyc = true → q.ack = true → q.err = false
  data : q.cyc = true → q.ack = true → (q.asked pending).head?.map mem = some q.data

theorem reply_of_not_answered {q : Read A V} (h : q.answered = false) (pending : List A) :
  q.reply pending = []
  := by rw [reply, h, if_neg Bool.false_ne_true]

/-- What is answered is the oldest request. -/
theorem reply_cons {q : Read A V} (h : q.answered = true) {pending rest : List A} {a : A}
    (hasked : q.asked pending = a :: rest) :
  q.reply pending = [(a, if q.ack then some q.data else none)]
  := by
  rw [reply, h, if_pos rfl, hasked]
  rfl

end Read

/-- The requests that are not answered before each clock. -/
def unanswered (q : ℕ → Read A V) : ℕ → List A
  | 0 => []
  | n + 1 => (q n).next (unanswered q n)

end Wishbone
