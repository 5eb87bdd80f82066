import Mathlib.Data.List.Basic
import Mathlib.Logic.Function.Basic

/-!
# A memory behind a pipelined Wishbone bus

Requests are carried out in the order in which they are accepted, and each is
acknowledged once, at a later clock; the acknowledgement of a read brings the word that
was read.
-/

namespace Wishbone

variable {A V : Type*}

/-- What a master asks for at a clock. -/
structure Request (A V : Type*) where
  cyc : Bool
  stb : Bool
  we : Bool
  addr : A
  data : V

/-- A memory, and the words its outstanding requests will be answered with, the oldest
one first; what comes with the acknowledgement of a write is of no account. -/
structure Slave (A V : Type*) where
  mem : A → V
  pending : List V

namespace Slave

section Step

variable [DecidableEq A]

/-- One clock of the memory; a cycle that is dropped abandons what is outstanding. -/
def step (b : Slave A V) (q : Request A V) (stall ack : Bool) : Slave A V where
  mem := if q.stb && !stall && q.we then Function.update b.mem q.addr q.data else b.mem
  pending :=
    if q.cyc then
      (if ack then b.pending.tail else b.pending)
        ++ (if q.stb && !stall then [b.mem q.addr] else [])
    else []

/-- The data lines at a clock; without an acknowledgement they may carry anything. -/
def answer (b : Slave A V) (ack : Bool) (junk : V) : V :=
  if ack then b.pending.headD junk else junk

end Step

end Slave

/-- The memory serves a master that raises `stb`: it acknowledges only what is
outstanding, and sooner or later it accepts what is asked for and acknowledges what is
outstanding. -/
structure Serves (stb : ℕ → Bool) (pending : ℕ → List V) (stall ack : ℕ → Bool) : Prop where
  earlier : ∀ n, ack n = true → pending n ≠ []
  accepts : ∀ n, stb n = true → ∃ m, n ≤ m ∧ stb m = true ∧ stall m = false
  answers : ∀ n, pending n ≠ [] → ∃ m, n ≤ m ∧ ack m = true

/-! ### The words on their way -/

/-- The words from number `a` up to number `r`. -/
def window (word : ℕ → V) (a r : ℕ) : List V := (List.range' a (r - a)).map word

@[simp]
theorem length_window (word : ℕ → V) (a r : ℕ) :
  (window word a r).length = r - a
  := by simp [window]

@[simp]
theorem window_self (word : ℕ → V) (a : ℕ) :
  window word a a = []
  := by simp [window]

theorem window_cons (word : ℕ → V) {a r : ℕ} (h : a < r) :
  window word a r = word a :: window word (a + 1) r
  := by
  have hlen : r - a = (r - (a + 1)) + 1 := by omega
  rw [window, hlen, List.range'_succ, List.map_cons, window]

theorem window_snoc (word : ℕ → V) {a r : ℕ} (h : a ≤ r) :
  window word a (r + 1) = window word a r ++ [word r]
  := by
  have hlen : r + 1 - a = (r - a) + 1 := by omega
  have hlast : a + (r - a) = r := by omega
  rw [window, hlen, List.range'_1_concat, List.map_append, hlast]
  rfl

end Wishbone
