import ZBasic.Host.Framing

/-!
# Sessions on the wire

A session of calls, sent character by character with at least five clocks between two of
them, comes out of the command input path as the codewords it is meant to be, exactly
when no `readv` of it asks for eight words from one address.
-/

namespace ZBasic

open Clocked

namespace Ttybus

/-- The characters of a session. -/
def sessionChars (h : Ttybus) (cs : List (Call × Answers)) : List (BitVec 8) :=
  (h.session cs).flatMap Item.chars

/-- The device, run from `s₀` on `inp`, is sent the characters of the session, at least
five clocks apart. -/
structure Sent (inp : ℕ → Wbuinput.Input) (h : Ttybus) (cs : List (Call × Answers)) : Prop where
  spaced : Wbuinput.Spaced inp
  chars : ∃ N, Wbuinput.bytes inp N = h.sessionChars cs ∧ ∀ n, N ≤ n → (inp n).iStb = false

/-- From some clock on the codewords let out are those the session is meant to be. -/
def Framed (s₀ : Wbuinput) (inp : ℕ → Wbuinput.Input) (h : Ttybus)
    (cs : List (Call × Answers)) : Prop :=
  ∃ t, ∀ n, t ≤ n → h.Intended cs (Wbuinput.words s₀ inp n)

variable {s₀ : Wbuinput} {inp : ℕ → Wbuinput.Input} {h : Ttybus} {cs : List (Call × Answers)}
  {t : Table}

theorem hexbitsOf_sessionChars (h : Ttybus) (cs : List (Call × Answers)) :
  (h.sessionChars cs).map Wbuinput.hexbitsOf = (h.session cs).flatMap Item.symbols
  := by
  rw [sessionChars, List.map_flatMap]
  simp only [hexbitsOf_chars]

/-- What is let out in the end: the commands of the session, expanded one after the
other. -/
theorem words_of_sent (hs₀ : s₀.Initial) (hcs : ∀ c ∈ cs, c.1.WellFormed) (hsent : Sent inp h cs) :
  ∃ t, ∀ n, t ≤ n → ∃ raw, Wbuinput.words s₀ inp n = s₀.unpack.table.outAll raw
    ∧ List.Forall₂ Carries raw (h.sessionCommands cs)
  := by
  obtain ⟨N, hchars, hend⟩ := hsent.chars
  use N + 8
  intro n hn
  obtain ⟨raw, hwords, hcarried⟩ := Wbuinput.words_eq hs₀ hsent.spaced hend hn
  use raw, hwords
  have hbytes : Wbuinput.bytes inp n = h.sessionChars cs := by
    rw [← hchars]
    apply log_eq_of_silent (by omega)
    intro k hk _
    simp [Wbuinput.received, hend k hk]
  have hyields := h.yields_session hcs
  rw [Yields] at hyields
  rw [hbytes, hexbitsOf_sessionChars, Reader.start, hyields] at hcarried
  apply hcarried

/-- A fresh host agrees with every table whose pointer is where its own is. -/
theorem Initial.synced (hh : h.Initial) (ht : t.wrAddr = 0) :
  Synced t h
  := by
  constructor
  · rw [ht, hh.mWraddr]
  · intro x _ hvalid
    rw [hh.mWrloaded, hh.mWraddr] at hvalid
    rcases hvalid with hloaded | hlt
    · cases hloaded
    · bv_omega

/-- A session comes out as it is meant to be, if it has no bad read. -/
theorem framed_of_not_readsEightInPlace (hs₀ : s₀.Initial) (hh : h.Initial)
    (hcs : ∀ c ∈ cs, c.1.WellFormed) (hsent : Sent inp h cs)
    (hok : ∀ c ∈ cs, ¬ c.1.ReadsEightInPlace) :
  Framed s₀ inp h cs
  := by
  obtain ⟨t, ht⟩ := words_of_sent hs₀ hcs hsent
  use t
  intro n hn
  obtain ⟨raw, hwords, hraw⟩ := ht n hn
  rw [hwords]
  apply intended_out (hh.synced hs₀.unpack.wrAddr) hcs hok hraw

/-- And only then. -/
theorem not_readsEightInPlace_of_framed (hs₀ : s₀.Initial) (hcs : ∀ c ∈ cs, c.1.WellFormed)
    (hsent : Sent inp h cs) (hframed : Framed s₀ inp h cs) :
  ∀ c ∈ cs, ¬ c.1.ReadsEightInPlace
  := by
  obtain ⟨t, ht⟩ := words_of_sent hs₀ hcs hsent
  obtain ⟨t', ht'⟩ := hframed
  obtain ⟨raw, hwords, hraw⟩ := ht (max t t') (le_max_left _ _)
  have hintended := ht' (max t t') (le_max_right _ _)
  rw [hwords] at hintended
  apply not_readsEightInPlace cs hcs hraw hintended

/-! ### Sending at a steady pace -/

/-- A character every five clocks. -/
def paced (bs : List (BitVec 8)) (n : ℕ) : Wbuinput.Input :=
  if n % 5 = 0 then
    match bs[n / 5]? with
    | some b => ⟨true, b⟩
    | none => ⟨false, 0⟩
  else ⟨false, 0⟩

theorem paced_spaced (bs : List (BitVec 8)) :
  Wbuinput.Spaced (paced bs)
  := by
  have hmul : ∀ n, (paced bs n).iStb = true → n % 5 = 0 := by
    intro n hn
    by_contra hne
    simp [paced, hne] at hn
  intro m n hmn hm hn
  have := hmul m hm
  have := hmul n hn
  omega

theorem paced_silent (bs : List (BitVec 8)) {n : ℕ} (hn : 5 * bs.length ≤ n) :
  (paced bs n).iStb = false
  := by
  have hnone : bs[n / 5]? = none := by
    rw [List.getElem?_eq_none_iff]
    omega
  rw [paced, hnone]
  split <;> rfl

theorem bytes_paced (bs : List (BitVec 8)) {k : ℕ} (hk : k ≤ bs.length) :
  Wbuinput.bytes (paced bs) (5 * k) = bs.take k
  := by
  induction k with
  | zero => rfl
  | succ k ih =>
      have hget : bs[k]? = some bs[k] := List.getElem?_eq_getElem hk
      have hfirst : Wbuinput.received (paced bs (5 * k)) = [bs[k]] := by
        rw [paced, if_pos (Nat.mul_mod_right 5 k), Nat.mul_div_cancel_left k (by decide), hget]
        rfl
      have hrest : ∀ j, 5 * k + 1 ≤ j → j < 5 * k + 5 → Wbuinput.received (paced bs j) = [] := by
        intro j hj hj'
        rw [paced, if_neg (by omega)]
        rfl
      rw [Wbuinput.bytes, Nat.mul_succ, log_eq_of_silent (by omega) hrest, log_succ, hfirst,
        ← Wbuinput.bytes, ih (Nat.le_of_lt hk), List.take_append_getElem]

theorem sent_paced (h : Ttybus) (cs : List (Call × Answers)) :
  Sent (paced (h.sessionChars cs)) h cs
  := by
  constructor
  · apply paced_spaced
  · use 5 * (h.sessionChars cs).length
    constructor
    · rw [bytes_paced _ (Nat.le_refl _), List.take_length]
    · intro n hn
      apply paced_silent _ hn

/-! ### When a session comes out as it is meant to be -/

/-- A session comes out as it is meant to be exactly when no `readv` in it asks for eight
words from one address, after blocks of 512. -/
theorem framed_iff (hs₀ : s₀.Initial) (hh : h.Initial) (hcs : ∀ c ∈ cs, c.1.WellFormed)
    (hsent : Sent inp h cs) :
  Framed s₀ inp h cs ↔ ∀ c ∈ cs, ¬ c.1.ReadsEightInPlace
  := ⟨not_readsEightInPlace_of_framed hs₀ hcs hsent,
    framed_of_not_readsEightInPlace hs₀ hh hcs hsent⟩

/-- The host at the start. -/
def init : Ttybus where
  mAddrSet := false
  mLastaddr := 0
  mWraddr := 0
  mWrloaded := false
  mWritetbl _ := 0

theorem init_initial :
  init.Initial
  := ⟨rfl, rfl, rfl⟩

/-- The command input path at power up. -/
def powerUp : Wbuinput where
  tobits := ⟨false, false, 0⟩
  formcw := Wbureadcw.initial 0
  unpack :=
    { table := ⟨0, fun _ => 0⟩, rWord := 0, cmdAddr := 0, rAddr := 0, rdLen := 0, cword := 0
      rStb := 0, oStb := false, oWord := 0 }

theorem powerUp_initial :
  powerUp.Initial
  := ⟨rfl, ⟨0, rfl⟩, ⟨rfl, rfl, rfl⟩⟩

/-- Nine words read from one address, and two written. -/
def nineAndTwo : List (Call × Answers) :=
  [(.readv 0x1000 false 9, some (true, 0x1000)), (.writev 0x2000 true [5, 5], none)]

theorem framed_iff_nineAndTwo :
  Framed powerUp (paced (init.sessionChars nineAndTwo)) init nineAndTwo
  := by
  have hcs : ∀ c ∈ nineAndTwo, c.1.WellFormed := by
    simp [nineAndTwo, Call.WellFormed]
  apply (framed_iff powerUp_initial init_initial hcs (sent_paced init nineAndTwo)).mpr
  decide

/-- Eight words read from one address. -/
def eight : List (Call × Answers) := [(.readv 0x1000 false 8, none)]

/-- The read of eight words from one address is not framed. -/
theorem eight_not_framed :
  Sent (paced (init.sessionChars eight)) init eight
    ∧ (∀ c ∈ eight, c.1.WellFormed)
    ∧ ¬ Framed powerUp (paced (init.sessionChars eight)) init eight
  := by
  have hcs : ∀ c ∈ eight, c.1.WellFormed := by
    simp [eight, Call.WellFormed]
  refine ⟨sent_paced init eight, hcs, ?_⟩
  intro hframed
  have hbad := not_readsEightInPlace_of_framed powerUp_initial hcs (sent_paced init eight) hframed
  revert hbad
  decide

end Ttybus

end ZBasic
