import Mathlib.Data.List.Forall2
import ZBasic.Clocked.Run
import ZBasic.Wbubus.Decompress
import ZBasic.Wbubus.Readcw

/-!
# The command input path

`wbuinput` chains `wbutohex`, `wbureadcw` and `wbudecompress`: characters in, expanded
codewords out. For characters at least five clocks apart the codewords let out are those
of the reader, expanded one after the other.
-/

namespace ZBasic

open Clocked

/-- The registers of `wbuinput`. -/
structure Wbuinput where
  tobits : Wbutohex
  formcw : Wbureadcw
  unpack : Wbudecompress

namespace Wbuinput

/-- The registers as they are at power up. -/
structure Initial (s : Wbuinput) : Prop where
  tobits : s.tobits.oStb = false
  formcw : ∃ oCodword, s.formcw = Wbureadcw.initial oCodword
  unpack : s.unpack.Initial

/-- The byte that comes in at a clock. -/
structure Input where
  iStb : Bool
  iByte : BitVec 8

/-- What `wbureadcw` sees. -/
def formcwInput (s : Wbuinput) : Wbureadcw.Input where
  iStb := s.tobits.oStb
  iValid := s.tobits.oValid
  iHexbits := s.tobits.oHexbits

/-- What `wbudecompress` sees. -/
def unpackInput (s : Wbuinput) : Option Codeword :=
  if s.formcw.oStb then some s.formcw.oCodword else none

/-- One clock of `wbuinput`. -/
def step (s : Wbuinput) (i : Input) : Wbuinput where
  tobits := Wbutohex.step i.iStb i.iByte
  formcw := s.formcw.step s.formcwInput
  unpack := s.unpack.step s.unpackInput

/-- The byte taken in at a clock. -/
def received (i : Input) : List (BitVec 8) := if i.iStb then [i.iByte] else []

/-- The codeword let out at a clock. -/
def emitted (s : Wbuinput) : List Codeword := s.unpack.emitted

/-- A byte as the reader sees it: six bits, or an invalid character. -/
def hexbitsOf (b : BitVec 8) : Option (BitVec 6) :=
  if (Wbutohex.step true b).oValid then some (Wbutohex.step true b).oHexbits else none

/-- The character shown to the reader. -/
def shown (s : Wbuinput) : List (Option (BitVec 6)) :=
  if s.tobits.oStb then [if s.tobits.oValid then some s.tobits.oHexbits else none] else []

theorem step_shown (s : Wbuinput) (i : Input) :
  (s.step i).shown = (received i).map hexbitsOf
  := by cases hi : i.iStb <;> simp [shown, step, received, hexbitsOf, Wbutohex.step, hi]

/-- The age after a clock. -/
def nextAge (age : ℕ) (i : Input) : ℕ := if i.iStb then 1 else age + 1

/-! ### The reader follows the characters -/

/-- The codeword that `wbureadcw` lets out at a clock. -/
def framed (s : Wbuinput) : List Codeword := if s.formcw.oStb then [s.formcw.oCodword] else []

/-- `wbutohex` and `wbureadcw` are as they should be, `age` clocks after the last character,
when the reader is at `r` and the codewords `pend` are on their way through `wbureadcw`. -/
structure Follows (s : Wbuinput) (age : ℕ) (r : Reader) (pend : List (List (BitVec 6))) :
    Prop where
  reads : Reads s.formcw r pend
  shown : s.tobits.oStb = true → age = 1
  pend : pend ≠ [] → 2 ≤ age ∧ age ≤ 3 ∧ (s.formcw.oStb = false → age = 2)

namespace Follows

variable {s : Wbuinput} {i : Input} {age : ℕ} {r : Reader} {pend : List (List (BitVec 6))}

theorem initial (h : s.Initial) :
  s.Follows 5 Reader.start []
  := by
  obtain ⟨oCodword, hformcw⟩ := h.formcw
  constructor
  · rw [hformcw]
    apply initial_reads
  · simp [h.tobits]
  · simp

/-- A clock at which the reader sees a character. -/
theorem step_read (h : s.Follows age r pend) (hi : i.iStb = true → 5 ≤ age)
    (hstb : s.tobits.oStb = true) :
  pend = [] ∧ i.iStb = false ∧ ∃ c, s.shown = [c]
    ∧ (s.step i).Follows (nextAge age i) (r.feed c).1 (r.feed c).2
  := by
  have hage := h.shown hstb
  have hsilent : i.iStb = false := by
    by_contra hi'
    have := hi (by simpa using hi')
    omega
  have hnil : pend = [] := by
    by_contra hne
    have := h.pend hne
    omega
  subst hnil
  obtain ⟨c, hc, hstep⟩ : ∃ c, s.shown = [c]
      ∧ Reads (s.formcw.step s.formcwInput) (r.feed c).1 (r.feed c).2 := by
    cases hv : s.tobits.oValid with
    | true =>
        use some s.tobits.oHexbits
        constructor
        · simp [Wbuinput.shown, hstb, hv]
        · apply h.reads.step_group hstb hv
    | false =>
        use none
        constructor
        · simp [Wbuinput.shown, hstb, hv]
        · apply h.reads.step_newline hstb hv
  have hnext : nextAge age i = 2 := by simp [nextAge, hsilent, hage]
  use rfl, hsilent, c, hc
  rw [hnext]
  constructor
  · apply hstep
  · simp [Wbuinput.step, Wbutohex.step, hsilent]
  · simp

/-- A clock at which the reader sees no character. -/
theorem step_silent (h : s.Follows age r pend) (hi : i.iStb = true → 5 ≤ age)
    (hstb : s.tobits.oStb = false) :
  (s.step i).Follows (nextAge age i) r (if s.formcw.oStb then [] else pend)
  := by
  constructor
  · apply h.reads.step_silent hstb
  · intro hs
    have : i.iStb = true := hs
    simp [nextAge, this]
  · intro hne
    have hcw : s.formcw.oStb = false := by
      by_contra hcw
      simp [hcw] at hne
    simp only [hcw, Bool.false_eq_true, if_false] at hne
    obtain ⟨hage, hage', hcomplete⟩ := h.pend hne
    have hage : age = 2 := hcomplete hcw
    have hnext : nextAge age i = 3 := by
      unfold nextAge
      grind
    have hstb' : (s.step i).formcw.oStb = true := h.reads.oStb_step hne hcw
    simp [hstb', hnext]

/-- What the reader is at, and what is on its way, after any clock. -/
theorem step (h : s.Follows age r pend) (hi : i.iStb = true → 5 ≤ age) :
  (s.step i).Follows (nextAge age i) (r.feedAll s.shown).1
    ((if s.formcw.oStb then [] else pend) ++ (r.feedAll s.shown).2)
  := by
  cases hstb : s.tobits.oStb with
  | true =>
      obtain ⟨rfl, -, c, hc, hstep⟩ := h.step_read hi hstb
      rw [hc, Reader.feedAll_singleton]
      simpa using hstep
  | false =>
      have hshown : s.shown = [] := by simp [Wbuinput.shown, hstb]
      rw [hshown, Reader.feedAll, List.append_nil]
      apply h.step_silent hi hstb

/-- The codeword let out is the one that was on its way. -/
theorem framed_carries (h : s.Follows age r pend) :
  List.Forall₂ Carries s.framed (if s.formcw.oStb then pend else [])
  := by
  cases hcw : s.formcw.oStb with
  | true =>
      obtain ⟨gs, rfl, hgs⟩ := h.reads.carries_of_oStb hcw
      simpa [framed, hcw] using hgs
  | false => simp [framed, hcw]

end Follows

/-! ### What one clock preserves -/

/-- What holds, `age` clocks after the last character, when the reader has seen the
characters `read`, the codewords `pend` are on their way through `wbureadcw`, the raw
codewords `raw` have been passed on and the codewords `ws` have been let out. -/
structure Inv (t₀ : Table) (age : ℕ) (read : List (Option (BitVec 6)))
    (pend : List (List (BitVec 6))) (raw ws : List Codeword) (s : Wbuinput) : Prop where
  reads : Reads s.formcw (Reader.start.feedAll read).1 pend
  carried : ∃ done, (Reader.start.feedAll read).2 = done ++ pend ∧ List.Forall₂ Carries raw done
  unpack : s.unpack.Inv
  table : s.unpack.table = t₀.nextAll raw
  out : ws ++ s.unpack.pending = t₀.outAll raw
  shown : s.tobits.oStb = true → age = 1
  pend : pend ≠ [] → s.unpack.rStb = 0#3 ∧ 2 ≤ age ∧ age ≤ 3 ∧ (s.formcw.oStb = false → age = 2)
  rStb : s.unpack.rStb = 1#3 → 3 ≤ age ∧ age ≤ 4
  rStb' : s.unpack.rStb = 2#3 → 4 ≤ age ∧ age ≤ 5
  rStb'' : s.unpack.rStb = 4#3 → 5 ≤ age ∧ age ≤ 6 ∨ age = 1
  oStb : s.unpack.oStb = true → age ≤ 7

theorem Initial.inv {s : Wbuinput} (h : s.Initial) :
  s.Inv s.unpack.table 5 [] [] [] []
  := by
  obtain ⟨oCodword, hformcw⟩ := h.formcw
  have hr := h.unpack.rStb
  constructor
  · rw [hformcw]
    apply initial_reads
  · use []
    simp [Reader.feedAll]
  · apply h.unpack.inv
  · rfl
  · rw [h.unpack.pending]
    rfl
  · simp [h.tobits]
  · simp
  · simp [hr]
  · simp [hr]
  · simp [hr]
  · simp [h.unpack.oStb]

variable {t₀ : Table} {age : ℕ} {read : List (Option (BitVec 6))}
  {pend : List (List (BitVec 6))} {raw ws : List Codeword} {s : Wbuinput} {i : Input}

theorem Inv.follows (h : s.Inv t₀ age read pend raw ws) :
  s.Follows age (Reader.start.feedAll read).1 pend
  := by
  constructor
  · apply h.reads
  · apply h.shown
  · intro hne
    apply (h.pend hne).2

/-- A clock at which the reader sees a character. -/
theorem Inv.step_read (h : s.Inv t₀ age read pend raw ws) (hi : i.iStb = true → 5 ≤ age)
    (hstb : s.tobits.oStb = true) :
  ∃ pend', (s.step i).Inv t₀ (nextAge age i) (read ++ s.shown) pend' raw (ws ++ s.emitted)
  := by
  have hage := h.shown hstb
  obtain ⟨rfl, hsilent, c, hc, hfollows⟩ := h.follows.step_read hi hstb
  have hr : s.unpack.rStb = 0#3 ∨ s.unpack.rStb = 4#3 := by
    rcases h.unpack.oneHot with hr | hr | hr | hr
    · left
      apply hr
    · have := h.rStb hr
      omega
    · have := h.rStb' hr
      omega
    · right
      apply hr
  have hfeed : Reader.start.feedAll (read ++ s.shown)
      = (((Reader.start.feedAll read).1.feed c).1, (Reader.start.feedAll read).2
        ++ ((Reader.start.feedAll read).1.feed c).2) := by
    rw [hc, Reader.feedAll_append, Reader.feedAll_singleton]
  have hin : s.unpackInput = none := by simp [unpackInput, h.reads.oStb_of_nil]
  obtain ⟨done, hdone, hcarried⟩ := h.carried
  obtain ⟨hinv, htable, hout⟩ := Wbudecompress.step_none h.unpack
  obtain ⟨hone, htwo, hfour, hlet, hzero, hlast⟩ := Wbudecompress.step_none_rStb h.unpack
  have hr' : (s.unpack.step none).rStb = 0#3 := by
    rcases hr with hr | hr
    · apply hzero hr
    · apply hlast hr
  use ((Reader.start.feedAll read).1.feed c).2
  have hnext : nextAge age i = 2 := by simp [nextAge, hsilent, hage]
  rw [hnext] at hfollows ⊢
  constructor
  · rw [hfeed]
    apply hfollows.reads
  · use done
    rw [hfeed, hdone, List.append_nil]
    exact ⟨rfl, hcarried⟩
  · simpa [step, hin] using hinv
  · simp [step, hin, htable, h.table]
  · rw [← h.out, ← hout]
    simp [step, hin, emitted]
  · apply hfollows.shown
  · intro hne
    use by simp [step, hin, hr'], (hfollows.pend hne).1
    apply (hfollows.pend hne).2
  · simp [step, hin, hr']
  · simp [step, hin, hr']
  · simp [step, hin, hr']
  · simp

/-- A clock at which the reader sees no character. -/
theorem Inv.step_silent (h : s.Inv t₀ age read pend raw ws) (hi : i.iStb = true → 5 ≤ age)
    (hstb : s.tobits.oStb = false) :
  ∃ pend' raw', (s.step i).Inv t₀ (nextAge age i) read pend' raw' (ws ++ s.emitted)
  := by
  obtain ⟨done, hdone, hcarried⟩ := h.carried
  have hfollows := h.follows.step_silent hi hstb
  cases hcw : s.formcw.oStb with
  | true =>
      obtain ⟨gs, rfl, hgs⟩ := h.reads.carries_of_oStb hcw
      obtain ⟨hr, hage, hage', -⟩ := h.pend (by simp)
      have hsilent : i.iStb = false := by
        by_contra hi'
        have := hi (by simpa using hi')
        omega
      have hin : s.unpackInput = some s.formcw.oCodword := by simp [unpackInput, hcw]
      have hnext : nextAge age i = age + 1 := by simp [nextAge, hsilent]
      have hemit : s.emitted = s.unpack.pending := Wbudecompress.emitted_of_rStb hr
      obtain ⟨hinv, htable, hout⟩ := Wbudecompress.step_some hr s.formcw.oCodword
      obtain ⟨hone, hlet⟩ := Wbudecompress.step_some_rStb hr s.formcw.oCodword
      rw [hcw, if_pos rfl] at hfollows
      use [], raw ++ [s.formcw.oCodword]
      constructor
      · apply hfollows.reads
      · use done ++ [gs]
        rw [hdone, List.append_nil]
        use rfl
        apply List.rel_append hcarried
        simpa using hgs
      · simpa [step, hin] using hinv
      · rw [step, hin, htable, h.table, Table.nextAll_append]
        rfl
      · rw [hemit, h.out, step, hin, hout, h.table, Table.outAll_append]
        rfl
      · apply hfollows.shown
      · simp
      · intro _
        omega
      · simp [step, hin, hone]
      · simp [step, hin, hone]
      · simp [step, hin, hlet]
  | false =>
      have hin : s.unpackInput = none := by simp [unpackInput, hcw]
      obtain ⟨hinv, htable, hout⟩ := Wbudecompress.step_none h.unpack
      obtain ⟨hone, htwo, hfour, hlet, hzero, hlast⟩ := Wbudecompress.step_none_rStb h.unpack
      rw [hcw, if_neg (by simp)] at hfollows
      use pend, raw
      constructor
      · apply hfollows.reads
      · use done
      · simpa [step, hin] using hinv
      · simp [step, hin, htable, h.table]
      · rw [← h.out, ← hout]
        simp [step, hin, emitted]
      · apply hfollows.shown
      · intro hne
        have hr := (h.pend hne).1
        use by simp [step, hin, hzero hr]
        apply hfollows.pend hne
      · simp [step, hin, hone]
      · intro hr
        rw [step, hin] at hr
        have hage := h.rStb (htwo hr)
        unfold nextAge
        grind
      · intro hr
        rw [step, hin] at hr
        have hage := h.rStb' (hfour hr)
        unfold nextAge
        grind
      · intro hs
        rw [step, hin] at hs
        have hage := h.rStb'' (hlet hs)
        unfold nextAge
        grind

/-! ### Runs -/

/-- The clocks since the last character, and at least five before the first one. -/
def ageAt (inp : ℕ → Input) : ℕ → ℕ
  | 0 => 5
  | n + 1 => nextAge (ageAt inp n) (inp n)

/-- Characters are at least five clocks apart. -/
def Spaced (inp : ℕ → Input) : Prop :=
  ∀ m n, m < n → (inp m).iStb = true → (inp n).iStb = true → m + 5 ≤ n

/-- The bytes taken in before clock `n`. -/
def bytes (inp : ℕ → Input) (n : ℕ) : List (BitVec 8) := log (fun k => received (inp k)) n

/-- The codewords let out before clock `n`. -/
def words (s₀ : Wbuinput) (inp : ℕ → Input) (n : ℕ) : List Codeword :=
  log (fun k => (run step s₀ inp k).emitted) n

variable {s₀ : Wbuinput} {inp : ℕ → Input}

/-- The age is the distance to the last character, if there has been one. -/
theorem ageAt_eq (inp : ℕ → Input) (n : ℕ) :
  5 ≤ ageAt inp n ∨ ∃ m < n, (inp m).iStb = true ∧ n = m + ageAt inp n
  := by
  induction n with
  | zero =>
      left
      apply Nat.le_refl
  | succ n ih =>
      cases hi : (inp n).iStb with
      | true =>
          right
          use n, Nat.lt_succ_self n, hi
          simp [ageAt, nextAge, hi]
      | false =>
          have hnext : ageAt inp (n + 1) = ageAt inp n + 1 := by simp [ageAt, nextAge, hi]
          rcases ih with hage | ⟨m, hm, hchar, hage⟩
          · left
            omega
          · right
            use m, Nat.lt_succ_of_lt hm, hchar
            omega

theorem five_le_ageAt (h : Spaced inp) {n : ℕ} (hi : (inp n).iStb = true) :
  5 ≤ ageAt inp n
  := by
  rcases ageAt_eq inp n with hage | ⟨m, hm, hchar, hage⟩
  · apply hage
  · have := h m n hm hchar hi
    omega

/-- Once no more characters come in the age grows. -/
theorem le_ageAt {N : ℕ} (h : ∀ n, N ≤ n → (inp n).iStb = false) (k : ℕ) :
  k ≤ ageAt inp (N + k)
  := by
  induction k with
  | zero => apply Nat.zero_le
  | succ k ih =>
      have hi := h (N + k) (Nat.le_add_right N k)
      rw [← Nat.add_assoc, ageAt, nextAge, hi]
      simpa using ih

/-- What the registers hold along a run follows the characters that have come in. -/
theorem run_inv (h₀ : s₀.Initial) (hspaced : Spaced inp) (n : ℕ) :
  ∃ read pend raw, (run step s₀ inp n).Inv s₀.unpack.table (ageAt inp n) read pend raw (words s₀ inp n)
    ∧ read ++ (run step s₀ inp n).shown = (bytes inp n).map hexbitsOf
  := by
  induction n with
  | zero =>
      use [], [], [], h₀.inv
      simp [Wbuinput.shown, h₀.tobits, bytes]
  | succ n ih =>
      obtain ⟨read, pend, raw, hinv, hread⟩ := ih
      have hage := five_le_ageAt (n := n) hspaced
      have hbytes : (bytes inp (n + 1)).map hexbitsOf
          = read ++ (run step s₀ inp n).shown ++ (received (inp n)).map hexbitsOf := by
        rw [hread, bytes, log_succ, List.map_append, bytes]
      rw [hbytes, run_succ, words, log_succ]
      cases hstb : (run step s₀ inp n).tobits.oStb with
      | true =>
          obtain ⟨pend', hinv'⟩ := hinv.step_read hage hstb
          use read ++ (run step s₀ inp n).shown, pend', raw, hinv'
          rw [step_shown]
      | false =>
          obtain ⟨pend', raw', hinv'⟩ := hinv.step_silent hage hstb
          use read, pend', raw', hinv'
          rw [step_shown]
          simp [Wbuinput.shown, hstb]

/-- Eight clocks after the last character the codewords let out are those of the reader,
expanded one after the other. -/
theorem words_eq (h₀ : s₀.Initial) (hspaced : Spaced inp) {N : ℕ}
    (hend : ∀ n, N ≤ n → (inp n).iStb = false) {n : ℕ} (hn : N + 8 ≤ n) :
  ∃ raw, words s₀ inp n = s₀.unpack.table.outAll raw
    ∧ List.Forall₂ Carries raw (Reader.start.feedAll ((bytes inp n).map hexbitsOf)).2
  := by
  obtain ⟨read, pend, raw, hinv, hread⟩ := run_inv h₀ hspaced n
  have hage : 8 ≤ ageAt inp n := by
    obtain ⟨k, rfl⟩ := Nat.exists_eq_add_of_le hn
    have := le_ageAt hend (8 + k)
    rw [← Nat.add_assoc] at this
    omega
  have hshown : (run step s₀ inp n).shown = [] := by
    cases hs : (run step s₀ inp n).tobits.oStb with
    | true =>
        have := hinv.shown hs
        omega
    | false => simp [Wbuinput.shown, hs]
  have hnil : pend = [] := by
    by_contra hne
    have := hinv.pend hne
    omega
  have hpending : (run step s₀ inp n).unpack.pending = [] := by
    have hr : (run step s₀ inp n).unpack.rStb = 0#3 := by
      rcases hinv.unpack.oneHot with hr | hr | hr | hr
      · apply hr
      · have := hinv.rStb hr
        omega
      · have := hinv.rStb' hr
        omega
      · have := hinv.rStb'' hr
        omega
    have hstb : (run step s₀ inp n).unpack.oStb = false := by
      by_contra hs
      have := hinv.oStb (by simpa using hs)
      omega
    simp [Wbudecompress.pending, hr, hstb]
  obtain ⟨done, hdone, hcarried⟩ := hinv.carried
  use raw
  constructor
  · rw [← hinv.out, hpending, List.append_nil]
  · rw [← hread, hshown, List.append_nil, hdone, hnil, List.append_nil]
    apply hcarried

end Wbuinput

end ZBasic
