import ZBasic.Wbubus.Exec

/-!
# From codewords to six-bit groups

`wbudeword` lets out a codeword as the six-bit groups it needs, the most significant one
first, and then a newline. A group is carried as seven bits, the top one clear; the
newline is `7'h40`.
-/

namespace ZBasic

open Clocked

/-- `w_len`, the number of groups a codeword is sent as. -/
def wLen (w : Codeword) : BitVec 3 :=
  if w.extractLsb' 33 3 = 0#3 then 1
  else if w.extractLsb' 32 4 = 2#4 then 6
  else if w.extractLsb' 32 4 = 3#4 then 2#3 + (0#1 ++ w.extractLsb' 30 2)
  else if w.extractLsb' 34 2 = 1#2 then 2
  else if w.extractLsb' 34 2 = 2#2 then 1
  else 6

/-- The groups a codeword is sent as. -/
def groups (w : Codeword) : List (BitVec 6) :=
  [w.extractLsb' 30 6, w.extractLsb' 24 6, w.extractLsb' 18 6, w.extractLsb' 12 6,
    w.extractLsb' 6 6, w.extractLsb' 0 6].take (wLen w).toNat

theorem wLen_pos (w : Codeword) :
  wLen w ≠ 0#3
  := by
  have hsum : ∀ b : BitVec 2, 2#3 + (0#1 ++ b) ≠ 0 := by decide
  have := hsum (w.extractLsb' 30 2)
  unfold wLen
  grind

theorem wLen_le (w : Codeword) :
  (wLen w).toNat ≤ 6
  := by
  have hsum : ∀ b : BitVec 2, (2#3 + (0#1 ++ b)).toNat ≤ 6 := by decide
  have := hsum (w.extractLsb' 30 2)
  unfold wLen
  grind

/-- A group on the seven wires between the stages. -/
def hexbits (g : BitVec 6) : BitVec 7 := 0#1 ++ g

/-- The newline on those wires. -/
def nlHexbits : BitVec 7 := 0x40

/-- `o_nl_hexbits[6]` -/
def isNl (b : BitVec 7) : Bool := b.getLsbD 6

@[simp]
theorem isNl_hexbits (g : BitVec 6) :
  isNl (hexbits g) = false
  := by
  revert g
  decide

@[simp]
theorem isNl_nlHexbits :
  isNl nlHexbits = true
  := rfl

/-- The registers of `wbudeword`. -/
structure Wbudeword where
  oStb : Bool
  oNlHexbits : BitVec 7
  rLen : BitVec 3
  rWord : BitVec 30
deriving DecidableEq, Repr

namespace Wbudeword

/-- The registers at power up; `r_word` has no initial value. -/
def initial (rWord : BitVec 30) : Wbudeword where
  oStb := false
  oNlHexbits := 0x40
  rLen := 0#3
  rWord := rWord

/-- The inputs of `wbudeword` at a clock: the codeword offered, if any, and whether the
next stage is busy. -/
structure Input where
  iStb : Option Codeword
  iTxBusy : Bool

/-- `o_busy` -/
def oBusy (s : Wbudeword) : Bool := s.oStb

/-- One clock of `wbudeword`. -/
def step (s : Wbudeword) (i : Input) : Wbudeword :=
  match i.iStb, s.oBusy with
  | some w, false =>
      { rWord := w.extractLsb' 0 30
        oNlHexbits := 0#1 ++ w.extractLsb' 30 6
        oStb := true
        rLen := wLen w }
  | _, _ =>
      { rWord :=
          if !i.iTxBusy && 1#3 < s.rLen then s.rWord.extractLsb' 0 24 ++ s.rWord.extractLsb' 0 6
          else s.rWord
        oNlHexbits :=
          if !i.iTxBusy then
            if 1#3 < s.rLen then 0#1 ++ s.rWord.extractLsb' 24 6
            else if !isNl s.oNlHexbits then 0x40
            else s.oNlHexbits
          else s.oNlHexbits
        oStb := if s.rLen == 0#3 && !i.iTxBusy then false else s.oStb
        rLen := if !i.iTxBusy && s.rLen != 0#3 then s.rLen - 1#3 else s.rLen }

/-- The first `k` groups of a shift register. -/
def shifted : ℕ → BitVec 30 → List (BitVec 7)
  | 0, _ => []
  | k + 1, r =>
      hexbits (r.extractLsb' 24 6) :: shifted k (r.extractLsb' 0 24 ++ r.extractLsb' 0 6)

/-- The groups still to be let out. -/
def pending (s : Wbudeword) : List (BitVec 7) :=
  if s.oStb && s.rLen != 0#3 then s.oNlHexbits :: shifted (s.rLen.toNat - 1) s.rWord else []

/-- The codeword taken in at a clock. -/
def accepted (s : Wbudeword) (i : Input) : List Codeword :=
  if s.oBusy then [] else i.iStb.toList

/-- What is shown is a group as long as groups are left, and the newline after them. -/
structure Inv (s : Wbudeword) : Prop where
  rLen_le : s.rLen.toNat ≤ 6
  idle : s.oStb = false → s.rLen = 0#3
  isNl_iff : s.oStb = true → (isNl s.oNlHexbits = true ↔ s.rLen = 0#3)
  nl_eq : s.oStb = true → s.rLen = 0#3 → s.oNlHexbits = nlHexbits

theorem initial_inv (rWord : BitVec 30) :
  (initial rWord).Inv
  := by
  constructor
  · simp [initial]
  · intro _
    rfl
  · intro h
    cases h
  · intro h
    cases h

theorem shifted_take (k : ℕ) (r : BitVec 30) :
  shifted k r = (shifted (k + 1) r).take k
  := by
  induction k generalizing r with
  | zero => rfl
  | succ k ih =>
      rw [shifted, ih, shifted]
      rfl

/-- The shift register lets out its fields from the top. -/
theorem shifted_five (r : BitVec 30) :
  shifted 5 r = [r.extractLsb' 24 6, r.extractLsb' 18 6, r.extractLsb' 12 6, r.extractLsb' 6 6,
    r.extractLsb' 0 6].map hexbits
  := by
  simp only [shifted, List.map_cons, List.map_nil]
  simp (disch := decide) only [extract_append_high, extract_extract]

theorem shifted_eq_take {k : ℕ} (hk : k ≤ 5) (r : BitVec 30) :
  shifted k r = (shifted 5 r).take k
  := by
  have hback : ∀ j, shifted (5 - j) r = (shifted 5 r).take (5 - j) := by
    intro j
    induction j with
    | zero => rfl
    | succ j ih =>
        rcases Nat.lt_or_ge j 5 with hj | hj
        · rw [shifted_take, show 5 - (j + 1) + 1 = 5 - j by omega, ih, List.take_take]
          congr 1
          omega
        · rw [show 5 - (j + 1) = 5 - j by omega, ih]
  have := hback (5 - k)
  rwa [show 5 - (5 - k) = k by omega] at this

/-- The groups of a codeword are its top one and what the shift register lets out. -/
theorem groups_eq (w : Codeword) :
  (groups w).map hexbits
    = hexbits (w.extractLsb' 30 6) :: shifted ((wLen w).toNat - 1) (w.extractLsb' 0 30)
  := by
  have hlen := wLen_le w
  have hpos : (wLen w).toNat ≠ 0 := by
    intro h
    apply wLen_pos w
    rwa [← BitVec.toNat_inj]
  rw [shifted_eq_take (by omega), shifted_five]
  obtain ⟨n, hn⟩ := Nat.exists_eq_succ_of_ne_zero hpos
  rw [groups, hn, Nat.succ_sub_one, List.take_succ_cons, List.map_cons, List.map_take]
  simp (disch := decide) only [extract_extract]

/-! ### What a clock does -/

/-- The group or newline the next stage takes at a clock. -/
def sent (s : Wbudeword) (i : Input) : List (BitVec 7) :=
  if s.oStb && !i.iTxBusy then [s.oNlHexbits] else []

/-- An idle stage that is offered nothing stays idle. -/
theorem step_idle {s : Wbudeword} {i : Input} (h : s.Inv) (hs : s.oStb = false)
    (hi : i.iStb = none) :
  (s.step i).oStb = false ∧ (s.step i).rLen = 0#3
  := by simp [step, hi, hs, h.idle hs]

/-- An idle stage takes in the codeword it is offered. -/
theorem step_load {s : Wbudeword} {i : Input} {w : Codeword} (hs : s.oStb = false)
    (hi : i.iStb = some w) :
  s.step i = { rWord := w.extractLsb' 0 30
               oNlHexbits := hexbits (w.extractLsb' 30 6)
               oStb := true
               rLen := wLen w }
  := by simp [step, hi, oBusy, hs, hexbits]

private theorem step_of_oStb {s : Wbudeword} {i : Input} (hs : s.oStb = true) :
  s.step i = s.step { i with iStb := none }
  := by cases hi : i.iStb <;> simp [step, hi, oBusy, hs]

/-- A stage with something to send keeps it while the next stage is busy. -/
theorem step_held {s : Wbudeword} {i : Input} (hs : s.oStb = true) (hi : i.iTxBusy = true) :
  s.step i = s
  := by
  rw [step_of_oStb hs]
  simp [step, hi]

/-- Once a group that is not the last has been taken, the next one is shown. -/
theorem step_shift {s : Wbudeword} {i : Input} (hs : s.oStb = true) (hi : i.iTxBusy = false)
    (hlen : 1 < s.rLen.toNat) :
  s.step i = { rWord := s.rWord.extractLsb' 0 24 ++ s.rWord.extractLsb' 0 6
               oNlHexbits := hexbits (s.rWord.extractLsb' 24 6)
               oStb := true
               rLen := s.rLen - 1#3 }
  := by
  have hlt : 1#3 < s.rLen := hlen
  have hne : s.rLen ≠ 0#3 := by
    rintro h
    simp [h] at hlen
  rw [step_of_oStb hs]
  simp [step, hs, hi, hlt, hne, hexbits]

/-- Once the last group has been taken, the newline is shown. -/
theorem step_newline {s : Wbudeword} {i : Input} (h : s.Inv) (hs : s.oStb = true)
    (hi : i.iTxBusy = false) (hlen : s.rLen = 1#3) :
  s.step i = { rWord := s.rWord
               oNlHexbits := nlHexbits
               oStb := true
               rLen := 0#3 }
  := by
  have hnl : isNl s.oNlHexbits = false := by
    have := h.isNl_iff hs
    rw [hlen] at this
    simpa using this
  rw [step_of_oStb hs]
  simp [step, hs, hi, hlen, hnl, nlHexbits]

/-- Once the newline has been taken, the stage is idle. -/
theorem step_done {s : Wbudeword} {i : Input} (hs : s.oStb = true) (hi : i.iTxBusy = false)
    (hlen : s.rLen = 0#3) :
  (s.step i).oStb = false ∧ (s.step i).rLen = 0#3
  := by
  rw [step_of_oStb hs]
  simp [step, hi, hlen]

/-- What a clock can find: an idle stage, with or without an offer, a stage that is held
up, or one whose group, last group or newline is taken. -/
inductive Clock (s : Wbudeword) (i : Input) : Prop
  | idle (hs : s.oStb = false) (hi : i.iStb = none)
  | load (w : Codeword) (hs : s.oStb = false) (hi : i.iStb = some w)
  | held (hs : s.oStb = true) (hi : i.iTxBusy = true)
  | shift (hs : s.oStb = true) (hi : i.iTxBusy = false) (hlen : 1 < s.rLen.toNat)
  | newline (hs : s.oStb = true) (hi : i.iTxBusy = false) (hlen : s.rLen = 1#3)
  | done (hs : s.oStb = true) (hi : i.iTxBusy = false) (hlen : s.rLen = 0#3)

theorem clock (s : Wbudeword) (i : Input) :
  s.Clock i
  := by
  cases hs : s.oStb with
  | false =>
      cases hi : i.iStb with
      | none => apply Clock.idle hs hi
      | some w => apply Clock.load w hs hi
  | true =>
      cases hi : i.iTxBusy with
      | true => apply Clock.held hs hi
      | false =>
          rcases Nat.lt_trichotomy s.rLen.toNat 1 with hlen | hlen | hlen
          · apply Clock.done hs hi
            rw [← BitVec.toNat_inj, BitVec.toNat_zero]
            omega
          · apply Clock.newline hs hi
            rwa [← BitVec.toNat_inj]
          · apply Clock.shift hs hi hlen

theorem inv_of_idle {s : Wbudeword} (hs : s.oStb = false) (hlen : s.rLen = 0#3) :
  s.Inv
  := by
  constructor
  · simp [hlen]
  · intro _
    apply hlen
  · simp [hs]
  · simp [hs]

theorem toNat_rLen_sub {l : BitVec 3} (h : 1 < l.toNat) :
  (l - 1#3).toNat = l.toNat - 1
  := by
  revert l
  decide

theorem step_inv {s : Wbudeword} {i : Input} (h : s.Inv) :
  (s.step i).Inv
  := by
  cases clock s i with
  | idle hs hi =>
      obtain ⟨hs', hlen'⟩ := step_idle h hs hi
      apply inv_of_idle hs' hlen'
  | load w hs hi =>
      rw [step_load hs hi]
      constructor
      · apply wLen_le
      · simp
      · simp [wLen_pos]
      · intro _ hlen
        cases wLen_pos w hlen
  | held hs hi =>
      rw [step_held hs hi]
      apply h
  | shift hs hi hlen =>
      have hsub := toNat_rLen_sub hlen
      have hne : s.rLen - 1#3 ≠ 0#3 := by
        intro h0
        rw [h0, BitVec.toNat_zero] at hsub
        omega
      rw [step_shift hs hi hlen]
      constructor
      · have := h.rLen_le
        simp only [hsub]
        omega
      · simp
      · simp [hne]
      · intro _ h0
        cases hne h0
  | newline hs hi hlen =>
      rw [step_newline h hs hi hlen]
      constructor <;> simp
  | done hs hi hlen =>
      obtain ⟨hs', hlen'⟩ := step_done hs hi hlen
      apply inv_of_idle hs' hlen'

theorem pending_of_rLen {s : Wbudeword} (hlen : s.rLen = 0#3) :
  s.pending = []
  := by simp [pending, hlen]

theorem pending_of_oStb {s : Wbudeword} (hs : s.oStb = false) :
  s.pending = []
  := by simp [pending, hs]

theorem accepted_of_oStb {s : Wbudeword} {i : Input} (hs : s.oStb = true) :
  s.accepted i = []
  := by simp [accepted, oBusy, hs]

/-- A codeword's groups are let out one by one, and its newline once they are out. -/
theorem step_pending {s : Wbudeword} {i : Input} (h : s.Inv) :
  (s.sent i).filter (fun b => !isNl b) ++ (s.step i).pending
    = s.pending ++ ((s.accepted i).flatMap groups).map hexbits
  := by
  cases clock s i with
  | idle hs hi =>
      rw [pending_of_oStb (step_idle h hs hi).1, pending_of_oStb hs]
      simp [sent, accepted, hs, hi]
  | load w hs hi =>
      have haccepted : s.accepted i = [w] := by simp [accepted, oBusy, hs, hi]
      rw [step_load hs hi, pending_of_oStb hs, haccepted]
      simp [sent, hs, pending, wLen_pos, groups_eq]
  | held hs hi =>
      rw [step_held hs hi, accepted_of_oStb hs]
      simp [sent, hi]
  | shift hs hi hlen =>
      have hne : s.rLen ≠ 0#3 := by
        rintro h0
        simp [h0] at hlen
      have hsub := toNat_rLen_sub hlen
      have hne' : s.rLen - 1#3 ≠ 0#3 := by
        intro h0
        rw [h0, BitVec.toNat_zero] at hsub
        omega
      have hnl : isNl s.oNlHexbits = false := by
        have := h.isNl_iff hs
        simpa [hne] using this
      obtain ⟨k, hk⟩ : ∃ k, s.rLen.toNat = k + 2 := ⟨s.rLen.toNat - 2, by omega⟩
      rw [step_shift hs hi hlen, accepted_of_oStb hs]
      simp [sent, hs, hi, hnl, pending, hne, hne', hsub, hk, shifted]
  | newline hs hi hlen =>
      have hnl : isNl s.oNlHexbits = false := by
        have := h.isNl_iff hs
        rw [hlen] at this
        simpa using this
      rw [step_newline h hs hi hlen, accepted_of_oStb hs]
      simp [sent, hs, hi, hnl, pending, hlen, shifted]
  | done hs hi hlen =>
      have hnl : isNl s.oNlHexbits = true := (h.isNl_iff hs).mpr hlen
      rw [pending_of_oStb (step_done hs hi hlen).1, pending_of_rLen hlen, accepted_of_oStb hs]
      simp [sent, hs, hi, hnl]

end Wbudeword

end ZBasic
