import ZBasic.Wbubus.Exec

/-!
# From characters to codewords

`wbutohex` maps a received character to six bits, or marks it invalid; `wbureadcw` puts
the groups of six bits together to codewords. The first group of a codeword tells how
many groups it has. An invalid character, such as a newline, ends a sequence of writes:
it makes up the codeword `6'h2e`, if the last codeword was a write.
-/

namespace ZBasic

open Clocked

/-! ### `wbutohex` -/

/-- The table `remap` of `wbutohex`: the bit `o_valid` and the bits `o_hexbits`. -/
def hexmap (k : BitVec 7) : BitVec 7 :=
  if 48#7 ≤ k ∧ k ≤ 57#7 then 4#3 ++ k.extractLsb' 0 4
  else if 65#7 ≤ k ∧ k ≤ 90#7 then 1#1 ++ (k.extractLsb' 0 6 + 9#6)
  else if 97#7 ≤ k ∧ k ≤ 122#7 then 1#1 ++ (k.extractLsb' 0 6 + 3#6)
  else if k = 64#7 then 1#1 ++ 0x3e#6
  else if k = 37#7 then 1#1 ++ 0x3f#6
  else 0

/-- The registers of `wbutohex`. -/
structure Wbutohex where
  oStb : Bool
  oValid : Bool
  oHexbits : BitVec 6
deriving DecidableEq, Repr

/-- One clock of `wbutohex`. -/
def Wbutohex.step (iStb : Bool) (iByte : BitVec 8) : Wbutohex where
  oStb := iStb
  oValid := if iByte.getLsbD 7 then false else (hexmap (iByte.extractLsb' 0 7)).getLsbD 6
  oHexbits := (hexmap (iByte.extractLsb' 0 7)).extractLsb' 0 6

/-! ### `wbureadcw` -/

/-- The number of groups of a codeword, by its first group. -/
def cwLength (i_hexbits : BitVec 6) : BitVec 3 :=
  if i_hexbits.extractLsb' 4 2 = 3#2 then 2
  else if i_hexbits.extractLsb' 4 2 = 2#2 then 1
  else if i_hexbits.extractLsb' 3 3 = 2#3 then 2
  else if i_hexbits.extractLsb' 3 3 = 1#3 then 2#3 + (0#1 ++ i_hexbits.extractLsb' 1 2)
  else 6

/-- The registers of `wbureadcw`. -/
structure Wbureadcw where
  rLen : BitVec 3
  cwLen : BitVec 3
  lastcw : BitVec 2
  shiftreg : BitVec 36
  oStb : Bool
  oCodword : Codeword
deriving DecidableEq, Repr

namespace Wbureadcw

/-- The registers at power up; `o_codword` has no initial value. -/
def initial (oCodword : Codeword) : Wbureadcw where
  rLen := 0
  cwLen := 0
  lastcw := 0
  shiftreg := 0
  oStb := false
  oCodword := oCodword

/-- The inputs of `wbureadcw` at a clock. -/
structure Input where
  iStb : Bool
  iValid : Bool
  iHexbits : BitVec 6

/-- A newline that ends a sequence of writes. -/
def endsWrite (s : Wbureadcw) (i : Input) : Bool := i.iStb && !i.iValid && s.lastcw == 1#2

/-- `w_stb` -/
def wStb (s : Wbureadcw) (i : Input) : Bool :=
  (s.rLen == s.cwLen && s.cwLen != 0#3) || s.endsWrite i

/-- One clock of `wbureadcw`. -/
def step (s : Wbureadcw) (i : Input) : Wbureadcw where
  rLen :=
    if i.iStb && !i.iValid then 0
    else if s.wStb i then (if i.iStb then 1 else 0)
    else if i.iStb then s.rLen + 1
    else s.rLen
  cwLen :=
    if i.iStb && !i.iValid then 0
    else if i.iStb && (s.cwLen == 0#3 || s.wStb i) then cwLength i.iHexbits
    else if s.wStb i then 0
    else s.cwLen
  lastcw := if s.oStb then s.oCodword.extractLsb' 34 2 else s.lastcw
  shiftreg :=
    if s.wStb i then put s.shiftreg 30 i.iHexbits
    -- the group goes below the `r_len` groups that are already there
    else if i.iStb && s.rLen < 6#3 then put s.shiftreg (30 - 6 * s.rLen.toNat) i.iHexbits
    else s.shiftreg
  oStb := s.wStb i
  oCodword := if s.endsWrite i then put s.oCodword 30 0x2e#6 else s.shiftreg

end Wbureadcw

/-! ### Groups of a codeword -/

/-- The `k`-th group of a codeword, from the top. -/
def group (w : BitVec 36) (k : ℕ) : BitVec 6 := w.extractLsb' (30 - 6 * k) 6

/-- The codeword `w` starts with the groups `gs`. -/
def Carries (w : BitVec 36) (gs : List (BitVec 6)) : Prop :=
  ∀ k (hk : k < gs.length), group w k = gs[k]

theorem carries_nil (w : BitVec 36) :
  Carries w []
  := by
  intro k hk
  cases hk

/-- Writing the group below those carried adds it to them. -/
theorem Carries.snoc {w : BitVec 36} {gs : List (BitVec 6)} (h : Carries w gs)
    (hlen : gs.length < 6) (g : BitVec 6) :
  Carries (put w (30 - 6 * gs.length) g) (gs ++ [g])
  := by
  intro k hk
  rw [List.length_append, List.length_singleton] at hk
  rcases Nat.lt_succ_iff_lt_or_eq.mp hk with hlt | rfl
  · rw [List.getElem_append_left hlt, ← h k hlt]
    apply extract_put_disjoint <;> omega
  · rw [List.getElem_append_right (Nat.le_refl _)]
    simp only [Nat.sub_self, List.getElem_singleton]
    apply extract_put_same
    omega

/-- The first group is written over what is there. -/
theorem carries_singleton (w : BitVec 36) (g : BitVec 6) :
  Carries (put w 30 g) [g]
  := (carries_nil w).snoc (by decide) g

/-- The codeword whose first group is `g` is a write. -/
def startsWrite (g : BitVec 6) : Bool := g.extractLsb' 4 2 == 1#2

theorem Carries.extract_top {w : BitVec 36} {g : BitVec 6} {gs : List (BitVec 6)}
    (h : Carries w (g :: gs)) :
  w.extractLsb' 34 2 = g.extractLsb' 4 2
  := by
  have h0 : group w 0 = g := h 0 (Nat.zero_lt_succ _)
  rw [← h0, group, extract_extract w (by decide)]

/-! ### What the reader does, character by character -/

/-- What is left of the characters read so far: the groups of the codeword that has been
started, and whether the last codeword was a write. -/
structure Reader where
  part : List (BitVec 6)
  write : Bool

namespace Reader

/-- Before any character. -/
def start : Reader := ⟨[], false⟩

/-- One character, `none` being an invalid one: the reader after it and the groups of the
codeword that it completes, if any. -/
def feed (r : Reader) : Option (BitVec 6) → Reader × List (List (BitVec 6))
  | none => (⟨[], false⟩, if r.write then [[0x2e]] else [])
  | some g =>
      let part := r.part ++ [g]
      if part.length = (cwLength (part.headD 0)).toNat then
        (⟨[], startsWrite (part.headD 0)⟩, [part])
      else (⟨part, r.write⟩, [])

/-- A sequence of characters: the reader after it and the groups of the codewords
completed. -/
def feedAll (r : Reader) : List (Option (BitVec 6)) → Reader × List (List (BitVec 6))
  | [] => (r, [])
  | c :: cs => ((feedAll (r.feed c).1 cs).1, (r.feed c).2 ++ (feedAll (r.feed c).1 cs).2)

theorem feedAll_append (r : Reader) (cs cs' : List (Option (BitVec 6))) :
  r.feedAll (cs ++ cs')
    = (((r.feedAll cs).1.feedAll cs').1, (r.feedAll cs).2 ++ ((r.feedAll cs).1.feedAll cs').2)
  := by
  induction cs generalizing r with
  | nil => rfl
  | cons c cs ih => simp only [List.cons_append, feedAll, ih, List.append_assoc]

theorem feedAll_singleton (r : Reader) (c : Option (BitVec 6)) :
  r.feedAll [c] = r.feed c
  := by simp [feedAll]

end Reader

/-! ### The registers follow the reader -/

theorem cwLength_pos (g : BitVec 6) :
  cwLength g ≠ 0#3
  := by
  revert g
  decide

theorem cwLength_le (g : BitVec 6) :
  (cwLength g).toNat ≤ 6
  := by
  revert g
  decide

/-- `Reads s r pend` says that the registers `s` are as they should be when the reader is
at `r` and the codewords `pend` have been completed and not yet let out: none, one whose
last group has just come in, or one that is let out at this clock. -/
inductive Reads (s : Wbureadcw) (r : Reader) : List (List (BitVec 6)) → Prop
  | idle (hstb : s.oStb = false) (hlen : s.rLen.toNat = r.part.length)
      (hnil : r.part = [] → s.cwLen = 0#3)
      (hcons : r.part ≠ [] → s.cwLen = cwLength (r.part.headD 0)
        ∧ r.part.length < (cwLength (r.part.headD 0)).toNat)
      (hcarries : Carries s.shiftreg r.part) (hlast : (s.lastcw == 1#2) = r.write) : Reads s r []
  | complete (g : BitVec 6) (gs : List (BitVec 6)) (hstb : s.oStb = false) (hlen : s.rLen = s.cwLen)
      (hne : s.cwLen ≠ 0#3) (hcarries : Carries s.shiftreg (g :: gs))
      (hr : r = ⟨[], startsWrite g⟩) : Reads s r [g :: gs]
  | strobed (g : BitVec 6) (gs : List (BitVec 6)) (hstb : s.oStb = true) (hlen : s.rLen = 0#3)
      (hcw : s.cwLen = 0#3) (hcarries : Carries s.oCodword (g :: gs))
      (hr : r = ⟨[], startsWrite g⟩) : Reads s r [g :: gs]

theorem initial_reads (oCodword : Codeword) :
  Reads (Wbureadcw.initial oCodword) Reader.start []
  := by
  apply Reads.idle
  · rfl
  · rfl
  · intro _
    rfl
  · intro h
    cases h rfl
  · apply carries_nil
  · rfl

namespace Reads

/-- A codeword that is let out carries the groups that are pending. -/
theorem carries_of_oStb {s : Wbureadcw} {r : Reader} {pend : List (List (BitVec 6))}
    (h : Reads s r pend) (hstb : s.oStb = true) :
  ∃ gs, pend = [gs] ∧ Carries s.oCodword gs
  := by
  cases h with
  | idle hs => simp [hs] at hstb
  | complete g gs hs => simp [hs] at hstb
  | strobed g gs _ _ _ hcarries => exact ⟨g :: gs, rfl, hcarries⟩

theorem oStb_of_nil {s : Wbureadcw} {r : Reader} (h : Reads s r []) :
  s.oStb = false
  := by
  cases h with
  | idle hs => apply hs

variable {s : Wbureadcw} {r : Reader} {i : Wbureadcw.Input}

/-- While no codeword is pending, none is strobed by the length alone. -/
theorem idle_wStb {s : Wbureadcw} {r : Reader} (h : Reads s r []) :
  (s.rLen == s.cwLen && s.cwLen != 0#3) = false
  := by
  cases h with
  | idle _ hlen hnil hcons =>
      by_cases hpart : r.part = []
      · simp [hnil hpart]
      · obtain ⟨hcw, hlt⟩ := hcons hpart
        have hne : s.rLen ≠ s.cwLen := by
          intro heq
          rw [← hcw, ← heq, hlen] at hlt
          apply Nat.lt_irrefl _ hlt
        simp [hne]

/-- A clock without a character lets a pending codeword move on. -/
theorem step_silent {pend : List (List (BitVec 6))} (h : Reads s r pend) (hi : i.iStb = false) :
  Reads (s.step i) r (if s.oStb then [] else pend)
  := by
  have hends : s.endsWrite i = false := by simp [Wbureadcw.endsWrite, hi]
  cases h with
  | idle hstb hlen hnil hcons hcarries hlast =>
      have hidle := idle_wStb (Reads.idle hstb hlen hnil hcons hcarries hlast)
      have hw : s.wStb i = false := by simp [Wbureadcw.wStb, hidle, hends]
      simp only [hstb, Bool.false_eq_true, if_false]
      apply Reads.idle <;> simp_all [Wbureadcw.step]
  | complete g gs hstb hlen hne hcarries hr =>
      have hw : s.wStb i = true := by simp [Wbureadcw.wStb, hlen, hne]
      simp only [hstb, Bool.false_eq_true, if_false]
      apply Reads.strobed <;> simp_all [Wbureadcw.step]
  | strobed g gs hstb hlen hcw hcarries hr =>
      have hw : s.wStb i = false := by simp [Wbureadcw.wStb, hcw, hends]
      have htop := hcarries.extract_top
      subst hr
      simp only [hstb, if_true]
      apply Reads.idle
      · simp [Wbureadcw.step, hw]
      · simp [Wbureadcw.step, hi, hw, hlen]
      · simp [Wbureadcw.step, hi, hw, hcw]
      · simp
      · apply carries_nil
      · simp [Wbureadcw.step, hstb, htop, startsWrite]

/-- A complete codeword is let out one clock later. -/
theorem oStb_step {pend : List (List (BitVec 6))} (h : Reads s r pend) (hne : pend ≠ [])
    (hstb : s.oStb = false) :
  (s.step i).oStb = true
  := by
  cases h with
  | idle => cases hne rfl
  | complete g gs _ hlen hcw => simp [Wbureadcw.step, Wbureadcw.wStb, hlen, hcw]
  | strobed g gs hs => simp [hs] at hstb

/-- A newline ends a sequence of writes, and what has been started of a codeword. -/
theorem step_newline (h : Reads s r []) (hi : i.iStb = true) (hv : i.iValid = false) :
  Reads (s.step i) (r.feed none).1 (r.feed none).2
  := by
  have hidle := h.idle_wStb
  cases h with
  | idle hstb hlen hnil hcons hcarries hlast =>
      have hends : s.endsWrite i = r.write := by simp [Wbureadcw.endsWrite, hi, hv, hlast]
      cases hwrite : r.write with
      | true =>
          simp only [Reader.feed, hwrite, if_true]
          apply Reads.strobed
          · simp [Wbureadcw.step, Wbureadcw.wStb, hends, hwrite]
          · simp [Wbureadcw.step, hi, hv]
          · simp [Wbureadcw.step, hi, hv]
          · simp only [Wbureadcw.step, hends, hwrite, if_true]
            apply carries_singleton
          · rfl
      | false =>
          have hw : s.wStb i = false := by simp [Wbureadcw.wStb, hidle, hends, hwrite]
          simp only [Reader.feed, hwrite, Bool.false_eq_true, if_false]
          apply Reads.idle
          · simp [Wbureadcw.step, hw]
          · simp [Wbureadcw.step, hi, hv]
          · simp [Wbureadcw.step, hi, hv]
          · simp
          · apply carries_nil
          · simp [Wbureadcw.step, hstb, hlast, hwrite]

/-- A group is added to the codeword that has been started, and may complete it. -/
theorem step_group (h : Reads s r []) (hi : i.iStb = true) (hv : i.iValid = true) :
  Reads (s.step i) (r.feed (some i.iHexbits)).1 (r.feed (some i.iHexbits)).2
  := by
  have hidle := h.idle_wStb
  cases h with
  | idle hstb hlen hnil hcons hcarries hlast =>
      have hw : s.wStb i = false := by simp [Wbureadcw.wStb, hidle, Wbureadcw.endsWrite, hv]
      obtain ⟨first, rest, hpart⟩ : ∃ first rest, r.part ++ [i.iHexbits] = first :: rest := by
        cases r.part with
        | nil => use i.iHexbits, []; rfl
        | cons g gs => use g, gs ++ [i.iHexbits]; rfl
      -- the length is known from the first group on
      have hne := cwLength_pos first
      have hcw : (s.step i).cwLen = cwLength first
          ∧ r.part.length < (cwLength first).toNat := by
        by_cases hempty : r.part = []
        · rw [hempty] at hpart
          have hfirst : i.iHexbits = first := (List.cons.inj hpart).1
          constructor
          · simp [Wbureadcw.step, hi, hv, hnil hempty, hfirst]
          · rw [hempty, List.length_nil, Nat.pos_iff_ne_zero]
            intro h0
            apply hne
            rwa [← BitVec.toNat_inj]
        · obtain ⟨g, gs, hgs⟩ := List.exists_cons_of_ne_nil hempty
          have hfirst : r.part.headD 0 = first := by
            rw [hgs] at hpart ⊢
            apply (List.cons.inj hpart).1
          obtain ⟨hcw, hless⟩ := hcons hempty
          rw [hfirst] at hcw hless
          use ?_, hless
          simp [Wbureadcw.step, hi, hv, hw, hcw, hne]
      obtain ⟨hcw, hless⟩ := hcw
      have hlt : r.part.length < 6 := lt_of_lt_of_le hless (cwLength_le first)
      have hlen' : (s.step i).rLen.toNat = (first :: rest).length := by
        rw [← hpart, List.length_append, ← hlen]
        simp only [Wbureadcw.step, hi, hv, hw]
        simp
        omega
      have hcarries' : Carries (s.step i).shiftreg (first :: rest) := by
        have hsix : s.rLen < 6#3 := by
          rw [BitVec.lt_def, hlen]
          apply hlt
        have := hcarries.snoc hlt i.iHexbits
        rw [hpart, ← hlen] at this
        simpa [Wbureadcw.step, hi, hw, hsix] using this
      have hstb' : (s.step i).oStb = false := by simp [Wbureadcw.step, hw]
      simp only [Reader.feed, hpart, List.headD_cons]
      by_cases hfull : (first :: rest).length = (cwLength first).toNat
      · rw [if_pos hfull]
        apply Reads.complete
        · apply hstb'
        · rw [← BitVec.toNat_inj, hlen', hcw, hfull]
        · rw [hcw]
          apply cwLength_pos
        · apply hcarries'
        · rfl
      · rw [if_neg hfull]
        apply Reads.idle
        · apply hstb'
        · apply hlen'
        · simp
        · intro _
          use hcw
          rw [← hpart, List.length_append, List.length_singleton] at hfull ⊢
          simp only [hpart, List.headD_cons]
          omega
        · apply hcarries'
        · simp [Wbureadcw.step, hstb, hlast]

end Reads

end ZBasic
