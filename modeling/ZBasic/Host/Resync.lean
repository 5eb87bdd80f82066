import ZBasic.Host.Session

/-!
# Recovering the frames of a line

Whatever characters have come in, a newline makes the reader of the codewords forget what
has been started. From then on it frames the commands that follow as it would from reset.
-/

namespace ZBasic

open Clocked

/-! ### What is meant by some items -/

/-- The groups make up one codeword, by the first of them. -/
def Complete (gs : List (BitVec 6)) : Prop := gs ≠ [] ∧ gs.length = (cwLength (gs.headD 0)).toNat

/-- An item that is a newline or one whole codeword. -/
def Item.WellFormed : Item → Prop
  | command gs => Complete gs
  | newline => True

/-- The last of some codewords is a write. -/
def endsInWrite (done : List (List (BitVec 6))) : Bool :=
  done.getLast?.any fun gs => startsWrite (gs.headD 0)

/-- The codewords that the items are meant to be: a newline is the end of the writes, if the
last codeword was one. -/
def intended (wr : Bool) : List Item → List Command
  | [] => []
  | .command gs :: items => gs :: intended (startsWrite (gs.headD 0)) items
  | .newline :: items => (if wr then [[0x2e]] else []) ++ intended false items

theorem yields_intended {items : List Item} (h : ∀ it ∈ items, it.WellFormed) (wr : Bool) :
  ∃ wr', Yields wr items (intended wr items) wr'
  := by
  induction items generalizing wr with
  | nil =>
      use wr
      apply yields_nil
  | cons it items ih =>
      rw [List.forall_mem_cons] at h
      cases it with
      | command gs =>
          obtain ⟨hne, hlen⟩ := h.1
          cases gs with
          | nil => cases hne rfl
          | cons g gs =>
              obtain ⟨wr', hrest⟩ := ih h.2 (startsWrite g)
              use wr'
              apply (yields_command hlen wr).append hrest
      | newline =>
          obtain ⟨wr', hrest⟩ := ih h.2 false
          use wr'
          apply (yields_newline wr).append hrest

namespace Reader

theorem feed_complete (r : Reader) (c : Option (BitVec 6)) :
  ∀ gs ∈ (r.feed c).2, Complete gs
  := by
  cases c with
  | none =>
      intro gs hgs
      have heq : gs = [0x2e] := by
        cases hwr : r.write <;> simp [feed, hwr] at hgs
        apply hgs
      rw [heq]
      constructor
      · simp
      · rfl
  | some g =>
      intro gs hgs
      by_cases hfull : (r.part ++ [g]).length = (cwLength ((r.part ++ [g]).headD 0)).toNat
      · simp only [feed, if_pos hfull, List.mem_singleton] at hgs
        rw [hgs]
        use by simp, hfull
      · simp only [feed, if_neg hfull, List.not_mem_nil] at hgs

/-- Whatever is read, only whole codewords come out. -/
theorem feedAll_complete (r : Reader) (cs : List (Option (BitVec 6))) :
  ∀ gs ∈ (r.feedAll cs).2, Complete gs
  := by
  induction cs generalizing r with
  | nil => simp [feedAll]
  | cons c cs ih =>
      intro gs hgs
      rw [feedAll, List.mem_append] at hgs
      rcases hgs with hfirst | hrest
      · apply feed_complete r c gs hfirst
      · apply ih _ gs hrest

/-- The reader knows whether the last codeword was a write. -/
theorem write_feedAll (cs : List (Option (BitVec 6))) :
  (start.feedAll cs).1.write = endsInWrite (start.feedAll cs).2
  := by
  induction cs using List.reverseRecOn with
  | nil => rfl
  | append_singleton cs c ih =>
      rw [feedAll_append, feedAll_singleton]
      generalize start.feedAll cs = rd at ih
      obtain ⟨r, done⟩ := rd
      simp only at ih ⊢
      cases c with
      | none =>
          cases hwr : r.write with
          | true =>
              simp only [feed, hwr, if_true, endsInWrite, List.getLast?_concat]
              rfl
          | false =>
              rw [hwr] at ih
              simpa [feed, hwr] using ih
      | some g =>
          by_cases hfull : (r.part ++ [g]).length = (cwLength ((r.part ++ [g]).headD 0)).toNat
          · simp only [feed, if_pos hfull, endsInWrite, List.getLast?_concat]
            rfl
          · simpa only [feed, if_neg hfull, List.append_nil] using ih

end Reader

namespace Wbuinput

/-! ### Runs -/

/-- The codewords that `wbureadcw` lets out before clock `n`. -/
def frames (s₀ : Wbuinput) (inp : ℕ → Input) (n : ℕ) : List Codeword :=
  log (fun k => (run step s₀ inp k).framed) n

variable {s₀ s₁ : Wbuinput} {inp : ℕ → Input} {r : Reader}

/-- The inputs from clock `n` on. -/
def later (inp : ℕ → Input) (n : ℕ) : ℕ → Input := fun k => inp (n + k)

theorem run_later (s₀ : Wbuinput) (inp : ℕ → Input) (n k : ℕ) :
  run step (run step s₀ inp n) (later inp n) k = run step s₀ inp (n + k)
  := by
  induction k with
  | zero => rfl
  | succ k ih =>
      rw [run_succ, ih]
      rfl

theorem frames_later (s₀ : Wbuinput) (inp : ℕ → Input) (n k : ℕ) :
  frames s₀ inp (n + k)
    = frames s₀ inp n ++ frames (run step s₀ inp n) (later inp n) k
  := by
  induction k with
  | zero => simp [frames]
  | succ k ih =>
      rw [← Nat.add_assoc, frames, log_succ, ← frames, ih, frames, frames, frames, log_succ,
        run_later, List.append_assoc]

theorem Spaced.later (h : Spaced inp) (n : ℕ) :
  Spaced (later inp n)
  := by
  intro j k hjk hj hk
  have := h (n + j) (n + k) (by omega) hj hk
  omega

/-- The reader is shown a character one clock after it has come in. -/
theorem Follows.shown_eq_nil {s : Wbuinput} {age : ℕ} {pend : List (List (BitVec 6))}
    (h : s.Follows age r pend) (hage : age ≠ 1) :
  s.shown = []
  := by
  have hstb : s.tobits.oStb = false := by
    by_contra hstb
    apply hage (h.shown (by simpa using hstb))
  simp [Wbuinput.shown, hstb]

/-- The registers follow the reader along a run that starts with nothing on its way. -/
theorem run_follows (h : s₀.Follows 5 r []) (hspaced : Spaced inp) (n : ℕ) :
  ∃ read pend done, (run step s₀ inp n).Follows (ageAt inp n) (r.feedAll read).1 pend
    ∧ (r.feedAll read).2 = done ++ pend ∧ List.Forall₂ Carries (frames s₀ inp n) done
    ∧ read ++ (run step s₀ inp n).shown = (bytes inp n).map hexbitsOf
  := by
  induction n with
  | zero =>
      use [], [], [], h
      simp [Reader.feedAll, frames, bytes, h.shown_eq_nil (by decide)]
  | succ n ih =>
      obtain ⟨read, pend, done, hfollows, hdone, hcarried, hread⟩ := ih
      have hstep := hfollows.step (five_le_ageAt (n := n) hspaced)
      use read ++ (run step s₀ inp n).shown,
        (if (run step s₀ inp n).formcw.oStb then [] else pend)
          ++ ((r.feedAll read).1.feedAll (run step s₀ inp n).shown).2,
        done ++ if (run step s₀ inp n).formcw.oStb then pend else []
      rw [Reader.feedAll_append]
      constructor
      · apply hstep
      · constructor
        · rw [hdone]
          cases (run step s₀ inp n).formcw.oStb <;> simp
        · constructor
          · rw [frames, log_succ]
            apply List.rel_append hcarried
            apply hfollows.framed_carries
          · rw [hread, run_succ, step_shown, bytes, bytes, log_succ, List.map_append]

/-- Five clocks after the last character everything has been let out. -/
theorem frames_of_quiet (h : s₀.Follows 5 r []) (hspaced : Spaced inp) {n : ℕ}
    (hage : 5 ≤ ageAt inp n) :
  (run step s₀ inp n).Follows 5 (r.feedAll ((bytes inp n).map hexbitsOf)).1 []
    ∧ List.Forall₂ Carries (frames s₀ inp n) (r.feedAll ((bytes inp n).map hexbitsOf)).2
  := by
  obtain ⟨read, pend, done, hfollows, hdone, hcarried, hread⟩ := run_follows h hspaced n
  have hnil : pend = [] := by
    by_contra hne
    have := hfollows.pend hne
    omega
  rw [hfollows.shown_eq_nil (by omega), List.append_nil] at hread
  rw [hnil, List.append_nil] at hdone
  rw [hnil] at hfollows
  rw [← hread, hdone]
  constructor
  · constructor
    · apply hfollows.reads
    · intro hstb
      have := hfollows.shown hstb
      omega
    · simp
  · apply hcarried

/-! ### Two runs that frame alike -/

/-- Both let out a codeword, with the same groups, or neither does. -/
def FramesAlike (s s' : Wbuinput) : Prop :=
  s.formcw.oStb = s'.formcw.oStb
    ∧ (s.formcw.oStb = true →
      ∃ gs, Complete gs ∧ Carries s.formcw.oCodword gs ∧ Carries s'.formcw.oCodword gs)

/-- When a codeword is let out depends on the reader alone. -/
theorem Follows.oStb_step {s : Wbuinput} {i : Input} {age : ℕ} {pend : List (List (BitVec 6))}
    (h : s.Follows age r pend) :
  (s.step i).formcw.oStb
    = (decide (pend ≠ []) && !s.formcw.oStb || decide (s.shown = [none]) && r.write)
  := by
  have hends : s.formcw.endsWrite s.formcwInput
      = (decide (s.shown = [none]) && s.formcw.lastcw == 1#2) := by
    cases hstb : s.tobits.oStb <;> cases hv : s.tobits.oValid <;>
      simp [Wbureadcw.endsWrite, formcwInput, Wbuinput.shown, hstb, hv]
  have hstep : (s.step i).formcw.oStb = s.formcw.wStb s.formcwInput := rfl
  rw [hstep, Wbureadcw.wStb, hends]
  cases hreads : h.reads with
  | idle hstb hlen hnil hcons hcarries hlast =>
      have hidle := Reads.idle_wStb h.reads
      simp [hidle, hlast]
  | complete g gs hstb hlen hne hcarries hr => simp [hlen, hne, hstb]
  | strobed g gs hstb hlen hcw hcarries hr =>
      have hquiet : s.tobits.oStb = false := by
        by_contra hs
        have := h.shown (by simpa using hs)
        have := h.pend (by simp)
        omega
      simp [hcw, hstb, Wbuinput.shown, hquiet]

/-- What two runs have in common that are at the same point of the same characters. -/
structure Alike (s s' : Wbuinput) (age : ℕ) (r : Reader) (pend : List (List (BitVec 6))) :
    Prop where
  left : s.Follows age r pend
  right : s'.Follows age r pend
  oStb : s.formcw.oStb = s'.formcw.oStb
  shown : s.shown = s'.shown
  complete : ∀ gs ∈ pend, Complete gs

theorem Alike.framesAlike {s s' : Wbuinput} {age : ℕ} {pend : List (List (BitVec 6))}
    (h : s.Alike s' age r pend) :
  s.FramesAlike s'
  := by
  use h.oStb
  intro hstb
  obtain ⟨gs, hgs, hcarries⟩ := h.left.reads.carries_of_oStb hstb
  obtain ⟨gs', hgs', hcarries'⟩ := h.right.reads.carries_of_oStb (by rwa [← h.oStb])
  obtain rfl : gs = gs' := by simpa [hgs] using hgs'
  use gs, h.complete gs (by simp [hgs]), hcarries

theorem Alike.step {s s' : Wbuinput} {i : Input} {age : ℕ} {pend : List (List (BitVec 6))}
    (h : s.Alike s' age r pend) (hi : i.iStb = true → 5 ≤ age) :
  (s.step i).Alike (s'.step i) (nextAge age i) (r.feedAll s.shown).1
    ((if s.formcw.oStb then [] else pend) ++ (r.feedAll s.shown).2)
  := by
  constructor
  · apply h.left.step hi
  · rw [h.oStb, h.shown]
    apply h.right.step hi
  · rw [h.left.oStb_step, h.right.oStb_step, h.oStb, h.shown]
  · rw [step_shown, step_shown]
  · intro gs hgs
    rcases List.mem_append.mp hgs with hold | hnew
    · apply h.complete gs
      cases hstb : s.formcw.oStb with
      | true => simp [hstb] at hold
      | false => simpa [hstb] using hold
    · apply r.feedAll_complete _ gs hnew

theorem run_alike {s s' : Wbuinput} (h : s.Alike s' 5 r []) (hspaced : Spaced inp) (n : ℕ) :
  ∃ r' pend, (run step s inp n).Alike (run step s' inp n) (ageAt inp n) r' pend
  := by
  induction n with
  | zero => use r, []; apply h
  | succ n ih =>
      obtain ⟨r', pend, halike⟩ := ih
      exact ⟨_, _, halike.step (five_le_ageAt hspaced)⟩

/-! ### After a newline -/

/-- The codewords that the characters before clock `n` complete. -/
def completed (inp : ℕ → Input) (n : ℕ) : List (List (BitVec 6)) :=
  (Reader.start.feedAll ((bytes inp n).map hexbitsOf)).2

/-- What holds when an invalid character, such as a newline, comes in at clock `N`. -/
structure Resynchronises (s₀ s₁ : Wbuinput) (inp : ℕ → Input) (N : ℕ) : Prop where
  /-- Before it, the codewords completed have been let out, and these are whole. -/
  whole : List.Forall₂ Carries (frames s₀ inp N) (completed inp N)
    ∧ ∀ gs ∈ completed inp N, Complete gs
  /-- It makes up the end of the writes, if the last codeword was a write, and nothing else
  is let out. -/
  endOfWrite : ∃ ws, frames s₀ inp (N + 5) = frames s₀ inp N ++ ws
    ∧ List.Forall₂ Carries ws (if endsInWrite (completed inp N) then [[0x2e]] else [])
  /-- From then on codewords are let out at the same clocks, with the same groups, as from
  reset. -/
  asFromReset : ∀ k,
    (run step s₀ inp (N + 5 + k)).FramesAlike (run step s₁ (later inp (N + 5)) k)
  /-- Items that are well formed come out as they are meant to be. -/
  intended : ∀ items k, (∀ it ∈ items, it.WellFormed) →
    bytes (later inp (N + 5)) k = items.flatMap Item.chars →
    (∀ j < 4, (inp (N + 5 + (k + j))).iStb = false) →
    ∃ ws, frames s₀ inp (N + 5 + (k + 4)) = frames s₀ inp (N + 5) ++ ws
      ∧ List.Forall₂ Carries ws (intended false items)

/-- The characters since a clock at which none comes in for a while. -/
theorem bytes_quiet {k : ℕ} (h : ∀ j < 4, (inp (k + j)).iStb = false) :
  bytes inp (k + 4) = bytes inp k ∧ 5 ≤ ageAt inp (k + 4)
  := by
  have hquiet : ∀ j, k ≤ j → j < k + 4 → (inp j).iStb = false := by
    intro j hj hj'
    obtain ⟨d, rfl⟩ := Nat.exists_eq_add_of_le hj
    apply h d (by omega)
  constructor
  · apply log_eq_of_silent (Nat.le_add_right k 4)
    intro j hj hj'
    simp [received, hquiet j hj hj']
  · rcases ageAt_eq inp (k + 4) with hage | ⟨m, hm, hchar, hage⟩
    · apply hage
    · by_contra hlt
      rw [hquiet m (by omega) hm] at hchar
      cases hchar

/-- Where the reader is five clocks after an invalid character. -/
theorem follows_after (h₀ : s₀.Initial) (hspaced : Spaced inp) {N : ℕ}
    (hstb : (inp N).iStb = true) (hnl : hexbitsOf (inp N).iByte = none) :
  (run step s₀ inp (N + 5)).Follows 5 Reader.start []
    ∧ List.Forall₂ Carries (frames s₀ inp (N + 5))
      (completed inp N ++ if endsInWrite (completed inp N) then [[0x2e]] else [])
  := by
  have hquiet : ∀ j < 4, (inp (N + 1 + j)).iStb = false := by
    intro j hj
    by_contra hchar
    have := hspaced N (N + 1 + j) (by omega) hstb (by simpa using hchar)
    omega
  obtain ⟨hbytes, hage⟩ := bytes_quiet hquiet
  have hread : Reader.start.feedAll ((bytes inp (N + 5)).map hexbitsOf)
      = (Reader.start, completed inp N ++ if endsInWrite (completed inp N) then [[0x2e]] else []) := by
    have hlast : (bytes inp (N + 5)).map hexbitsOf = (bytes inp N).map hexbitsOf ++ [none] := by
      have hone : bytes inp (N + 1) = bytes inp N ++ [(inp N).iByte] := by
        simp [bytes, log_succ, received, hstb]
      have hfive : bytes inp (N + 5) = bytes inp (N + 1) := hbytes
      rw [hfive, hone, List.map_append, List.map_singleton, hnl]
    rw [hlast, Reader.feedAll_append, Reader.feedAll_singleton, Reader.feed, Reader.write_feedAll]
    rfl
  have hframes := frames_of_quiet (Follows.initial h₀) hspaced hage
  have hfive : N + 1 + 4 = N + 5 := rfl
  rw [hfive, hread] at hframes
  apply hframes

/-- An invalid character, such as a newline, resynchronises `wbureadcw`, whatever has come
in before. -/
theorem resynchronises (h₀ : s₀.Initial) (h₁ : s₁.Initial) (hspaced : Spaced inp) {N : ℕ}
    (hstb : (inp N).iStb = true) (hnl : hexbitsOf (inp N).iByte = none) :
  Resynchronises s₀ s₁ inp N
  := by
  obtain ⟨hfollows, hframes⟩ := follows_after h₀ hspaced hstb hnl
  have hbefore := frames_of_quiet (Follows.initial h₀) hspaced (five_le_ageAt hspaced hstb)
  constructor
  · use hbefore.2
    apply Reader.feedAll_complete
  · use frames (run step s₀ inp N) (later inp N) 5, frames_later s₀ inp N 5
    have hnew := List.forall₂_drop_append _ _ _ hframes
    have hlen : (frames s₀ inp N).length = (completed inp N).length := hbefore.2.length_eq
    rw [← hlen, frames_later, List.drop_left] at hnew
    apply hnew
  · intro k
    have halike : (run step s₀ inp (N + 5)).Alike s₁ 5 Reader.start [] := by
      have hright := Follows.initial h₁
      constructor
      · apply hfollows
      · apply hright
      · rw [hfollows.reads.oStb_of_nil, hright.reads.oStb_of_nil]
      · rw [hfollows.shown_eq_nil (by decide), hright.shown_eq_nil (by decide)]
      · simp
    obtain ⟨r', pend, hk⟩ := run_alike halike (hspaced.later (N + 5)) k
    rw [run_later] at hk
    apply hk.framesAlike
  · intro items k hitems hbytes hquiet
    obtain ⟨hsame, hage⟩ : bytes (later inp (N + 5)) (k + 4) = bytes (later inp (N + 5)) k
        ∧ 5 ≤ ageAt (later inp (N + 5)) (k + 4) := bytes_quiet hquiet
    have hlater := frames_of_quiet hfollows (hspaced.later (N + 5)) hage
    obtain ⟨wr', hyields⟩ := yields_intended hitems false
    have hchars : (bytes (later inp (N + 5)) (k + 4)).map hexbitsOf = items.flatMap Item.symbols := by
      rw [hsame, hbytes, List.map_flatMap]
      simp only [hexbitsOf_chars]
    have hread : Reader.start.feedAll (items.flatMap Item.symbols)
        = (⟨[], wr'⟩, ZBasic.intended false items) := hyields
    rw [hchars, hread] at hlater
    use frames (run step s₀ inp (N + 5)) (later inp (N + 5)) (k + 4)
    use frames_later s₀ inp (N + 5) (k + 4), hlater.2

/-- Half a write, a newline, and the read of one word. -/
theorem resynchronises_halfWrite :
  Resynchronises Ttybus.powerUp Ttybus.powerUp
    (Ttybus.paced [charenc 0x18, charenc 5, hostNewline, charenc 0x20]) 10
  := by
  apply resynchronises Ttybus.powerUp_initial Ttybus.powerUp_initial (Ttybus.paced_spaced _)
  · rfl
  · decide

end Wbuinput

end ZBasic
