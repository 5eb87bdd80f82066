import Mathlib.Data.BitVec
import Mathlib.Tactic.Use

/-!
# Asynchronous serial lines

A byte is sent over a line as a frame of ten bits: a start bit, which is low, the eight bits of
the byte, the least significant one first, and a stop bit, which is high. Each bit is on the
line for a fixed number `c` of clocks. Between the frames the line is high.
-/

namespace Serial

/-- The bits of the frame of a byte. -/
def bitOf (b : BitVec 8) : ℕ → Bool
  | 0 => false
  | k + 1 => if k < 8 then b.getLsbD k else true

theorem bitOf_of_ge (b : BitVec 8) {k : ℕ} (hk : 9 ≤ k) :
  bitOf b k = true
  := by
  cases k with
  | zero => cases hk
  | succ k =>
      rw [bitOf, if_neg (by omega)]

/-- A frame on the line: its byte, the bit that is on the line and for how long it has been. -/
@[ext]
structure Frame where
  byte : BitVec 8
  bit : ℕ
  clock : ℕ

/-- The level of the line. -/
def level : Option Frame → Bool
  | none => true
  | some f => bitOf f.byte f.bit

/-- What is left of the frame a clock later. -/
def Frame.next (c : ℕ) (f : Frame) : Option Frame :=
  if f.clock + 1 < c then some { f with clock := f.clock + 1 }
  else if f.bit < 9 then some { f with bit := f.bit + 1, clock := 0 }
  else none

/-- The frames of the bytes sent. The frame of a byte starts a clock after the byte is sent. -/
def frames (c : ℕ) (sent : ℕ → Option (BitVec 8)) : ℕ → Option Frame
  | 0 => none
  | n + 1 =>
      match sent n with
      | some b => some ⟨b, 0, 0⟩
      | none => (frames c sent n).bind (Frame.next c)

/-- The line carries the bytes sent, each in a frame of its own. -/
structure Carries (c : ℕ) (sent : ℕ → Option (BitVec 8)) (line : ℕ → Bool) : Prop where
  /-- No byte is sent until the frame of the byte before is over. -/
  apart : ∀ n, sent n ≠ none → (frames c sent n).bind (Frame.next c) = none
  level : ∀ n, line n = level (frames c sent n)

variable {c : ℕ} {sent : ℕ → Option (BitVec 8)}

theorem frames_succ_of_none {n : ℕ} (h : sent n = none) :
  frames c sent (n + 1) = (frames c sent n).bind (Frame.next c)
  := by rw [frames, h]

theorem frames_succ_of_some {n : ℕ} {b : BitVec 8} (h : sent n = some b) :
  frames c sent (n + 1) = some ⟨b, 0, 0⟩
  := by rw [frames, h]

/-- A frame on the line has at most ten bits, each of `c` clocks. -/
theorem frame_bounds (hc : 0 < c) {n : ℕ} {f : Frame} (h : frames c sent n = some f) :
  f.bit ≤ 9 ∧ f.clock < c
  := by
  induction n generalizing f with
  | zero => cases h
  | succ n ih =>
      cases hsent : sent n with
      | some b =>
          rw [frames_succ_of_some hsent] at h
          cases h
          exact ⟨Nat.zero_le 9, hc⟩
      | none =>
          rw [frames_succ_of_none hsent, Option.bind_eq_some_iff] at h
          obtain ⟨g, hg, hnext⟩ := h
          obtain ⟨hbit, hclock⟩ := ih hg
          rw [Frame.next] at hnext
          split_ifs at hnext with hlast hstop
          · cases hnext
            exact ⟨hbit, hlast⟩
          · cases hnext
            exact ⟨hstop, hc⟩

/-- A frame on the line is that of a byte sent when it says. -/
theorem sent_of_frames (hc : 0 < c) {n : ℕ} {f : Frame} (h : frames c sent n = some f) :
  ∃ m, sent m = some f.byte ∧ n = m + 1 + c * f.bit + f.clock
  := by
  induction n generalizing f with
  | zero => cases h
  | succ n ih =>
      cases hsent : sent n with
      | some b =>
          rw [frames_succ_of_some hsent] at h
          cases h
          use n, hsent
          simp
      | none =>
          rw [frames_succ_of_none hsent, Option.bind_eq_some_iff] at h
          obtain ⟨g, hg, hnext⟩ := h
          obtain ⟨m, hm, hn⟩ := ih hg
          have hclock := (frame_bounds hc hg).2
          rw [Frame.next] at hnext
          split_ifs at hnext with hlast hstop
          · cases hnext
            use m, hm
            change n + 1 = m + 1 + c * g.bit + (g.clock + 1)
            omega
          · cases hnext
            use m, hm
            change n + 1 = m + 1 + c * (g.bit + 1) + 0
            rw [Nat.mul_succ]
            omega

namespace Carries

variable {line : ℕ → Bool} (h : Carries c sent line)
include h

/-- The frame lasts as long as it has a next clock. -/
theorem frames_next {n : ℕ} {f g : Frame} (hf : frames c sent n = some f)
    (hnext : f.next c = some g) :
  frames c sent (n + 1) = some g
  := by
  have hsent : sent n = none := by
    by_contra hsent
    have := h.apart n hsent
    rw [hf, Option.bind_some, hnext] at this
    cases this
  rw [frames_succ_of_none hsent, hf, Option.bind_some, hnext]

theorem frames_succ_clock {n k p : ℕ} {b : BitVec 8} (hf : frames c sent n = some ⟨b, k, p⟩)
    (hp : p + 1 < c) :
  frames c sent (n + 1) = some ⟨b, k, p + 1⟩
  := h.frames_next hf (if_pos hp)

theorem frames_succ_bit {n k p : ℕ} {b : BitVec 8} (hf : frames c sent n = some ⟨b, k, p⟩)
    (hk : k < 9) (hp : p + 1 = c) :
  frames c sent (n + 1) = some ⟨b, k + 1, 0⟩
  := by
  apply h.frames_next hf
  rw [Frame.next, if_neg (by simp only; omega), if_pos hk]

/-- Each bit is on the line for `c` clocks. -/
theorem frames_clock {n k : ℕ} {b : BitVec 8} (hf : frames c sent n = some ⟨b, k, 0⟩) {p : ℕ}
    (hp : p < c) :
  frames c sent (n + p) = some ⟨b, k, p⟩
  := by
  induction p with
  | zero => apply hf
  | succ p ih => apply h.frames_succ_clock (ih (by omega)) hp

/-- The bits of a frame are on the line one after the other. -/
theorem frames_bit (hc : 0 < c) {n : ℕ} {b : BitVec 8} (hsent : sent n = some b) {k : ℕ}
    (hk : k ≤ 9) :
  frames c sent (n + 1 + c * k) = some ⟨b, k, 0⟩
  := by
  induction k with
  | zero => apply frames_succ_of_some hsent
  | succ k ih =>
      have hlast := h.frames_clock (ih (by omega)) (Nat.sub_one_lt_of_lt hc)
      have hn : n + 1 + c * (k + 1) = n + 1 + c * k + (c - 1) + 1 := by
        rw [Nat.mul_succ]
        omega
      rw [hn]
      apply h.frames_succ_bit hlast (by omega) (by omega)

/-- When a byte is sent, its frame is on the line. -/
theorem frames_of_sent {n : ℕ} {b : BitVec 8} (hsent : sent n = some b) {k p : ℕ} (hk : k ≤ 9)
    (hp : p < c) :
  frames c sent (n + 1 + c * k + p) = some ⟨b, k, p⟩
  := h.frames_clock (h.frames_bit (by omega) hsent hk) hp

/-- After the stop bit there is no frame on the line. -/
theorem frames_over {n : ℕ} {b : BitVec 8} (hc : 0 < c) (hsent : sent n = some b)
    (hquiet : sent (n + 10 * c) = none) :
  frames c sent (n + 10 * c + 1) = none
  := by
  have hn : n + 10 * c = n + 1 + c * 9 + (c - 1) := by omega
  have hlast := h.frames_of_sent hsent (Nat.le_refl 9) (Nat.sub_one_lt_of_lt hc)
  rw [frames_succ_of_none hquiet, hn, hlast, Option.bind_some, Frame.next,
    if_neg (by simp only; omega), if_neg (by simp)]

/-- When one clock of a frame is on the line, so are the others in their time. -/
theorem frames_of_frames {n n' k k' p p' : ℕ} {b : BitVec 8} (hf : frames c sent n = some ⟨b, k, p⟩)
    (hk : k' ≤ 9) (hp : p' < c) (hn : n' + c * k + p = n + c * k' + p') :
  frames c sent n' = some ⟨b, k', p'⟩
  := by
  obtain ⟨m, hm, hsent⟩ := sent_of_frames (by omega) hf
  change n = m + 1 + c * k + p at hsent
  rw [show n' = m + 1 + c * k' + p' by omega]
  apply h.frames_of_sent hm hk hp

/-- When a frame starts, the line was high. -/
theorem level_before {n : ℕ} {b : BitVec 8} (hsent : sent n = some b) :
  Serial.level (frames c sent n) = true
  := by
  have hover := h.apart n (by rw [hsent]; simp)
  cases hframe : frames c sent n with
  | none => rfl
  | some f =>
      rw [hframe, Option.bind_some, Frame.next] at hover
      split_ifs at hover with hlast hstop
      apply bitOf_of_ge
      omega

end Carries

theorem sent_of_frames_start (hc : 0 < c) {n : ℕ} {b : BitVec 8}
    (hf : frames c sent (n + 1) = some ⟨b, 0, 0⟩) :
  sent n = some b
  := by
  obtain ⟨m, hm, hn⟩ := sent_of_frames hc hf
  change n + 1 = m + 1 + c * 0 + 0 at hn
  rw [show n = m by omega]
  apply hm

/-! ### Shift registers -/

/-- A bit is shifted into a register from the top. -/
def shiftIn (x : Bool) (r : BitVec 8) : BitVec 8 := BitVec.ofBool x ++ r.extractLsb' 1 7

theorem getLsbD_shiftIn_top (x : Bool) (r : BitVec 8) :
  (shiftIn x r).getLsbD 7 = x
  := by
  rw [shiftIn, BitVec.getLsbD_append, if_neg (by omega), BitVec.getLsbD_ofBool]
  cases x <;> rfl

theorem getLsbD_shiftIn (x : Bool) (r : BitVec 8) {i : ℕ} (hi : i < 7) :
  (shiftIn x r).getLsbD i = r.getLsbD (i + 1)
  := by
  rw [shiftIn, BitVec.getLsbD_append, if_pos hi, BitVec.getLsbD_extractLsb', Nat.add_comm 1 i]
  simp [hi]

/-! ### Delays -/

/-- A line seen `d` clocks late, high until then. -/
def late (d : ℕ) (line : ℕ → Bool) (n : ℕ) : Bool := if n < d then true else line (n - d)

/-- What is sent, `d` clocks later. -/
def lateSent (d : ℕ) (sent : ℕ → Option (BitVec 8)) (n : ℕ) : Option (BitVec 8) :=
  if n < d then none else sent (n - d)

theorem lateSent_lateSent (d e : ℕ) (sent : ℕ → Option (BitVec 8)) :
  lateSent d (lateSent e sent) = lateSent (e + d) sent
  := by
  funext n
  rw [lateSent, lateSent, lateSent]
  split_ifs
  · rfl
  · omega
  · rfl
  · omega
  · omega
  · rw [Nat.sub_sub, Nat.add_comm d e]

theorem frames_lateSent (c d : ℕ) (sent : ℕ → Option (BitVec 8)) (n : ℕ) :
  frames c (lateSent d sent) n = if n < d then none else frames c sent (n - d)
  := by
  induction n with
  | zero =>
      split_ifs
      · rfl
      · rw [Nat.zero_sub]
        rfl
  | succ n ih =>
      by_cases hn : n < d
      · have hlate : lateSent d sent n = none := if_pos hn
        rw [frames_succ_of_none hlate, ih, if_pos hn]
        split_ifs with hd
        · rfl
        · rw [show n + 1 - d = 0 by omega]
          rfl
      · rw [if_neg (by omega), frames, lateSent, if_neg hn, ih, if_neg hn,
          show n + 1 - d = n - d + 1 by omega, frames]

/-- A line seen late carries the bytes late. -/
theorem Carries.late {line : ℕ → Bool} (h : Carries c sent line) (d : ℕ) :
  Carries c (lateSent d sent) (late d line)
  := by
  constructor
  · intro n hsent
    rw [frames_lateSent]
    rw [lateSent] at hsent
    split_ifs at hsent with hn
    · cases hsent rfl
    · rw [if_neg hn]
      apply h.apart _ hsent
  · intro n
    rw [frames_lateSent, Serial.late]
    split_ifs
    · rfl
    · apply h.level

/-- The stop bit of a byte starts nine bits after the byte is sent. -/
theorem Carries.stop_iff {line : ℕ → Bool} (h : Carries c sent line) (hc : 0 < c) {b : BitVec 8}
    {n : ℕ} :
  frames c sent n = some ⟨b, 9, 0⟩ ↔ lateSent (1 + c * 9) sent n = some b
  := by
  constructor
  · intro hf
    obtain ⟨m, hm, hn⟩ := sent_of_frames hc hf
    change n = m + 1 + c * 9 + 0 at hn
    rw [lateSent, if_neg (by omega), show n - (1 + c * 9) = m by omega]
    apply hm
  · intro hsent
    rw [lateSent] at hsent
    split_ifs at hsent with hn
    rw [show n = n - (1 + c * 9) + 1 + c * 9 + 0 by omega]
    apply h.frames_of_sent hsent (Nat.le_refl 9) hc

end Serial
