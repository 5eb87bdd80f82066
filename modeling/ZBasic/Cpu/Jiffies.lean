import ZBasic.Clocked.Run
import ZBasic.Cpu.Peripherals
import Mathlib.Tactic.Use
import Mathlib.Tactic.Push

/-!
# The alarms of the jiffies counter

What `zipjiffies` is for is said by an alarm clock that counts in whole numbers and never
wraps: it keeps every time it is asked for that is still to come, rings when it passes the
nearest of them, and forgets the others then. The jiffies counter rings exactly when this
clock does, as long as no write is taken in at the very clock at which an alarm goes off.
-/

namespace ZBasic

open Clocked

/-! ### The alarm clock -/

/-- An alarm clock that is set to times of `bw` bits. -/
structure AlarmClock (bw : ℕ) where
  /-- The counter. -/
  now : ℤ
  /-- What was written at the clock before. -/
  asked : Option (BitVec bw)
  /-- The times asked for since the last alarm. -/
  pending : List ℤ
  rang : Bool

namespace AlarmClock

variable {bw : ℕ} (c : AlarmClock bw)

/-- The time nearest to now that a value stands for. -/
def due (v : BitVec bw) : ℤ := c.now + (v - BitVec.ofInt bw c.now).toInt

/-- The time asked for, if it is still to come. -/
def ahead : List ℤ := (c.asked.map c.due).toList.filter (c.now < ·)

/-- The time asked for is not to come any more. -/
def late : Bool := c.asked.any (c.due · ≤ c.now)

/-- The clock passes a time that it was asked for. -/
def passes (iCe : Bool) : Bool := iCe && decide (c.now ∈ c.pending)

/-- One step of the alarm clock. -/
def step (i : PeripheralInput bw) : AlarmClock bw where
  now := if i.iReset then 0 else if i.iCe then c.now + 1 else c.now
  asked := if i.iReset || !i.wbWrite then none else some i.iWbData
  pending := if i.iReset then [] else (if c.passes i.iCe then [] else c.pending) ++ c.ahead
  rang := !i.iReset && (c.passes i.iCe || c.late)

/-- The alarm clock at power up. -/
def start : AlarmClock bw where
  now := 0
  asked := none
  pending := []
  rang := false

end AlarmClock

/-! ### Times to go -/

theorem toInt_pred {bw : ℕ} {x : BitVec bw} (h : 0 < x.toInt) :
  (x - 1).toInt = x.toInt - 1
  := by
  have hx := x.isLt
  rw [BitVec.toInt_eq_toNat_cond] at h ⊢
  rw [BitVec.toInt_eq_toNat_cond]
  have hone : (1 : BitVec bw).toNat = 1 % 2 ^ bw := by simp
  rw [BitVec.toNat_sub, hone]
  generalize 2 ^ bw = m at *
  split at h
  · next hlt =>
      have hmod : 1 % m = 1 := Nat.mod_eq_of_lt (by omega)
      have hsum : m - 1 + x.toNat = x.toNat - 1 + m := by omega
      rw [hmod, hsum, Nat.add_mod_right, Nat.mod_eq_of_lt (by omega), if_pos (by omega),
        if_pos hlt]
      omega
  · omega

/-- The counter after a clock. -/
def ticked {bw : ℕ} (r : BitVec bw) (iCe : Bool) : BitVec bw := if iCe then r + 1 else r

/-- A time to come stays where it is, and to come, when the counter steps. -/
theorem toInt_ticked {bw : ℕ} {v r : BitVec bw} {iCe : Bool} (hahead : 0 ≤ (v - r).toInt)
    (hnow : iCe = true → v ≠ r) :
  0 ≤ (v - ticked r iCe).toInt
    ∧ (if iCe then (1 : ℤ) else 0) + (v - ticked r iCe).toInt = (v - r).toInt
  := by
  cases iCe with
  | false => simpa [ticked] using hahead
  | true =>
      have hne : (v - r).toInt ≠ 0 := by
        intro hzero
        apply hnow rfl
        have hsub : v - r = BitVec.ofNat bw 0 := BitVec.eq_of_toInt_eq (by simpa using hzero)
        rw [← BitVec.sub_add_cancel v r, hsub, BitVec.zero_add]
      have hpred := toInt_pred (x := v - r) (by omega)
      rw [ticked, if_pos rfl, if_pos rfl, ← BitVec.sub_sub, hpred]
      omega

namespace Zipjiffies

variable {bw : ℕ}

/-- The registers with an initial value at power up; the others are arbitrary. -/
structure Initial (s : Zipjiffies bw) : Prop where
  rCounter : s.rCounter = 0
  intSet : s.intSet = false
  newSet : s.newSet = false
  oInt : s.oInt = false

/-- The jiffies counter does what the alarm clock does. -/
structure Keeps (s : Zipjiffies bw) (c : AlarmClock bw) : Prop where
  oInt : s.oInt = c.rang
  intSet : s.intSet = true ↔ c.pending ≠ []
  ahead : s.intSet = true → 0 ≤ s.tillWhen.toInt
  pending : s.intSet = true → c.now + s.tillWhen.toInt ∈ c.pending
  nearest : s.intSet = true → ∀ t ∈ c.pending, c.now + s.tillWhen.toInt ≤ t

/-- A write of a time to come is taken in as the alarm goes off. -/
def WrittenOnAlarm (s : Zipjiffies bw) (i : PeripheralInput bw) : Prop :=
  i.iReset = false ∧ s.newSet = true ∧ 0 < s.tillWb.toInt
    ∧ i.iCe = true ∧ s.intSet = true ∧ s.rCounter = s.intWhen

/-- The counter and what was written agree with the alarm clock. -/
structure Fed (s : Zipjiffies bw) (c : AlarmClock bw) : Prop where
  rCounter : s.rCounter = BitVec.ofInt bw c.now
  asked : c.asked = if s.newSet then some s.newWhen else none
  tillWb : s.newSet = true → s.tillWb = s.newWhen - s.rCounter

section Step

variable {s : Zipjiffies bw} {c : AlarmClock bw} {i : PeripheralInput bw}

theorem rCounter_step (hreset : i.iReset = false) :
  (s.step i).rCounter = ticked s.rCounter i.iCe
  := by simp [step, hreset, ticked]

theorem fed_step (h : s.Fed c) :
  (s.step i).Fed (c.step i)
  := by
  constructor
  · cases hreset : i.iReset with
    | true => simp [step, AlarmClock.step, hreset]
    | false =>
        cases hce : i.iCe with
        | true => simp [step, AlarmClock.step, hreset, hce, h.rCounter, BitVec.ofInt_add]
        | false => simp [step, AlarmClock.step, hreset, hce, h.rCounter]
  · cases hreset : i.iReset with
    | true => simp [step, AlarmClock.step, hreset]
    | false => cases hwrite : i.wbWrite <;> simp [step, AlarmClock.step, hreset, hwrite]
  · intro hset
    have hreset : i.iReset = false := by
      by_contra hreset
      simp [step, hreset] at hset
    rw [rCounter_step hreset]
    cases hce : i.iCe with
    | true =>
        simp only [step, ticked, hce, if_true, BitVec.ofBool_true]
        rw [BitVec.sub_sub]
        congr 2
        apply BitVec.eq_of_toNat_eq
        simp
    | false =>
        simp only [step, ticked, hce]
        simp

/-- What is asked for lies as far ahead as the jiffies counter finds it to be. -/
theorem Fed.due (h : s.Fed c) (hset : s.newSet = true) :
  c.due s.newWhen = c.now + s.tillWb.toInt
  := by rw [AlarmClock.due, h.tillWb hset, h.rCounter]

theorem Fed.ahead (h : s.Fed c) :
  c.ahead = if s.newSet && (BitVec.ofNat bw 0).slt s.tillWb then [c.now + s.tillWb.toInt] else []
  := by
  rw [AlarmClock.ahead, h.asked]
  cases hset : s.newSet with
  | false => rfl
  | true => simp [h.due hset, BitVec.slt, List.filter_singleton]

theorem Fed.late (h : s.Fed c) :
  c.late = (s.newSet && s.tillWb.sle 0)
  := by
  rw [AlarmClock.late, h.asked]
  cases hset : s.newSet with
  | false => rfl
  | true => simp [h.due hset, BitVec.sle]

/-- The clock passes a time it was asked for when the alarm of the jiffies counter goes
off. -/
theorem Keeps.passes (h : s.Keeps c) (iCe : Bool) :
  c.passes iCe = (iCe && s.intSet && s.rCounter = s.intWhen)
  := by
  rw [AlarmClock.passes, Bool.and_assoc]
  congr 1
  rw [Bool.eq_iff_iff, decide_eq_true_iff, Bool.and_eq_true, decide_eq_true_iff]
  constructor
  · intro hmem
    have hset : s.intSet = true := by
      rw [h.intSet]
      apply List.ne_nil_of_mem hmem
    have hahead := h.ahead hset
    have hnearest := h.nearest hset _ hmem
    have hzero : s.tillWhen = BitVec.ofNat bw 0 := BitVec.eq_of_toInt_eq (by rw [BitVec.toInt_zero]; omega)
    rw [tillWhen] at hzero
    use hset
    rw [← BitVec.sub_add_cancel s.intWhen s.rCounter, hzero, BitVec.zero_add]
  · rintro ⟨hset, heq⟩
    have hmem := h.pending hset
    rwa [tillWhen, heq, BitVec.sub_self, BitVec.toInt_zero, Int.add_zero] at hmem

/-- Where the alarm set lies after a clock. -/
theorem tillWhen_step {v : BitVec bw} (hreset : i.iReset = false) (hv : (s.step i).intWhen = v)
    (hahead : 0 ≤ (v - s.rCounter).toInt) (hnow : i.iCe = true → v ≠ s.rCounter) :
  0 ≤ (s.step i).tillWhen.toInt
    ∧ (c.step i).now + (s.step i).tillWhen.toInt = c.now + (v - s.rCounter).toInt
  := by
  obtain ⟨hahead', hsame⟩ := toInt_ticked hahead hnow
  rw [tillWhen, hv, rCounter_step hreset]
  use hahead'
  rw [← hsame, AlarmClock.step, hreset]
  cases i.iCe with
  | true =>
      simp only [if_true, Bool.false_eq_true, if_false]
      omega
  | false => simp

theorem Keeps.oInt_step (h : s.Keeps c) (hfed : s.Fed c) :
  (s.step i).oInt = (c.step i).rang
  := by
  cases hreset : i.iReset with
  | true => simp [step, AlarmClock.step, hreset]
  | false => simp [step, AlarmClock.step, hreset, h.passes, hfed.late]

/-- An alarm that is not the one written stays, unless it goes off. -/
theorem Keeps.step_unwritten (h : s.Keeps c) (hfed : s.Fed c) (hreset : i.iReset = false)
    (hnone : (s.newSet && (BitVec.ofNat bw 0).slt s.tillWb) = false) :
  (s.step i).Keeps (c.step i)
  := by
  have hwhen : (s.step i).intWhen = s.intWhen := by simp [step, hnone]
  have hpending : (c.step i).pending = if c.passes i.iCe then [] else c.pending := by
    simp [AlarmClock.step, hreset, hfed.ahead, hnone]
  have hset : (s.step i).intSet = (s.intSet && !c.passes i.iCe) := by
    simp only [step, hreset, hnone, h.passes, Bool.false_eq_true, if_false]
    cases i.iCe <;> cases s.intSet <;> simp
  have hkept : (s.step i).intSet = true → s.intSet = true ∧ (c.step i).pending = c.pending
      ∧ 0 ≤ (s.step i).tillWhen.toInt
      ∧ (c.step i).now + (s.step i).tillWhen.toInt = c.now + s.tillWhen.toInt := by
    intro hset'
    rw [hset, Bool.and_eq_true, Bool.not_eq_true'] at hset'
    obtain ⟨hset', hpasses⟩ := hset'
    use hset'
    constructor
    · rw [hpending, hpasses, if_neg (by decide)]
    · apply tillWhen_step hreset hwhen (h.ahead hset')
      rintro hce heq
      simp [h.passes, hce, hset', heq] at hpasses
  constructor
  · apply h.oInt_step hfed
  · rw [hset, hpending, Bool.and_eq_true, h.intSet]
    cases c.passes i.iCe <;> simp
  · intro hset'
    apply (hkept hset').2.2.1
  · intro hset'
    obtain ⟨hset, hpending, -, hwhere⟩ := hkept hset'
    rw [hwhere, hpending]
    apply h.pending hset
  · intro hset'
    obtain ⟨hset, hpending, -, hwhere⟩ := hkept hset'
    rw [hwhere, hpending]
    apply h.nearest hset

/-- A time to come that is written replaces the alarm set if it is nearer. -/
theorem Keeps.step_written (h : s.Keeps c) (hfed : s.Fed c) (hreset : i.iReset = false)
    (hnew : s.newSet = true) (hahead : 0 < s.tillWb.toInt) (hok : ¬ s.WrittenOnAlarm i) :
  (s.step i).Keeps (c.step i)
  := by
  have hslt : (BitVec.ofNat bw 0).slt s.tillWb = true := by simpa [BitVec.slt] using hahead
  have htill := hfed.tillWb hnew
  have hoff : i.iCe = true → s.intSet = true → s.intWhen ≠ s.rCounter := by
    intro hce hset heq
    apply hok
    exact ⟨hreset, hnew, hahead, hce, hset, heq.symm⟩
  have hpasses : c.passes i.iCe = false := by
    rw [h.passes]
    by_contra hpasses
    simp only [Bool.not_eq_false, Bool.and_eq_true, decide_eq_true_eq] at hpasses
    apply hoff hpasses.1.1 hpasses.1.2 hpasses.2.symm
  have hpending : (c.step i).pending = c.pending ++ [c.now + s.tillWb.toInt] := by
    simp [AlarmClock.step, hreset, hfed.ahead, hnew, hslt, hpasses]
  have hset : (s.step i).intSet = true := by simp [step, hreset, hnew, hslt]
  -- The written time is set, or a time that is no later stays.
  have hwhere : 0 ≤ (s.step i).tillWhen.toInt
      ∧ (((s.step i).tillWhen.toInt + (c.step i).now = c.now + s.tillWb.toInt
          ∧ (s.intSet = true → s.tillWb.toInt ≤ s.tillWhen.toInt))
        ∨ (s.intSet = true ∧ s.tillWhen.toInt ≤ s.tillWb.toInt
          ∧ (s.step i).tillWhen.toInt + (c.step i).now = c.now + s.tillWhen.toInt)) := by
    by_cases hnearer : s.intSet = true → s.tillWb.toInt < s.tillWhen.toInt
    · have hwhen : (s.step i).intWhen = s.newWhen := by
        cases hs : s.intSet with
        | false => simp [step, hnew, hslt, hs]
        | true =>
            have hlt : s.tillWb.slt s.tillWhen = true := by simpa [BitVec.slt] using hnearer hs
            simp [step, hnew, hslt, hlt]
      obtain ⟨hahead', hsame⟩ := tillWhen_step (c := c) hreset hwhen
        (by rw [← htill]; omega) (by
          rintro - heq
          rw [htill, heq, BitVec.sub_self, BitVec.toInt_zero] at hahead
          omega)
      use hahead'
      left
      rw [htill]
      refine ⟨by omega, ?_⟩
      intro hs
      have := hnearer hs
      rw [htill] at this
      omega
    · push Not at hnearer
      obtain ⟨hs, hle⟩ := hnearer
      have hwhen : (s.step i).intWhen = s.intWhen := by
        have : s.tillWb.slt s.tillWhen = false := by simpa [BitVec.slt] using hle
        simp [step, hs, this]
      obtain ⟨hahead', hsame⟩ := tillWhen_step (c := c) hreset hwhen (h.ahead hs)
        (fun hce => hoff hce hs)
      use hahead'
      right
      rw [tillWhen] at hle ⊢
      exact ⟨hs, hle, by omega⟩
  obtain ⟨hahead', hcases⟩ := hwhere
  constructor
  · apply h.oInt_step hfed
  · simp [hset, hpending]
  · intro _
    apply hahead'
  · intro _
    rw [hpending, List.mem_append, List.mem_singleton]
    rcases hcases with ⟨hsame, -⟩ | ⟨hs, -, hsame⟩
    · right
      omega
    · left
      have := h.pending hs
      rwa [← hsame, Int.add_comm] at this
  · intro _ t ht
    rw [hpending, List.mem_append, List.mem_singleton] at ht
    rcases ht with ht | rfl
    · have hs : s.intSet = true := by
        rw [h.intSet]
        apply List.ne_nil_of_mem ht
      have := h.nearest hs t ht
      rcases hcases with ⟨hsame, hle⟩ | ⟨-, -, hsame⟩
      · have := hle hs
        omega
      · omega
    · rcases hcases with ⟨hsame, -⟩ | ⟨-, hle, hsame⟩ <;> omega

/-- A reset forgets the alarms. -/
theorem Keeps.step_reset (hreset : i.iReset = true) :
  (s.step i).Keeps (c.step i)
  := by constructor <;> simp [step, AlarmClock.step, hreset]

theorem Keeps.step (h : s.Keeps c) (hfed : s.Fed c) (hok : ¬ s.WrittenOnAlarm i) :
  (s.step i).Keeps (c.step i)
  := by
  cases hreset : i.iReset with
  | true => apply Keeps.step_reset hreset
  | false =>
      cases hnew : s.newSet && (BitVec.ofNat bw 0).slt s.tillWb with
      | false => apply h.step_unwritten hfed hreset hnew
      | true =>
          rw [Bool.and_eq_true] at hnew
          apply h.step_written hfed hreset hnew.1 _ hok
          simpa [BitVec.slt] using hnew.2

/-- A write of a time to come that is taken in as the alarm goes off leaves the alarm set,
to a time that has passed. -/
theorem not_keeps_step (hbad : s.WrittenOnAlarm i) :
  ¬ (s.step i).Keeps (c.step i)
  := by
  obtain ⟨hreset, hnew, hahead, hce, hset, hwhen⟩ := hbad
  intro hkeeps
  have hslt : (BitVec.ofNat bw 0).slt s.tillWb = true := by simpa [BitVec.slt] using hahead
  have hset' : (s.step i).intSet = true := by simp [step, hreset, hnew, hslt]
  have hzero : s.tillWhen = BitVec.ofNat bw 0 := by rw [tillWhen, hwhen, BitVec.sub_self]
  have hstays : (s.step i).intWhen = s.rCounter := by
    have hlt : s.tillWb.slt s.tillWhen = false := by
      rw [hzero]
      simpa [BitVec.slt] using Int.le_of_lt hahead
    simp [step, hset, hlt, hwhen]
  have hahead' := hkeeps.ahead hset'
  rw [tillWhen, hstays, rCounter_step hreset, ticked, if_pos hce, ← BitVec.sub_sub,
    BitVec.sub_self, BitVec.zero_sub] at hahead'
  have hwidth : 0 < bw := by
    by_contra hwidth
    obtain rfl : bw = 0 := by omega
    rw [BitVec.eq_nil s.tillWb] at hahead
    cases hahead
  change 0 ≤ (-BitVec.ofNat bw 1).toInt at hahead'
  rw [BitVec.neg_one_eq_allOnes, BitVec.toInt_allOnes, if_pos hwidth] at hahead'
  cases hahead'

end Step

/-! ### Runs -/

section Runs

variable {s₀ : Zipjiffies bw}

theorem run_fed (hs₀ : s₀.Initial) (inp : ℕ → PeripheralInput bw) (n : ℕ) :
  (run step s₀ inp n).Fed (run AlarmClock.step AlarmClock.start inp n)
  := by
  induction n with
  | zero => constructor <;> simp [AlarmClock.start, hs₀.rCounter, hs₀.newSet]
  | succ n ih => apply fed_step ih

/-- Along a run the jiffies counter does what the alarm clock does if and only if no write of
a time to come is taken in at the clock at which an alarm goes off. -/
theorem keeps_iff (hs₀ : s₀.Initial) (inp : ℕ → PeripheralInput bw) :
  (∀ n, (run step s₀ inp n).Keeps (run AlarmClock.step AlarmClock.start inp n))
    ↔ ∀ n, ¬ (run step s₀ inp n).WrittenOnAlarm (inp n)
  := by
  constructor
  · intro hkeeps n hbad
    apply not_keeps_step hbad (hkeeps (n + 1))
  · intro hok n
    induction n with
    | zero => constructor <;> simp [AlarmClock.start, hs₀.intSet, hs₀.oInt]
    | succ n ih => apply ih.step (run_fed hs₀ inp n) (hok n)

end Runs

/-- The counter at power up. -/
def powerUp : Zipjiffies 32 := ⟨0, false, false, 0, 0, 0, false⟩

theorem powerUp_initial :
  powerUp.Initial
  := ⟨rfl, rfl, rfl, rfl⟩

/-- The counter steps at every clock, and the times of `writes` are written. -/
def writing (writes : ℕ → Option (BitVec 32)) (n : ℕ) : PeripheralInput 32 where
  iReset := false
  iCe := true
  iWbStb := (writes n).isSome
  iWbWe := true
  iWbData := (writes n).getD 0

/-- An alarm is set to time 3. -/
def oneAlarm : ℕ → Option (BitVec 32)
  | 0 => some 3
  | _ + 1 => none

theorem keeps_iff_oneAlarm :
  (run step powerUp (writing oneAlarm) 5).Keeps
    (run AlarmClock.step AlarmClock.start (writing oneAlarm) 5)
  := by
  refine (keeps_iff powerUp_initial _).mpr ?_ 5
  rintro n ⟨-, hnew, -, -, hset, -⟩
  obtain _ | _ | n := n
  · cases hnew
  · cases hset
  · cases hnew

/-- Another alarm is set, and its time is taken in as the first goes off. -/
def nextAlarm : ℕ → Option (BitVec 32)
  | 0 => some 3
  | 2 => some 16
  | _ => none

theorem alarm_lost :
  (run step powerUp (writing nextAlarm) 17).oInt = false
    ∧ (run AlarmClock.step AlarmClock.start (writing nextAlarm) 17).rang = true
    ∧ ¬ ∀ n, (run step powerUp (writing nextAlarm) n).Keeps
      (run AlarmClock.step AlarmClock.start (writing nextAlarm) n)
  := by
  have hlost : (run step powerUp (writing nextAlarm) 17).oInt = false := by decide
  have hrang : (run AlarmClock.step AlarmClock.start (writing nextAlarm) 17).rang = true := by
    decide
  use hlost, hrang
  intro hkeeps
  have hsame := (hkeeps 17).oInt
  rw [hlost, hrang] at hsame
  cases hsame

end Zipjiffies

end ZBasic
