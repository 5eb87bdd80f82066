import ZBasic.Rtc.Rtcalarm

/-!
# The alarm time is kept

Where the input is checked, the alarm time is what was last written to each of its fields, a clock
later. Where it is taken as valid, the alarm time is not what is written but the bits that mark its
fields as valid.
-/

namespace ZBasic

open Clocked

namespace Rtcalarm

/-- The fields that are marked as valid and are decimal are written. -/
def written (i : Input) (x : Hms) : Hms where
  ss :=
    if i.iValid.getLsbD 0 = true ∧ Rtcbare.Below 60 (Hms.ofBits i.iAlarmTime).ss then
      (Hms.ofBits i.iAlarmTime).ss
    else x.ss
  mm :=
    if i.iValid.getLsbD 1 = true ∧ Rtcbare.Below 60 (Hms.ofBits i.iAlarmTime).mm then
      (Hms.ofBits i.iAlarmTime).mm
    else x.mm
  hh :=
    if i.iValid.getLsbD 2 = true ∧ Rtcbare.Below 24 (Hms.ofBits i.iAlarmTime).hh then
      (Hms.ofBits i.iAlarmTime).hh
    else x.hh

section Runs

variable (c : Config) (s₀ s₁ : Rtcalarm) (inp : ℕ → Input)

/-- The registers before the clock `t`. -/
def state (t : ℕ) : Rtcalarm := run (step c) s₀ inp t

/-- What was last written to the fields before the clock `t`; at first, and after a reset, the time
that is configured. -/
def lastWritten : ℕ → Hms
  | 0 => .ofBits c.optInitialAlarmTime
  | t + 1 =>
      if (inp t).iReset then .ofBits c.optInitialAlarmTime
      else if (inp t).iWr then written (inp t) (lastWritten t)
      else lastWritten t

/-- Whether the alarm is enabled by what was last written. -/
def enabledBy : ℕ → Bool
  | 0 => c.optStartEnabled
  | t + 1 =>
      if (inp t).iReset then c.optStartEnabled
      else if (inp t).iWr then (inp t).iEnable
      else enabledBy t

/-- The time before this clock. -/
def before : ℕ → BitVec 22
  | 0 => s₀.pastTime
  | t + 1 => (inp t).iNow

/-- While the alarm is enabled, the time changes to the alarm time. -/
def comes (t : ℕ) : Bool :=
  enabledBy c inp t
    && ((inp t).iNow = (state c s₀ inp t).alarmTime.bits && (inp t).iNow ≠ before s₀ inp t)

/-- The alarm time is what was last written, where the input is checked a clock later; the alarm
trips when the time comes to it, and stays tripped until it is cleared. -/
structure Keeps : Prop where
  start : (state c s₀ inp 0).alarmTime = .ofBits c.optInitialAlarmTime
  alarmTime : ∀ t, (state c s₀ inp (t + 1)).alarmTime =
    if c.optPrevalidatedInput || (inp t).iReset then lastWritten c inp (t + 1)
    else lastWritten c inp t
  trips : ∀ t, (state c s₀ inp (t + 1)).oAlarm =
    if (inp t).iReset then false
    else comes c s₀ inp t || ((state c s₀ inp t).oAlarm && !((inp t).iWr && (inp t).iClear))

/-- The same, with the input checked. -/
def Config.checked : Config := { c with optPrevalidatedInput := false }

/-- The same, with the input taken as valid. -/
def Config.prevalidated : Config := { c with optPrevalidatedInput := true }

/-- Once they have settled the alarm times agree. -/
def Agree : Prop :=
  ∀ t, (inp t).iWr = false →
    (state c.checked s₀ inp (t + 1)).alarmTime = (state c.prevalidated s₁ inp (t + 1)).alarmTime

/-- What is marked as valid is decimal. -/
structure Promised (i : Input) : Prop where
  ss : i.iWr = true → i.iValid.getLsbD 0 = true → Rtcbare.Below 60 (Hms.ofBits i.iAlarmTime).ss
  mm : i.iWr = true → i.iValid.getLsbD 1 = true → Rtcbare.Below 60 (Hms.ofBits i.iAlarmTime).mm
  hh : i.iWr = true → i.iValid.getLsbD 2 = true → Rtcbare.Below 24 (Hms.ofBits i.iAlarmTime).hh

/-- What is written is the bits that mark it as valid. -/
structure Plain (i : Input) : Prop where
  ss : i.iReset = false → i.iWr = true → i.iValid.getLsbD 0 = true →
    (Hms.ofBits i.iAlarmTime).ss = (Hms.ofBits (i.iValid.setWidth 22)).ss
  mm : i.iReset = false → i.iWr = true → i.iValid.getLsbD 1 = true →
    (Hms.ofBits i.iAlarmTime).mm = (Hms.ofBits (i.iValid.setWidth 22)).mm
  hh : i.iReset = false → i.iWr = true → i.iValid.getLsbD 2 = true →
    (Hms.ofBits i.iAlarmTime).hh = (Hms.ofBits (i.iValid.setWidth 22)).hh

variable {c s₀ s₁ inp} {t : ℕ}

theorem state_succ (t : ℕ) :
  state c s₀ inp (t + 1) = (state c s₀ inp t).step c (inp t)
  := rfl

/-! ### Tripping -/

theorem enabled_eq (h₀ : Initial c s₀) (t : ℕ) :
  (state c s₀ inp t).enabled = enabledBy c inp t
  := by
  induction t with
  | zero => apply h₀.enabled
  | succ t ih => rw [state_succ, enabledBy, ← ih, step]

theorem pastTime_eq (t : ℕ) :
  (state c s₀ inp t).pastTime = before s₀ inp t
  := by
  cases t with
  | zero => rfl
  | succ t => rfl

theorem trips (h₀ : Initial c s₀) (t : ℕ) :
  (state c s₀ inp (t + 1)).oAlarm =
    if (inp t).iReset then false
    else comes c s₀ inp t || ((state c s₀ inp t).oAlarm && !((inp t).iWr && (inp t).iClear))
  := by
  rw [comes, ← enabled_eq h₀ t, ← pastTime_eq t, state_succ]
  simp only [oAlarm, step]
  split_ifs with hreset hcomes hclear
  · rfl
  · rw [hcomes, Bool.true_or]
  · rw [Bool.not_eq_true] at hcomes
    rw [hcomes, hclear, Bool.not_true, Bool.and_false, Bool.or_self]
  · rw [Bool.not_eq_true] at hcomes hclear
    rw [hcomes, hclear, Bool.not_false, Bool.and_true, Bool.false_or]

/-! ### The alarm time -/

/-- What the alarm time will be, once the write that is being checked has taken effect. -/
def pending (s : Rtcalarm) : Hms where
  ss := if s.preValid.ss then s.validatedAlarmTime.ss else s.alarmTime.ss
  mm := if s.preValid.mm then s.validatedAlarmTime.mm else s.alarmTime.mm
  hh := if s.preValid.hh then s.validatedAlarmTime.hh else s.alarmTime.hh

/-- A write that is checked. -/
theorem pending_check (i : Input) (s : Rtcalarm) (hvalid : s.preValid = check i)
    (htime : s.validatedAlarmTime = .ofBits i.iAlarmTime) :
  pending s = written i s.alarmTime
  := by
  simp only [pending, written, hvalid, htime, check, Bool.and_eq_true, Rtcbare.checkSixty_iff,
    Rtcbare.checkHour_iff]

theorem pending_none (s : Rtcalarm) (hvalid : s.preValid = .none) :
  pending s = s.alarmTime
  := by
  rw [pending, hvalid]
  rfl

section Checked

variable (hchecked : c.optPrevalidatedInput = false) (hfixed : c.optFixedAlarmTime = false)
include hchecked hfixed

theorem alarmTime_step_checked (s : Rtcalarm) (i : Input) :
  (s.step c i).alarmTime = if i.iReset then .ofBits c.optInitialAlarmTime else pending s
  := by
  simp only [step, preValidWire, validatedWire, hchecked, hfixed, Bool.false_eq_true, if_false,
    Bool.not_false, if_true, pending]

/-- What is being checked is what was last written. -/
theorem pending_eq (h₀ : Initial c s₀) (t : ℕ) :
  pending (state c s₀ inp t) = lastWritten c inp t
  := by
  induction t with
  | zero =>
      rw [state, run_zero, pending_none _ h₀.preValid, h₀.alarmTime]
      rfl
  | succ t ih =>
      have htime := alarmTime_step_checked hchecked hfixed (state c s₀ inp t) (inp t)
      rw [ih] at htime
      rw [lastWritten, state_succ]
      cases hreset : (inp t).iReset with
      | true =>
          rw [hreset, if_pos rfl] at htime
          rw [if_pos rfl, pending_none, htime]
          simp [step, hreset]
      | false =>
          rw [hreset, if_neg (by decide)] at htime
          rw [if_neg (by decide)]
          cases hwr : (inp t).iWr with
          | true =>
              rw [if_pos rfl, pending_check (inp t), htime]
              · simp [step, hreset, hwr, hfixed]
              · rfl
          | false =>
              rw [if_neg (by decide), pending_none, htime]
              simp [step, hreset, hwr]

/-- Where the input is checked the alarm time is kept. -/
theorem keeps_checked (h₀ : Initial c s₀) :
  Keeps c s₀ inp
  := by
  constructor
  case start => apply h₀.alarmTime
  case alarmTime =>
      intro t
      rw [state_succ, alarmTime_step_checked hchecked hfixed, pending_eq hchecked hfixed h₀,
        hchecked, Bool.false_or]
      cases hreset : (inp t).iReset with
      | true => rw [if_pos rfl, if_pos rfl, lastWritten, hreset, if_pos rfl]
      | false => rfl
  case trips => apply trips h₀

end Checked

/-- A field that is marked as valid is written as it should be if it is the bits that mark it. -/
theorem field_eq_iff {v : ℕ} {valid : Bool} {p : Prop} [Decidable p] (marks time x : BitVec v)
    (hpromised : valid = true → p) :
  (if valid then marks else x) = (if valid = true ∧ p then time else x) ↔
    (valid = true → time = marks)
  := by
  cases valid with
  | false => simp
  | true =>
      rw [if_pos rfl, if_pos ⟨rfl, hpromised rfl⟩]
      constructor
      · intro h _
        apply h.symm
      · intro h
        apply (h rfl).symm

/-- What becomes of the fields where the input is taken as valid. -/
def marked (i : Input) (x : Hms) : Hms where
  ss := if i.iValid.getLsbD 0 then (Hms.ofBits (i.iValid.setWidth 22)).ss else x.ss
  mm := if i.iValid.getLsbD 1 then (Hms.ofBits (i.iValid.setWidth 22)).mm else x.mm
  hh := if i.iValid.getLsbD 2 then (Hms.ofBits (i.iValid.setWidth 22)).hh else x.hh

theorem marked_eq_written_iff {i : Input} (x : Hms) (hpromised : Promised i)
    (hreset : i.iReset = false) (hwr : i.iWr = true) :
  marked i x = written i x ↔ Plain i
  := by
  have hss := field_eq_iff (Hms.ofBits (i.iValid.setWidth 22)).ss (Hms.ofBits i.iAlarmTime).ss x.ss
    (hpromised.ss hwr)
  have hmm := field_eq_iff (Hms.ofBits (i.iValid.setWidth 22)).mm (Hms.ofBits i.iAlarmTime).mm x.mm
    (hpromised.mm hwr)
  have hhh := field_eq_iff (Hms.ofBits (i.iValid.setWidth 22)).hh (Hms.ofBits i.iAlarmTime).hh x.hh
    (hpromised.hh hwr)
  rw [marked, written, Hms.mk.injEq, hss, hmm, hhh]
  constructor
  · intro ⟨hhour, hminute, hsecond⟩
    exact ⟨fun _ _ => hsecond, fun _ _ => hminute, fun _ _ => hhour⟩
  · intro hplain
    exact ⟨hplain.hh hreset hwr, hplain.mm hreset hwr, hplain.ss hreset hwr⟩

/-- Nothing is asked of a clock without a write. -/
theorem plain_of_silent {i : Input} (hsilent : i.iReset = true ∨ i.iWr = false) :
  Plain i
  := by
  have hnot : i.iReset = false → i.iWr = true → False := by
    intro hreset hwr
    rw [hreset, hwr] at hsilent
    rcases hsilent with h | h <;> contradiction
  constructor
  · intro hreset hwr
    cases hnot hreset hwr
  · intro hreset hwr
    cases hnot hreset hwr
  · intro hreset hwr
    cases hnot hreset hwr

section Prevalidated

variable (hprevalidated : c.optPrevalidatedInput = true) (hfixed : c.optFixedAlarmTime = false)
include hprevalidated hfixed

/-- Where the input is taken as valid a write puts the bits of `i_valid` into the alarm time. -/
theorem alarmTime_step_prevalidated (s : Rtcalarm) (i : Input) :
  (s.step c i).alarmTime =
    if i.iReset then .ofBits c.optInitialAlarmTime
    else if i.iWr then marked i s.alarmTime
    else s.alarmTime
  := by
  simp only [step, preValidWire, validatedWire, hprevalidated, hfixed, Bool.not_false, if_true,
    Bool.true_and]
  cases i.iWr with
  | true => rfl
  | false => rfl

/-- The alarm time is kept if only the bits that mark them as valid are written. -/
theorem alarmTime_eq (h₀ : Initial c s₀) (hpromised : ∀ t, Promised (inp t))
    (hplain : ∀ t, Plain (inp t)) (t : ℕ) :
  (state c s₀ inp t).alarmTime = lastWritten c inp t
  := by
  induction t with
  | zero => apply h₀.alarmTime
  | succ t ih =>
      rw [state_succ, alarmTime_step_prevalidated hprevalidated hfixed, ih, lastWritten]
      split_ifs with hreset hwr
      · rfl
      · rw [Bool.not_eq_true] at hreset
        rw [(marked_eq_written_iff _ (hpromised t) hreset hwr).mpr (hplain t)]
      · rfl

theorem keeps_prevalidated (h₀ : Initial c s₀) (hpromised : ∀ t, Promised (inp t))
    (hplain : ∀ t, Plain (inp t)) :
  Keeps c s₀ inp
  := by
  constructor
  case start => apply h₀.alarmTime
  case alarmTime =>
      intro t
      rw [alarmTime_eq hprevalidated hfixed h₀ hpromised hplain, hprevalidated, Bool.true_or,
        if_pos rfl]
  case trips => apply trips h₀

omit hfixed in
/-- An alarm time that is kept is what was last written. -/
theorem Keeps.alarmTime_eq (h : Keeps c s₀ inp) (t : ℕ) :
  (state c s₀ inp t).alarmTime = lastWritten c inp t
  := by
  cases t with
  | zero => apply h.start
  | succ t => rw [h.alarmTime, hprevalidated, Bool.true_or, if_pos rfl]

/-- If the alarm time is kept then only the bits that mark them as valid are written. -/
theorem plain_of_keeps (hpromised : ∀ t, Promised (inp t)) (hkeeps : Keeps c s₀ inp) (t : ℕ) :
  Plain (inp t)
  := by
  have htime := hkeeps.alarmTime_eq hprevalidated (t + 1)
  rw [state_succ, alarmTime_step_prevalidated hprevalidated hfixed,
    hkeeps.alarmTime_eq hprevalidated, lastWritten] at htime
  cases hreset : (inp t).iReset with
  | true => apply plain_of_silent (Or.inl hreset)
  | false =>
      cases hwr : (inp t).iWr with
      | false => apply plain_of_silent (Or.inr hwr)
      | true =>
          rw [hreset, hwr] at htime
          apply (marked_eq_written_iff _ (hpromised t) hreset hwr).mp htime

end Prevalidated

/-- Alarm times that are both kept agree. -/
theorem agree_of_keeps (hchecked : Keeps c.checked s₀ inp)
    (hprevalidated : Keeps c.prevalidated s₁ inp) :
  Agree c s₀ s₁ inp
  := by
  intro t hwr
  have hlast : ∀ t, lastWritten c.checked inp t = lastWritten c.prevalidated inp t := by
    intro t
    induction t with
    | zero => rfl
    | succ t ih =>
        rw [lastWritten, lastWritten, ih]
        rfl
  have htrue : c.prevalidated.optPrevalidatedInput = true := rfl
  have hfalse : c.checked.optPrevalidatedInput = false := rfl
  rw [hchecked.alarmTime, hprevalidated.alarmTime, htrue, hfalse, Bool.true_or, Bool.false_or,
    if_pos rfl, hlast, hlast, lastWritten, hwr]
  cases (inp t).iReset with
  | true => rfl
  | false => rfl

/-- Where the input is checked the alarm works. Where it is taken as valid it works, and agrees with
the other one, if and only if nothing is ever written but the bits that mark what is written as
valid. -/
theorem alarm_iff (hfixed : c.optFixedAlarmTime = false) (h₀ : Initial c.checked s₀)
    (h₁ : Initial c.prevalidated s₁) :
  Keeps c.checked s₀ inp
    ∧ ((∀ t, Promised (inp t)) →
      (Keeps c.prevalidated s₁ inp ∧ Agree c s₀ s₁ inp ↔ ∀ t, Plain (inp t)))
  := by
  have hfixed₀ : c.checked.optFixedAlarmTime = false := hfixed
  have hfixed₁ : c.prevalidated.optFixedAlarmTime = false := hfixed
  have hchecked : Keeps c.checked s₀ inp := keeps_checked rfl hfixed₀ h₀
  have htrue : c.prevalidated.optPrevalidatedInput = true := rfl
  use hchecked
  intro hpromised
  constructor
  · intro ⟨hkeeps, _⟩
    apply plain_of_keeps htrue hfixed₁ hpromised hkeeps
  · intro hplain
    have hkeeps : Keeps c.prevalidated s₁ inp :=
      keeps_prevalidated htrue hfixed₁ h₁ hpromised hplain
    use hkeeps
    apply agree_of_keeps hchecked hkeeps

end Runs

/-! ### Examples -/

/-- An alarm that is neither configured nor enabled. -/
def plainConfig : Config := ⟨false, 0, false, false⟩

/-- The registers at power up. -/
def powerUp : Rtcalarm := ⟨false, false, 0, .none, .ofBits 0, .ofBits 0⟩

/-- Half past six is written at the first clock. -/
def halfPastSix (t : ℕ) : Input where
  iReset := false
  iNow := 0
  iWr := t = 0
  iClear := false
  iEnable := true
  iAlarmTime := 0x063000
  iValid := 7

theorem alarm_iff_halfPastSix :
  Keeps plainConfig.checked powerUp halfPastSix
    ∧ ((∀ t, Promised (halfPastSix t)) →
      (Keeps plainConfig.prevalidated powerUp halfPastSix
        ∧ Agree plainConfig powerUp powerUp halfPastSix ↔ ∀ t, Plain (halfPastSix t)))
  := by
  apply alarm_iff
  · rfl
  · exact ⟨rfl, rfl, rfl, rfl⟩
  · exact ⟨rfl, rfl, rfl, rfl⟩

/-- Where the input is taken as valid, the alarm is set to seven seconds past midnight instead. -/
theorem not_agree_halfPastSix :
  (∀ t, Promised (halfPastSix t)) ∧ ¬Agree plainConfig powerUp powerUp halfPastSix
    ∧ ¬Keeps plainConfig.prevalidated powerUp halfPastSix
  := by
  constructor
  · intro t
    constructor
    · intro _ _
      change Rtcbare.Below 60 (Hms.ofBits 0x063000).ss
      decide
    · intro _ _
      change Rtcbare.Below 60 (Hms.ofBits 0x063000).mm
      decide
    · intro _ _
      change Rtcbare.Below 24 (Hms.ofBits 0x063000).hh
      decide
  · constructor
    · intro hagree
      have htime := hagree 1 (by decide)
      revert htime
      decide
    · intro hkeeps
      have htime := hkeeps.alarmTime 0
      revert htime
      decide

end Rtcalarm

end ZBasic
