import ZBasic.Rtc.Rtcbare

/-!
# The time of day advances

The registers that the next second is computed in settle within six clocks of a change, the
lower fields before the upper ones. A field is suppressed until what would be added to it has
settled, so that the time stays one of a day, and every second adds one to it. Where this
fails is the clock itself at which a write lands, and the strobe of the last second.
-/

namespace ZBasic

open Clocked

namespace Rtcbare

/-- The time of day that the fields stand for. -/
def timeOf (t : Hms) : TimeOfDay :=
  ⟨Bcd.value 2 t.hh.toNat, Bcd.value 2 t.mm.toNat, Bcd.value 2 t.ss.toNat⟩

/-- The fields hold a time of day, in decimal. -/
structure Valid (t : Hms) : Prop where
  hh : Below 24 t.hh
  mm : Below 60 t.mm
  ss : Below 60 t.ss

/-! ### The next second -/

/-- The carry out of a field, given the carry into it. -/
def carryOut (c : Bool) (x : BitVec 8) : Bool := 5 ≤ high x && (9 ≤ low x && c)

/-- The carry out of the seconds. -/
def minuteCarry (t : Hms) : Bool := carryOut true t.ss

/-- The carry out of the minutes. -/
def hourCarry (t : Hms) : Bool := carryOut (minuteCarry t) t.mm

/-- The seconds, the minutes and the hours one second later. -/
def ssAfter (t : Hms) : BitVec 8 := sixtyAfter true (9 ≤ low t.ss && true) (minuteCarry t) t.ss

def mmAfter (t : Hms) : BitVec 8 :=
  sixtyAfter (minuteCarry t) (9 ≤ low t.mm && minuteCarry t) (hourCarry t) t.mm

def hhAfter (t : Hms) : BitVec 6 :=
  hourAfter (hourCarry t) (9 ≤ low t.hh && hourCarry t) (0x23 ≤ t.hh && hourCarry t) t.hh

theorem carryOut_eq {x : BitVec 8} (h : Below 60 x) (c : Bool) :
  carryOut c x = (decide (Bcd.value 2 x.toNat = 59) && c)
  := by rw [← carry_sixty x h, carryOut, Bool.and_assoc]

theorem minuteCarry_eq {t : Hms} (h : Valid t) :
  minuteCarry t = decide ((timeOf t).second = 59)
  := by rw [minuteCarry, carryOut_eq h.ss, Bool.and_true]; rfl

theorem hourCarry_eq {t : Hms} (h : Valid t) :
  hourCarry t = decide ((timeOf t).minute = 59 ∧ (timeOf t).second = 59)
  := by rw [hourCarry, carryOut_eq h.mm, minuteCarry_eq h, Bool.decide_and]; rfl

theorem ssAfter_eq {t : Hms} (h : Valid t) :
  Below 60 (ssAfter t) ∧ Bcd.value 2 (ssAfter t).toNat = (timeOf t).next.second
  := by
  obtain ⟨hbelow, hvalue⟩ := sixtyAfter_eq t.ss h.ss true
  use hbelow
  change Bcd.value 2 (ssAfter t).toNat = _ at hvalue
  rw [hvalue, TimeOfDay.next]
  change (if (timeOf t).second < 59 then (timeOf t).second + 1 else 0) = _
  split_ifs <;> rfl

theorem mmAfter_eq {t : Hms} (h : Valid t) :
  Below 60 (mmAfter t) ∧ Bcd.value 2 (mmAfter t).toNat = (timeOf t).next.minute
    ∧ (mmAfter t = t.mm ↔ (timeOf t).second ≠ 59)
  := by
  obtain ⟨hbelow, hvalue⟩ := sixtyAfter_eq t.mm h.mm (minuteCarry t)
  have hcarry := minuteCarry_eq h
  have hsecond : (timeOf t).second < 60 := h.ss.2
  change Bcd.value 2 (mmAfter t).toNat = if _ then (if (timeOf t).minute < 59 then
    (timeOf t).minute + 1 else 0) else (timeOf t).minute at hvalue
  use hbelow
  rw [TimeOfDay.next]
  by_cases hlast : (timeOf t).second = 59
  · rw [hcarry, decide_eq_true hlast, if_pos rfl] at hvalue
    constructor
    · have hnot : ¬ (timeOf t).second < 59 := by omega
      rw [hvalue, if_neg hnot]
      split_ifs <;> rfl
    · constructor
      · intro hsame
        rw [hsame] at hvalue
        change (timeOf t).minute = _ at hvalue
        split_ifs at hvalue <;> omega
      · intro hne
        cases hne hlast
  · rw [hcarry, decide_eq_false hlast, if_neg (by decide)] at hvalue
    constructor
    · rw [hvalue, if_pos (by omega)]
    · have hsame : mmAfter t = t.mm := by
        rw [mmAfter, hourCarry, carryOut, hcarry, decide_eq_false hlast]
        apply sixtyAfter_false
      simp [hsame, hlast]

theorem hhAfter_eq {t : Hms} (h : Valid t) :
  Below 24 (hhAfter t) ∧ Bcd.value 2 (hhAfter t).toNat = (timeOf t).next.hour
    ∧ (hhAfter t = t.hh ↔ ¬ ((timeOf t).minute = 59 ∧ (timeOf t).second = 59))
  := by
  obtain ⟨hbelow, hvalue⟩ := hourAfter_eq t.hh h.hh (hourCarry t)
  have hcarry := hourCarry_eq h
  have hsecond : (timeOf t).second < 60 := h.ss.2
  have hminute : (timeOf t).minute < 60 := h.mm.2
  change Bcd.value 2 (hhAfter t).toNat = if _ then (if (timeOf t).hour < 23 then
    (timeOf t).hour + 1 else 0) else (timeOf t).hour at hvalue
  use hbelow
  rw [TimeOfDay.next]
  by_cases hlast : (timeOf t).minute = 59 ∧ (timeOf t).second = 59
  · rw [hcarry, decide_eq_true hlast, if_pos rfl] at hvalue
    constructor
    · have hnot : ¬ (timeOf t).second < 59 := by omega
      have hnot' : ¬ (timeOf t).minute < 59 := by omega
      rw [hvalue, if_neg hnot, if_neg hnot']
      split_ifs <;> rfl
    · constructor
      · intro hsame
        rw [hsame] at hvalue
        change (timeOf t).hour = _ at hvalue
        split_ifs at hvalue <;> omega
      · intro hne
        cases hne hlast
  · rw [hcarry, decide_eq_false hlast, if_neg (by decide)] at hvalue
    constructor
    · rw [hvalue]
      split_ifs
      · rfl
      · rfl
      · omega
      · omega
    · have hsame : hhAfter t = t.hh := by
        rw [hhAfter, hcarry, decide_eq_false hlast]
        apply hourAfter_false
      simp [hsame, hlast]

/-! ### Settling -/

/-- The registers that lag behind the time, `a` clocks after the seconds have changed, `b`
clocks after the seconds or the minutes have, and `c` clocks after any field has. -/
structure Settled (a b c : ℕ) (s : Rtcbare) : Prop where
  prePpd : 1 ≤ c → s.prePpd = decide (s.bcdClock = lastSecond)
  carry₀ : 1 ≤ a → s.carry₀ = decide (9 ≤ low s.bcdClock.ss)
  carry₁ : 2 ≤ a → s.carry₁ = minuteCarry s.bcdClock
  ss : 3 ≤ a → s.nextClock.ss = ssAfter s.bcdClock
  carry₂ : 3 ≤ b → s.carry₂ = (9 ≤ low s.bcdClock.mm && minuteCarry s.bcdClock)
  carry₃ : 4 ≤ b → s.carry₃ = hourCarry s.bcdClock
  mm : 5 ≤ b → s.nextClock.mm = mmAfter s.bcdClock
  carry₄ : 5 ≤ c → s.carry₄ = (9 ≤ low s.bcdClock.hh && hourCarry s.bcdClock)
  carry₅ : 5 ≤ c → s.carry₅ = (0x23 ≤ s.bcdClock.hh && hourCarry s.bcdClock)
  hh : 6 ≤ c → s.nextClock.hh = hhAfter s.bcdClock

section Step

variable {s : Rtcbare} {i : Input} {a b c a' b' c' : ℕ}

/-- While fields stay as they are the registers settle. -/
theorem Settled.step (h : Settled a b c s) (hreset : i.iReset = false) (hb : b ≤ a) (hc : c ≤ b)
    (ha' : 0 < a' → a' ≤ a + 1 ∧ (s.step i).bcdClock.ss = s.bcdClock.ss)
    (hb' : 0 < b' → b' ≤ b + 1 ∧ (s.step i).bcdClock.ss = s.bcdClock.ss
      ∧ (s.step i).bcdClock.mm = s.bcdClock.mm)
    (hc' : 0 < c' → c' ≤ c + 1 ∧ (s.step i).bcdClock = s.bcdClock) :
  Settled a' b' c' (s.step i)
  := by
  constructor <;> intro hk
  · obtain ⟨-, htime⟩ := hc' (by omega)
    rw [htime]
    simp [Rtcbare.step, hreset]
  · obtain ⟨-, hss⟩ := ha' (by omega)
    rw [hss]
    simp [Rtcbare.step, hreset]
  · obtain ⟨hle, hss⟩ := ha' (by omega)
    rw [minuteCarry, hss]
    simp [Rtcbare.step, hreset, carryOut, h.carry₀ (by omega)]
  · obtain ⟨hle, hss⟩ := ha' (by omega)
    rw [ssAfter, minuteCarry, hss]
    simp [Rtcbare.step, hreset, h.carry₀ (by omega), h.carry₁ (by omega), minuteCarry]
  · obtain ⟨hle, hss, hmm⟩ := hb' (by omega)
    rw [minuteCarry, hss, hmm]
    simp [Rtcbare.step, hreset, h.carry₀ (by omega), h.carry₁ (by omega), minuteCarry, carryOut]
  · obtain ⟨hle, hss, hmm⟩ := hb' (by omega)
    rw [hourCarry, minuteCarry, hss, hmm]
    simp [Rtcbare.step, hreset, h.carry₀ (by omega), h.carry₁ (by omega), h.carry₂ (by omega),
      minuteCarry, carryOut]
    grind
  · obtain ⟨hle, hss, hmm⟩ := hb' (by omega)
    rw [mmAfter, hourCarry, minuteCarry, hss, hmm]
    simp [Rtcbare.step, hreset, h.carry₁ (by omega), h.carry₂ (by omega), h.carry₃ (by omega),
      hourCarry, minuteCarry]
  · obtain ⟨hle, htime⟩ := hc' (by omega)
    rw [htime]
    simp [Rtcbare.step, hreset, h.carry₀ (by omega), h.carry₁ (by omega), h.carry₂ (by omega),
      h.carry₃ (by omega), hourCarry, minuteCarry, carryOut]
    grind
  · obtain ⟨hle, htime⟩ := hc' (by omega)
    rw [htime]
    simp [Rtcbare.step, hreset, h.carry₀ (by omega), h.carry₁ (by omega), h.carry₂ (by omega),
      h.carry₃ (by omega), hourCarry, minuteCarry, carryOut]
    grind
  · obtain ⟨hle, htime⟩ := hc' (by omega)
    rw [hhAfter, htime]
    simp [Rtcbare.step, hreset, h.carry₃ (by omega), h.carry₄ (by omega), h.carry₅ (by omega)]

end Step

/-! ### Suppressing -/

/-- The registers, `p` clocks after the last second, `l₀` clocks after a write to the seconds,
`l₁` after one to the seconds or the minutes, and `l₂` after one to any field has landed. -/
structure Tracked (p l₀ l₁ l₂ : ℕ) (s : Rtcbare) : Prop where
  valid : Valid s.bcdClock
  written : (s.preValid.ss = true → Below 60 s.preBcdClock.ss)
    ∧ (s.preValid.mm = true → Below 60 s.preBcdClock.mm)
    ∧ (s.preValid.hh = true → Below 24 s.preBcdClock.hh)
  le : l₂ ≤ l₁ ∧ l₁ ≤ l₀
  settled : Settled (min p l₀) (min p l₁) (min p l₂) s
  ss : if s.suppressed.ss then 5 ≤ l₀ + s.suppressCount.toNat else 6 ≤ l₀
  mm : if s.suppressed.mm then 5 ≤ l₁ + s.suppressCount.toNat else 6 ≤ l₁
  hh : if s.suppressed.hh then l₂ + s.suppressCount.toNat = 5 else 6 ≤ l₂
  order : (s.suppressed.ss = true → s.suppressed.mm = true)
    ∧ (s.suppressed.mm = true → s.suppressed.hh = true)

/-- `l` clocks later, or none. -/
def since (now : Bool) (l : ℕ) : ℕ := if now then 0 else l + 1

section Step

variable {s : Rtcbare} {i : Input} {p l₀ l₁ l₂ : ℕ}

/-- What the time is after a clock. -/
theorem Tracked.time_step (h : Tracked p l₀ l₁ l₂ s) (hpps : i.iPps = true → 6 ≤ p)
    (hreset : i.iReset = false) :
  (s.step i).bcdClock.ss = (if s.preValid.ss then s.preBcdClock.ss
      else if i.iPps && !s.suppressed.ss then ssAfter s.bcdClock else s.bcdClock.ss)
    ∧ (s.step i).bcdClock.mm = (if s.preValid.mm then s.preBcdClock.mm
      else if i.iPps && !s.suppressed.mm then mmAfter s.bcdClock else s.bcdClock.mm)
    ∧ (s.step i).bcdClock.hh = (if s.preValid.hh then s.preBcdClock.hh
      else if i.iPps && !s.suppressed.hh then hhAfter s.bcdClock else s.bcdClock.hh)
  := by
  have hss := h.ss
  have hmm := h.mm
  have hhh := h.hh
  refine ⟨?_, ?_, ?_⟩
  · simp only [Rtcbare.step, hreset, Bool.false_eq_true, if_false]
    split_ifs with hwr hadd
    · rfl
    · rw [Bool.and_eq_true, Bool.not_eq_true'] at hadd
      have := hpps hadd.1
      rw [hadd.2, if_neg (by decide)] at hss
      apply h.settled.ss (by omega)
    · rfl
  · simp only [Rtcbare.step, hreset, Bool.false_eq_true, if_false]
    split_ifs with hwr hadd
    · rfl
    · rw [Bool.and_eq_true, Bool.not_eq_true'] at hadd
      have := hpps hadd.1
      rw [hadd.2, if_neg (by decide)] at hmm
      apply h.settled.mm (by omega)
    · rfl
  · simp only [Rtcbare.step, hreset, Bool.false_eq_true, if_false]
    split_ifs with hwr hadd
    · rfl
    · rw [Bool.and_eq_true, Bool.not_eq_true'] at hadd
      have := hpps hadd.1
      rw [hadd.2, if_neg (by decide)] at hhh
      apply h.settled.hh (by omega)
    · rfl

theorem Tracked.valid_step (h : Tracked p l₀ l₁ l₂ s) (hpps : i.iPps = true → 6 ≤ p)
    (hreset : i.iReset = false) :
  Valid (s.step i).bcdClock
  := by
  obtain ⟨hss, hmm, hhh⟩ := h.time_step hpps hreset
  constructor
  · rw [hhh]
    split_ifs with hwr
    · apply h.written.2.2 hwr
    · apply (hhAfter_eq h.valid).1
    · apply h.valid.hh
  · rw [hmm]
    split_ifs with hwr
    · apply h.written.2.1 hwr
    · apply (mmAfter_eq h.valid).1
    · apply h.valid.mm
  · rw [hss]
    split_ifs with hwr
    · apply h.written.1 hwr
    · apply (ssAfter_eq h.valid).1
    · apply h.valid.ss

theorem written_step (s : Rtcbare) (i : Input) :
  ((s.step i).preValid.ss = true → Below 60 (s.step i).preBcdClock.ss)
    ∧ ((s.step i).preValid.mm = true → Below 60 (s.step i).preBcdClock.mm)
    ∧ ((s.step i).preValid.hh = true → Below 24 (s.step i).preBcdClock.hh)
  := by
  have hnone : ∀ f : Fields → Bool, f .none = false →
      f (s.step i).preValid = true → f (check i) = true := by
    intro f hf hset
    simp only [Rtcbare.step] at hset
    split_ifs at hset
    · rw [hf] at hset
      cases hset
    · apply hset
  refine ⟨?_, ?_, ?_⟩
  · intro hset
    have := hnone Fields.ss rfl hset
    rw [check, Bool.and_eq_true] at this
    apply (checkSixty_iff _).mp this.2
  · intro hset
    have := hnone Fields.mm rfl hset
    rw [check, Bool.and_eq_true] at this
    apply (checkSixty_iff _).mp this.2
  · intro hset
    have := hnone Fields.hh rfl hset
    rw [check, Bool.and_eq_true] at this
    apply (checkHour_iff _).mp this.2

theorem suppressCount_step (hreset : i.iReset = false) :
  (s.step i).suppressCount.toNat
    = if s.preValid.any then 5 else s.suppressCount.toNat - 1
  := by
  simp only [Rtcbare.step, hreset, Bool.false_or]
  split_ifs with hany hpos
  · rfl
  · rw [BitVec.lt_def] at hpos
    rw [BitVec.toNat_sub_of_le (by rw [BitVec.le_def]; exact hpos)]
    rfl
  · rw [BitVec.lt_def] at hpos
    change ¬ 0 < _ at hpos
    omega

theorem suppressed_step (hreset : i.iReset = false) :
  (s.step i).suppressed
    = if s.preValid.any then
        { ss := s.suppressed.ss || s.preValid.ss
          mm := s.suppressed.mm || (s.preValid.ss || s.preValid.mm)
          hh := s.suppressed.hh || s.preValid.any }
      else if 0 < s.suppressCount.toNat then s.suppressed
      else .none
  := by
  simp only [Rtcbare.step, hreset, Bool.false_eq_true, if_false, BitVec.lt_def]
  rfl

/-- A field is suppressed until what follows it has settled. -/
theorem suppress_age {supp wr any : Bool} {l count : ℕ}
    (h : if supp then 5 ≤ l + count else 6 ≤ l) (hwr : wr = true → any = true) :
  if (if any then supp || wr else decide (0 < count) && supp) then
    5 ≤ since wr l + (if any then 5 else count - 1)
  else 6 ≤ since wr l
  := by
  cases any with
  | true =>
      cases supp <;> cases wr <;> simp [since] at h ⊢
      omega
  | false =>
      have hwr' : wr = false := by simpa using hwr
      rw [hwr']
      rcases Nat.eq_zero_or_pos count with rfl | hpos
      · cases supp <;> simp [since] at h ⊢ <;> omega
      · cases supp <;> simp [since, hpos] at h ⊢ <;> omega

/-- The hours are suppressed no longer than that. -/
theorem suppress_age_hour {supp any : Bool} {l count : ℕ}
    (h : if supp then l + count = 5 else 6 ≤ l) :
  if (if any then supp || any else decide (0 < count) && supp) then
    since any l + (if any then 5 else count - 1) = 5
  else 6 ≤ since any l
  := by
  cases any with
  | true => simp [since]
  | false =>
      rcases Nat.eq_zero_or_pos count with rfl | hpos
      · cases supp <;> simp [since] at h ⊢ <;> omega
      · cases supp <;> simp [since, hpos] at h ⊢ <;> omega

/-- What is suppressed after a clock. -/
theorem Tracked.suppressed_step (h : Tracked p l₀ l₁ l₂ s) (hreset : i.iReset = false) :
  (if (s.step i).suppressed.ss then
      5 ≤ since s.preValid.ss l₀ + (s.step i).suppressCount.toNat
      else 6 ≤ since s.preValid.ss l₀)
    ∧ (if (s.step i).suppressed.mm then
      5 ≤ since (s.preValid.ss || s.preValid.mm) l₁ + (s.step i).suppressCount.toNat
      else 6 ≤ since (s.preValid.ss || s.preValid.mm) l₁)
    ∧ (if (s.step i).suppressed.hh then
      since s.preValid.any l₂ + (s.step i).suppressCount.toNat = 5
      else 6 ≤ since s.preValid.any l₂)
  := by
  have hfield : ∀ f : Fields → Bool, f .none = false →
      f (s.step i).suppressed = if s.preValid.any then
        f { ss := s.suppressed.ss || s.preValid.ss
            mm := s.suppressed.mm || (s.preValid.ss || s.preValid.mm)
            hh := s.suppressed.hh || s.preValid.any }
        else decide (0 < s.suppressCount.toNat) && f s.suppressed := by
    intro f hf
    rw [Rtcbare.suppressed_step hreset]
    split_ifs with hany hpos
    · rfl
    · rw [decide_eq_true hpos, Bool.true_and]
    · rw [decide_eq_false hpos, Bool.false_and, hf]
  rw [suppressCount_step hreset, hfield Fields.ss rfl, hfield Fields.mm rfl,
    hfield Fields.hh rfl]
  refine ⟨?_, ?_, ?_⟩
  · apply suppress_age h.ss
    intro hwr
    rw [Fields.any, hwr]
    rfl
  · apply suppress_age h.mm
    intro hwr
    rw [Fields.any, hwr]
    rfl
  · apply suppress_age_hour h.hh

theorem Tracked.order_step (h : Tracked p l₀ l₁ l₂ s) (hreset : i.iReset = false) :
  ((s.step i).suppressed.ss = true → (s.step i).suppressed.mm = true)
    ∧ ((s.step i).suppressed.mm = true → (s.step i).suppressed.hh = true)
  := by
  obtain ⟨hmm, hhh⟩ := h.order
  rw [Rtcbare.suppressed_step hreset]
  split_ifs
  · simp only [Bool.or_eq_true]
    tauto
  · use hmm, hhh
  · simp [Fields.none]

theorem Tracked.settled_step (h : Tracked p l₀ l₁ l₂ s) (hpps : i.iPps = true → 6 ≤ p)
    (hreset : i.iReset = false) :
  Settled (min (since i.iPps p) (since s.preValid.ss l₀))
    (min (since i.iPps p) (since (s.preValid.ss || s.preValid.mm) l₁))
    (min (since i.iPps p) (since s.preValid.any l₂)) (s.step i)
  := by
  obtain ⟨hle, hle'⟩ := h.le
  obtain ⟨hss, hmm, hhh⟩ := h.time_step hpps hreset
  -- A field changes at a second, or where a write lands.
  have hquiet : ∀ {wr : Bool} {l : ℕ}, 0 < min (since i.iPps p) (since wr l) →
      i.iPps = false ∧ wr = false ∧ min (since i.iPps p) (since wr l) = min p l + 1 := by
    intro wr l hpos
    cases hp : i.iPps <;> cases wr <;> simp [since, hp] at hpos ⊢
  apply h.settled.step hreset (by omega) (by omega)
  · intro hpos
    obtain ⟨hp, hwr, hage⟩ := hquiet hpos
    refine ⟨by omega, ?_⟩
    rw [hss, hwr, hp]
    rfl
  · intro hpos
    obtain ⟨hp, hwr, hage⟩ := hquiet hpos
    rw [Bool.or_eq_false_iff] at hwr
    refine ⟨by omega, ?_, ?_⟩
    · rw [hss, hwr.1, hp]
      rfl
    · rw [hmm, hwr.2, hp]
      rfl
  · intro hpos
    obtain ⟨hp, hwr, hage⟩ := hquiet hpos
    rw [Fields.any, Bool.or_eq_false_iff, Bool.or_eq_false_iff] at hwr
    rw [hwr.1.1, hp] at hss
    rw [hwr.1.2, hp] at hmm
    rw [hwr.2, hp] at hhh
    refine ⟨by omega, ?_⟩
    cases hs : (s.step i).bcdClock with
    | mk hh mm ss =>
        rw [hs] at hss hmm hhh
        change ss = s.bcdClock.ss at hss
        change mm = s.bcdClock.mm at hmm
        change hh = s.bcdClock.hh at hhh
        rw [hss, hmm, hhh]

/-- A clock outside reset. -/
theorem Tracked.step (h : Tracked p l₀ l₁ l₂ s) (hpps : i.iPps = true → 6 ≤ p)
    (hreset : i.iReset = false) :
  Tracked (since i.iPps p) (since s.preValid.ss l₀) (since (s.preValid.ss || s.preValid.mm) l₁)
    (since s.preValid.any l₂) (s.step i)
  := by
  obtain ⟨hss, hmm, hhh⟩ := h.suppressed_step (i := i) hreset
  constructor
  · apply h.valid_step hpps hreset
  · apply written_step
  · obtain ⟨hle, hle'⟩ := h.le
    rw [Fields.any]
    constructor
    · cases (s.preValid.ss || s.preValid.mm) <;> cases s.preValid.hh <;>
        simp [since, hle]
    · cases s.preValid.ss <;> cases s.preValid.mm <;> simp [since, hle']
  · apply h.settled_step hpps hreset
  · apply hss
  · apply hmm
  · apply hhh
  · apply h.order_step hreset

/-- A reset. -/
theorem tracked_reset (hreset : i.iReset = true) :
  Tracked 6 0 0 0 (s.step i)
  := by
  have hzero : (s.step i).bcdClock = ⟨0, 0, 0⟩ := by simp [Rtcbare.step, hreset]
  have hcount : (s.step i).suppressCount = 5 := by simp [Rtcbare.step, hreset]
  have hsupp : (s.step i).suppressed = ⟨true, true, true⟩ := by simp [Rtcbare.step, hreset]
  constructor
  · rw [hzero]
    constructor <;> decide
  · apply written_step
  · decide
  · constructor <;> intro hk <;> simp at hk
  · rw [hcount, hsupp]
    decide
  · rw [hcount, hsupp]
    decide
  · rw [hcount, hsupp]
    decide
  · rw [hsupp]
    decide

end Step

/-! ### Runs -/

/-- Seconds are at least eight clocks apart. -/
def Spaced (inp : ℕ → Input) : Prop :=
  ∀ m n, m < n → (inp m).iPps = true → (inp n).iPps = true → m + 8 ≤ n

/-- The fields of a write that hold valid decimals. -/
def accepted (i : Input) : Fields where
  ss := i.iWr && i.iValid.getLsbD 0 && decide (Below 60 (Hms.ofBits i.iData).ss)
  mm := i.iWr && i.iValid.getLsbD 1 && decide (Below 60 (Hms.ofBits i.iData).mm)
  hh := i.iWr && i.iValid.getLsbD 2 && decide (Below 24 (Hms.ofBits i.iData).hh)

/-- The fields in which a write lands at clock `n`, one clock after it is made. -/
def landing (inp : ℕ → Input) : ℕ → Fields
  | 0 => .none
  | n + 1 => if (inp n).iReset then .none else accepted (inp n)

/-- The time written a clock before clock `n`. -/
def landed (inp : ℕ → Input) : ℕ → Hms
  | 0 => ⟨0, 0, 0⟩
  | n + 1 => .ofBits (inp n).iData

/-- A field stays as it is, or a second makes it `next`. -/
def Counts {w : ℕ} (iPps : Bool) (next : ℕ) (x x' : BitVec w) : Prop :=
  x' = x ∨ iPps = true ∧ Bcd.value 2 x'.toNat = next

/-- A write of `t` that lands in the fields of `wr` ends up there, and fields above these
stay as they are; the others stay or follow the second. -/
structure Lands (wr : Fields) (t : Hms) (iPps : Bool) (old new : Hms) : Prop where
  ss : if wr.ss then new.ss = t.ss else Counts iPps (timeOf old).next.second old.ss new.ss
  mm : if wr.mm then new.mm = t.mm
    else if wr.ss then new.mm = old.mm
    else Counts iPps (timeOf old).next.minute old.mm new.mm
  hh : if wr.hh then new.hh = t.hh
    else if wr.ss || wr.mm then new.hh = old.hh
    else Counts iPps (timeOf old).next.hour old.hh new.hh

section Runs

variable (s₀ : Rtcbare) (inp : ℕ → Input) (n : ℕ)

/-- The time before clock `n`. -/
def clock : Hms := (run step s₀ inp n).bcdClock

/-- The second at clock `n` makes the time wrap around. -/
structure Wraps : Prop where
  iReset : (inp n).iReset = false
  iPps : (inp n).iPps = true
  landing : landing inp n = .none
  last : timeOf (clock s₀ inp n) = .last
  first : timeOf (clock s₀ inp (n + 1)) = ⟨0, 0, 0⟩

/-- The time is right at clock `n`. -/
structure Right : Prop where
  valid : Valid (clock s₀ inp n)
  advances : (inp n).iPps = true → 7 ≤ n → (∀ k ≤ n, n < k + 8 → (inp k).iReset = false) →
    (∀ k < n, n < k + 8 → accepted (inp k) = .none) →
    timeOf (clock s₀ inp (n + 1)) = (timeOf (clock s₀ inp n)).next
  strobe : (run step s₀ inp n).oPpd (inp n) = true ↔ Wraps s₀ inp n
  written : (inp n).iReset = false →
    Lands (landing inp n) (landed inp n) (inp n).iPps (clock s₀ inp n) (clock s₀ inp (n + 1))

end Runs

/-- A second that comes one clock after 23:59:59 was reached finds no reset, no write that
lands and no field suppressed, and no second carries into a field above one in which a write
lands. -/
structure Clean (s : Rtcbare) (i : Input) : Prop where
  last : i.iPps = true → s.prePpd = true →
    i.iReset = false ∧ s.preValid = .none ∧ s.suppressed = .none
  mm : i.iPps = true → i.iReset = false → s.preValid.ss = true → s.preValid.mm = false →
    s.suppressed.mm = false → (timeOf s.bcdClock).second ≠ 59
  hh : i.iPps = true → i.iReset = false → (s.preValid.ss || s.preValid.mm) = true →
    s.preValid.hh = false → s.suppressed.hh = false →
    ¬ ((timeOf s.bcdClock).minute = 59 ∧ (timeOf s.bcdClock).second = 59)

section Runs

variable {s₀ : Rtcbare} {inp : ℕ → Input} {n : ℕ}

/-- What the registers hold before clock `n`, `p` clocks after the last second and `l₂` clocks
after the last write or reset. -/
def Held (s₀ : Rtcbare) (inp : ℕ → Input) (n : ℕ) : Prop :=
  ∃ p l₀ l₁ l₂, Tracked p l₀ l₁ l₂ (run step s₀ inp n)
    ∧ (6 ≤ p ∨ ∃ m, (inp m).iPps = true ∧ n = m + 1 + p)
    ∧ (n = l₂ ∨ ∃ m, ((inp m).iReset = true ∨ landing inp m ≠ .none) ∧ n = m + 1 + l₂)

theorem tracked_initial (hs₀ : s₀.Initial) :
  Tracked 6 0 0 0 s₀
  := by
  constructor
  · rw [hs₀.bcdClock]
    constructor <;> decide
  · simp [hs₀.preValid, Fields.none]
  · decide
  · constructor <;> intro hk <;> simp at hk
  · rw [hs₀.suppressed, hs₀.suppressCount]
    decide
  · rw [hs₀.suppressed, hs₀.suppressCount]
    decide
  · rw [hs₀.suppressed, hs₀.suppressCount]
    decide
  · rw [hs₀.suppressed]
    decide

theorem check_eq (i : Input) :
  (if !i.iWr then .none else check i) = accepted i
  := by
  have hsixty : ∀ x, checkSixty x = decide (Below 60 x) := by
    intro x
    rw [Bool.eq_iff_iff, checkSixty_iff, decide_eq_true_iff]
  have hhour : ∀ x, checkHour x = decide (Below 24 x) := by
    intro x
    rw [Bool.eq_iff_iff, checkHour_iff, decide_eq_true_iff]
  rw [accepted, check, hsixty, hsixty, hhour]
  cases i.iWr <;> rfl

theorem preValid_run (hs₀ : s₀.Initial) (n : ℕ) :
  (run step s₀ inp n).preValid = landing inp n
  := by
  cases n with
  | zero => apply hs₀.preValid
  | succ n =>
      rw [landing, ← check_eq]
      simp only [run_succ, step]
      cases (inp n).iReset <;> simp

theorem preBcdClock_run (n : ℕ) :
  (run step s₀ inp (n + 1)).preBcdClock = landed inp (n + 1)
  := rfl

theorem Fields.any_eq_false {x : Fields} :
  x.any = false ↔ x = .none
  := by
  rcases x with ⟨a, b, c⟩
  cases a <;> cases b <;> cases c <;> decide

/-- The second is known wherever a second comes. -/
theorem held (hs₀ : s₀.Initial)
    (hspaced : Spaced inp) (n : ℕ) :
  Held s₀ inp n
  := by
  induction n with
  | zero => exact ⟨6, 0, 0, 0, tracked_initial hs₀, Or.inl (Nat.le_refl 6), Or.inl rfl⟩
  | succ n ih =>
      obtain ⟨p, l₀, l₁, l₂, htracked, hp, hl⟩ := ih
      cases hreset : (inp n).iReset with
      | true =>
          refine ⟨6, 0, 0, 0, tracked_reset hreset, Or.inl (Nat.le_refl 6), Or.inr ?_⟩
          use n, Or.inl hreset
      | false =>
          have hpps : (inp n).iPps = true → 6 ≤ p := by
            intro hpps
            rcases hp with hp | ⟨m, hm, rfl⟩
            · apply hp
            · have := hspaced m _ (by omega) hm hpps
              omega
          refine ⟨_, _, _, _, htracked.step hpps hreset, ?_, ?_⟩
          · cases hnow : (inp n).iPps with
            | true =>
                right
                use n, hnow
                rfl
            | false =>
                rcases hp with hp | ⟨m, hm, hn⟩
                · left
                  rw [since, if_neg (by decide)]
                  omega
                · right
                  use m, hm
                  rw [since, if_neg (by decide)]
                  omega
          · rw [preValid_run hs₀]
            cases hany : (landing inp n).any with
            | true =>
                right
                refine ⟨n, Or.inr ?_, rfl⟩
                intro hnone
                rw [Fields.any_eq_false.mpr hnone] at hany
                cases hany
            | false =>
                rcases hl with hl | ⟨m, hm, hn⟩
                · left
                  rw [since, if_neg (by decide)]
                  omega
                · right
                  use m, hm
                  rw [since, if_neg (by decide)]
                  omega

end Runs

section Clock

variable {s : Rtcbare} {i : Input} {p l₀ l₁ l₂ : ℕ}

/-- A second that finds no write and nothing suppressed is counted. -/
theorem Tracked.next_step (h : Tracked p l₀ l₁ l₂ s) (hpps : i.iPps = true → 6 ≤ p)
    (hreset : i.iReset = false) (hnow : i.iPps = true) (hnone : s.preValid = .none)
    (hopen : s.suppressed = .none) :
  timeOf (s.step i).bcdClock = (timeOf s.bcdClock).next
  := by
  obtain ⟨hss, hmm, hhh⟩ := h.time_step hpps hreset
  rw [hnone, hopen, hnow] at hss hmm hhh
  change (s.step i).bcdClock.ss = ssAfter s.bcdClock at hss
  change (s.step i).bcdClock.mm = mmAfter s.bcdClock at hmm
  change (s.step i).bcdClock.hh = hhAfter s.bcdClock at hhh
  rw [timeOf, hss, hmm, hhh, (ssAfter_eq h.valid).2, (mmAfter_eq h.valid).2.1,
    (hhAfter_eq h.valid).2.1]

/-- Where a write lands, no second carries past it. -/
theorem Tracked.lands_iff (h : Tracked p l₀ l₁ l₂ s) (hpps : i.iPps = true → 6 ≤ p)
    (hreset : i.iReset = false) :
  Lands s.preValid s.preBcdClock i.iPps s.bcdClock (s.step i).bcdClock
    ↔ (i.iPps = true → s.preValid.ss = true → s.preValid.mm = false →
        s.suppressed.mm = false → (timeOf s.bcdClock).second ≠ 59)
      ∧ (i.iPps = true → (s.preValid.ss || s.preValid.mm) = true → s.preValid.hh = false →
        s.suppressed.hh = false →
        ¬ ((timeOf s.bcdClock).minute = 59 ∧ (timeOf s.bcdClock).second = 59))
  := by
  obtain ⟨hss, hmm, hhh⟩ := h.time_step hpps hreset
  constructor
  · intro hlands
    constructor
    · intro hnow hwr hnot hopen
      have hkept := hlands.mm
      rw [hnot, hwr, hmm, hnot, hnow, hopen] at hkept
      apply (mmAfter_eq h.valid).2.2.mp hkept
    · intro hnow hwr hnot hopen
      have hkept := hlands.hh
      rw [hnot, hwr, hhh, hnot, hnow, hopen] at hkept
      apply (hhAfter_eq h.valid).2.2.mp hkept
  · rintro ⟨hmmClean, hhhClean⟩
    constructor
    · rw [hss]
      split_ifs with hwr hadd
      · rfl
      · right
        rw [Bool.and_eq_true] at hadd
        use hadd.1
        apply (ssAfter_eq h.valid).2
      · left
        rfl
    · rw [hmm]
      split_ifs with hwr hlow hadd hadd
      · rfl
      · rw [Bool.and_eq_true, Bool.not_eq_true'] at hadd
        apply (mmAfter_eq h.valid).2.2.mpr
        apply hmmClean hadd.1 hlow (by simpa using hwr) hadd.2
      · rfl
      · right
        rw [Bool.and_eq_true] at hadd
        use hadd.1
        apply (mmAfter_eq h.valid).2.1
      · left
        rfl
    · rw [hhh]
      split_ifs with hwr hlow hadd hadd
      · rfl
      · rw [Bool.and_eq_true, Bool.not_eq_true'] at hadd
        apply (hhAfter_eq h.valid).2.2.mpr
        apply hhhClean hadd.1 hlow (by simpa using hwr) hadd.2
      · rfl
      · right
        rw [Bool.and_eq_true] at hadd
        use hadd.1
        apply (hhAfter_eq h.valid).2.1
      · left
        rfl

/-- Outside the clocks after a write the strobe knows the last second. -/
theorem Tracked.prePpd (h : Tracked p l₀ l₁ l₂ s) (hp : 6 ≤ p) (hopen : s.suppressed.hh = false) :
  s.prePpd = decide (s.bcdClock = lastSecond)
  := by
  have hhh := h.hh
  rw [hopen, if_neg (by decide)] at hhh
  apply h.settled.prePpd (by omega)

/-- With the hours nothing is suppressed. -/
theorem Tracked.suppressed_eq_none (h : Tracked p l₀ l₁ l₂ s) :
  s.suppressed = .none ↔ s.suppressed.hh = false
  := by
  obtain ⟨hmm, hhh⟩ := h.order
  cases hs : s.suppressed with
  | mk ss mm hh =>
      rw [hs] at hmm hhh
      cases ss <;> cases mm <;> cases hh <;> simp [Fields.none] at hmm hhh ⊢

theorem timeOf_eq_last {t : Hms} (h : Valid t) :
  timeOf t = .last ↔ t = lastSecond
  := by
  have hsixty : ∀ x : BitVec 8, Below 60 x → Bcd.value 2 x.toNat = 59 → x = 0x59 := by
    decide
  have hhour : ∀ x : BitVec 6, Below 24 x → Bcd.value 2 x.toNat = 23 → x = 0x23 := by
    decide
  constructor
  · intro hlast
    rcases t with ⟨hh, mm, ss⟩
    rw [TimeOfDay.last, timeOf, TimeOfDay.mk.injEq] at hlast
    rw [lastSecond, hhour hh h.hh hlast.1, hsixty mm h.mm hlast.2.1, hsixty ss h.ss hlast.2.2]
  · rintro rfl
    decide

end Clock

section Runs

variable {s₀ : Rtcbare} {inp : ℕ → Input}

/-- The strobe comes with the second that makes the time wrap around. -/
theorem strobe_iff (hs₀ : s₀.Initial) {n p l₀ l₁ l₂ : ℕ}
    (h : Tracked p l₀ l₁ l₂ (run step s₀ inp n)) (hpps : (inp n).iPps = true → 6 ≤ p) :
  ((run step s₀ inp n).oPpd (inp n) = true ↔ Wraps s₀ inp n)
    ↔ ((inp n).iPps = true → (run step s₀ inp n).prePpd = true →
      (inp n).iReset = false ∧ (run step s₀ inp n).preValid = .none
        ∧ (run step s₀ inp n).suppressed = .none)
  := by
  -- The hours change at a second that is not suppressed only.
  have hopen : Wraps s₀ inp n → (run step s₀ inp n).suppressed.hh = false := by
    intro hwraps
    by_contra hclosed
    have hhh := (h.time_step hpps hwraps.iReset).2.2
    rw [Bool.not_eq_false] at hclosed
    rw [preValid_run hs₀, hwraps.landing, hclosed, Bool.not_true, Bool.and_false] at hhh
    have hlast := congrArg TimeOfDay.hour hwraps.last
    have hfirst := congrArg TimeOfDay.hour hwraps.first
    change Bcd.value 2 (clock s₀ inp n).hh.toNat = 23 at hlast
    change Bcd.value 2 (step (run step s₀ inp n) (inp n)).bcdClock.hh.toNat = 0 at hfirst
    rw [hhh] at hfirst
    change Bcd.value 2 (clock s₀ inp n).hh.toNat = 0 at hfirst
    omega
  constructor
  · intro hiff hnow hpre
    have hwraps := hiff.mp (by rw [oPpd, hpre, hnow]; rfl)
    refine ⟨hwraps.iReset, ?_, ?_⟩
    · rw [preValid_run hs₀, hwraps.landing]
    · rw [h.suppressed_eq_none]
      apply hopen hwraps
  · intro hclean
    constructor
    · intro hstrobe
      rw [oPpd, Bool.and_eq_true] at hstrobe
      obtain ⟨hreset, hnone, hsupp⟩ := hclean hstrobe.2 hstrobe.1
      have hlast := h.prePpd (hpps hstrobe.2) (h.suppressed_eq_none.mp hsupp)
      rw [hstrobe.1, eq_comm, decide_eq_true_iff, ← timeOf_eq_last h.valid] at hlast
      refine ⟨hreset, hstrobe.2, ?_, hlast, ?_⟩
      · rw [← preValid_run hs₀, hnone]
      · rw [clock, run_succ, h.next_step hpps hreset hstrobe.2 hnone hsupp, hlast]
        rfl
    · intro hwraps
      rw [oPpd, hwraps.iPps, Bool.and_true, h.prePpd (hpps hwraps.iPps) (hopen hwraps),
        decide_eq_true_iff, ← timeOf_eq_last h.valid]
      apply hwraps.last

theorem lands_run (hs₀ : s₀.Initial) (n : ℕ) (iPps : Bool) (old new : Hms) :
  Lands (landing inp n) (landed inp n) iPps old new
    ↔ Lands (run step s₀ inp n).preValid (run step s₀ inp n).preBcdClock iPps old new
  := by
  rw [preValid_run hs₀]
  cases n with
  | zero =>
      -- No write lands at the first clock.
      constructor
      · intro h
        exact ⟨h.ss, h.mm, h.hh⟩
      · intro h
        exact ⟨h.ss, h.mm, h.hh⟩
  | succ n => rw [preBcdClock_run]

/-- Eight clocks after the last write and the last reset nothing is suppressed. -/
theorem quiet (hs₀ : s₀.Initial) {n p l₀ l₁ l₂ : ℕ}
    (h : Tracked p l₀ l₁ l₂ (run step s₀ inp n))
    (hl : n = l₂ ∨ ∃ m, ((inp m).iReset = true ∨ landing inp m ≠ .none) ∧ n = m + 1 + l₂)
    (hn : 7 ≤ n) (hreset : ∀ k ≤ n, n < k + 8 → (inp k).iReset = false)
    (hwrite : ∀ k < n, n < k + 8 → accepted (inp k) = .none) :
  (run step s₀ inp n).preValid = .none ∧ (run step s₀ inp n).suppressed = .none
  := by
  constructor
  · obtain ⟨k, rfl⟩ := Nat.exists_eq_add_of_le' (Nat.le_trans (by decide : 1 ≤ 7) hn)
    rw [preValid_run hs₀, landing, hwrite k (by omega) (by omega)]
    simp
  · rw [h.suppressed_eq_none]
    by_contra hclosed
    have hhh := h.hh
    rw [Bool.not_eq_false] at hclosed
    rw [hclosed, if_pos rfl] at hhh
    rcases hl with rfl | ⟨m, hm | hm, rfl⟩
    · omega
    · rw [hreset m (by omega) (by omega)] at hm
      cases hm
    · cases m with
      | zero => apply hm rfl
      | succ k =>
          rw [landing, hwrite k (by omega) (by omega)] at hm
          simp at hm

theorem right_iff (hs₀ : s₀.Initial)
    (hspaced : Spaced inp) (n : ℕ) :
  Right s₀ inp n ↔ Clean (run step s₀ inp n) (inp n)
  := by
  obtain ⟨p, l₀, l₁, l₂, h, hp, hl⟩ := held hs₀ hspaced n
  have hpps : (inp n).iPps = true → 6 ≤ p := by
    intro hpps
    rcases hp with hp | ⟨m, hm, rfl⟩
    · apply hp
    · have := hspaced m _ (by omega) hm hpps
      omega
  have hstrobe := strobe_iff hs₀ h hpps
  constructor
  · intro hright
    use hstrobe.mp hright.strobe
    · intro hnow hreset
      apply ((h.lands_iff hpps hreset).mp ((lands_run hs₀ n _ _ _).mp (hright.written hreset))).1
        hnow
    · intro hnow hreset
      apply ((h.lands_iff hpps hreset).mp ((lands_run hs₀ n _ _ _).mp (hright.written hreset))).2
        hnow
  · intro hclean
    constructor
    · apply h.valid
    · intro hnow hn hreset hwrite
      obtain ⟨hnone, hopen⟩ := quiet hs₀ h hl hn hreset hwrite
      apply h.next_step hpps (hreset n (Nat.le_refl n) (by omega)) hnow hnone hopen
    · apply hstrobe.mpr hclean.last
    · intro hreset
      rw [lands_run hs₀]
      apply (h.lands_iff hpps hreset).mpr
      constructor
      · intro hnow
        apply hclean.mm hnow hreset
      · intro hnow
        apply hclean.hh hnow hreset

/-- Along a run the time is right at every clock if and only if every clock is clean. -/
theorem time_right_iff (hs₀ : s₀.Initial)
    (hspaced : Spaced inp) :
  (∀ n, Right s₀ inp n) ↔ ∀ n, Clean (run step s₀ inp n) (inp n)
  := by
  apply forall_congr'
  apply right_iff hs₀ hspaced

end Runs

/-- The registers at power up. -/
def powerUp : Rtcbare where
  bcdClock := ⟨0, 0, 0⟩
  nextClock := ⟨0, 0, 1⟩
  carry₀ := false
  carry₁ := false
  carry₂ := false
  carry₃ := false
  carry₄ := false
  carry₅ := false
  prePpd := false
  preValid := .none
  preBcdClock := ⟨0, 0, 0⟩
  suppressed := ⟨true, true, true⟩
  suppressCount := 5

theorem powerUp_initial :
  powerUp.Initial
  := by constructor <;> decide

/-- 23:59:58 is written at clock 8. Seconds come at clocks 20, 30 and 42, and while the increment of
the second of these is computed, 45 minutes are written at clock 31. -/
def midnight (n : ℕ) : Input where
  iReset := false
  iPps := n == 20 || n == 30 || n == 42
  iWr := n == 8 || n == 31
  iData := if n = 8 then 0x235958 else 0x4500
  iValid := if n = 8 then 7 else 2

/-- The second of the three wraps the time around, and the written minutes stay. -/
theorem time_right_midnight :
  timeOf (clock powerUp midnight 31) = ⟨0, 0, 0⟩ ∧ (clock powerUp midnight 33).mm = 0x45
    ∧ timeOf (clock powerUp midnight 43) = (timeOf (clock powerUp midnight 42)).next
  := by
  have hat : ∀ n, (midnight n).iPps = true → n = 20 ∨ n = 30 ∨ n = 42 := by
    intro n hn
    simpa [midnight, or_assoc] using hn
  have hspaced : Spaced midnight := by
    intro m n hlt hm hn
    have hfirst := hat m hm
    have hsecond := hat n hn
    omega
  have hclean : ∀ n, Clean (run step powerUp midnight n) (midnight n) := by
    intro n
    constructor
    · intro hnow
      rcases hat n hnow with rfl | rfl | rfl <;> decide
    · intro hnow
      rcases hat n hnow with rfl | rfl | rfl <;> decide +kernel
    · intro hnow
      rcases hat n hnow with rfl | rfl | rfl <;> decide +kernel
  have hright := (time_right_iff powerUp_initial hspaced).mpr hclean
  constructor
  · apply ((hright 30).strobe.mp (by decide)).first
  · constructor
    · have hlands := ((hright 32).written rfl).mm
      rw [if_pos (by decide)] at hlands
      rw [hlands]
      decide
    · apply (hright 42).advances rfl (by decide)
      · intro _ _ _
        rfl
      · decide

/-- 23:59:59 is written at clock 8, and seconds come at clocks 12 and 20. -/
def lateWrite : ℕ → Input
  | 8 => ⟨false, false, true, 0x235959, 7⟩
  | 12 => ⟨false, true, false, 0, 0⟩
  | 20 => ⟨false, true, false, 0, 0⟩
  | _ => ⟨false, false, false, 0, 0⟩

/-- The strobe of the last second comes twice, and the time wraps around once. -/
theorem strobe_twice :
  Spaced lateWrite
    ∧ (run step powerUp lateWrite 12).oPpd (lateWrite 12) = true
    ∧ timeOf (clock powerUp lateWrite 13) = .last
    ∧ (run step powerUp lateWrite 20).oPpd (lateWrite 20) = true
    ∧ timeOf (clock powerUp lateWrite 21) = ⟨0, 0, 0⟩
    ∧ ¬ ∀ n, Right powerUp lateWrite n
  := by
  have hstrobe : (run step powerUp lateWrite 12).oPpd (lateWrite 12) = true := by
    decide
  have hlast : timeOf (clock powerUp lateWrite 13) = .last := by decide
  refine ⟨?_, hstrobe, hlast, by decide, by decide +kernel, ?_⟩
  · have hat : ∀ n, (lateWrite n).iPps = true → n = 12 ∨ n = 20 := by
      intro n hn
      unfold lateWrite at hn
      split at hn <;> simp at hn ⊢
    intro m n hlt hm hn
    have := hat m hm
    have := hat n hn
    omega
  intro hright
  have hwraps := (hright 12).strobe.mp hstrobe
  have hfirst := hwraps.first
  rw [hlast] at hfirst
  cases hfirst

end Rtcbare

end ZBasic
