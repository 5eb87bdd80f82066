import ZBasic.Wbubus.Deword

/-!
# From groups to characters

`wbucompactlines` takes the newlines out of the stream of groups, except where a line is
full, and puts one back when nothing more is coming. `wbusixchar` maps groups to
characters.
-/

namespace ZBasic

/-! ### `wbucompactlines` -/

/-- `TRIGGER_LENGTH` -/
def triggerLength : BitVec 7 := 79 - 6

/-- The registers of `wbucompactlines`. -/
structure Wbucompactlines where
  oStb : Bool
  oNlHexbits : BitVec 7
  lastOutNl : Bool
  lastInNl : Bool
  fullLine : Bool
  rBusy : Bool
  linelen : BitVec 7
deriving DecidableEq, Repr

namespace Wbucompactlines

/-- The registers at power up; `o_nl_hexbits` has no initial value. -/
def initial (oNlHexbits : BitVec 7) : Wbucompactlines where
  oStb := false
  oNlHexbits := oNlHexbits
  lastOutNl := true
  lastInNl := true
  fullLine := false
  rBusy := false
  linelen := 0

/-- The inputs of `wbucompactlines` at a clock: the group or newline offered, if any,
whether more is expected from the bus, and whether the next stage is busy. -/
structure Input where
  iStb : Option (BitVec 7)
  iBusBusy : Bool
  iTxBusy : Bool

/-- `o_busy` -/
def oBusy (s : Wbucompactlines) : Bool := s.rBusy || s.oStb

/-- One clock of `wbucompactlines`. -/
def step (s : Wbucompactlines) (i : Input) : Wbucompactlines where
  oStb :=
    if s.oBusy then
      if !i.iTxBusy then false else s.oStb
    else match i.iStb with
      | some b => s.fullLine || !isNl b
      | none => !i.iTxBusy && !i.iBusBusy && !s.lastOutNl && s.lastInNl
  oNlHexbits := if s.oBusy then s.oNlHexbits else i.iStb.getD 0x40
  lastOutNl := if !i.iTxBusy && s.oStb then isNl s.oNlHexbits else s.lastOutNl
  lastInNl :=
    match i.iStb, s.oBusy with
    | some b, false => isNl b
    | _, _ => s.lastInNl
  fullLine :=
    if !i.iTxBusy && s.oStb then
      if isNl s.oNlHexbits then false else triggerLength ≤ s.linelen
    else s.fullLine
  rBusy := s.oStb && i.iTxBusy
  linelen :=
    if !i.iTxBusy && s.oStb then
      if isNl s.oNlHexbits then 0 else s.linelen + 1
    else s.linelen

/-- What is waiting for the next stage. -/
def held (s : Wbucompactlines) : List (BitVec 7) :=
  if s.oStb then [s.oNlHexbits] else []

/-- What the next stage takes at a clock. -/
def sent (s : Wbucompactlines) (i : Input) : List (BitVec 7) :=
  if i.iTxBusy then [] else s.held

/-- The groups and newlines that get into the stream at a clock. -/
def entered (s : Wbucompactlines) (i : Input) : List (BitVec 7) :=
  if s.oBusy then []
  else match i.iStb with
    | some b => if s.fullLine || !isNl b then [b] else []
    | none => if !i.iTxBusy && !i.iBusBusy && !s.lastOutNl && s.lastInNl then [nlHexbits] else []

/-- The stage is busy exactly when something waits, and right after a newline no other
newline waits or will be let in. -/
structure Inv (s : Wbucompactlines) : Prop where
  rBusy : s.rBusy = true → s.oStb = true
  fullLine : s.lastOutNl = true → s.fullLine = false
  notNl : s.lastOutNl = true → s.oStb = true → isNl s.oNlHexbits = false

theorem initial_inv (oNlHexbits : BitVec 7) :
  (initial oNlHexbits).Inv
  := by constructor <;> simp [initial]

theorem oBusy_eq {s : Wbucompactlines} (h : s.Inv) :
  s.oBusy = s.oStb
  := by
  have := h.rBusy
  unfold oBusy
  grind

theorem step_inv {s : Wbucompactlines} {i : Input} (h : s.Inv) :
  (s.step i).Inv
  := by
  have hbusy := oBusy_eq h
  have hfull := h.fullLine
  have hnot := h.notNl
  constructor
  · simp only [step, hbusy]
    grind
  · simp only [step]
    grind
  · simp only [step, hbusy]
    cases i.iStb <;> grind

/-- What leaves and what waits is what waited and what came in. -/
theorem step_held {s : Wbucompactlines} {i : Input} (h : s.Inv) :
  s.sent i ++ (s.step i).held = s.held ++ s.entered i
  := by
  simp only [sent, held, entered, step, oBusy_eq h]
  cases s.oStb with
  | true => cases i.iTxBusy <;> simp
  | false => cases i.iStb <;> simp [nlHexbits]

/-- Only a newline can be made up, and only with nothing on offer and after a group. -/
theorem entered_of_none {s : Wbucompactlines} {i : Input} (hi : i.iStb = none) :
  s.entered i = [] ∨ s.entered i = [nlHexbits] ∧ s.lastOutNl = false
  := by
  simp only [entered, hi]
  grind

/-- A group on offer gets into the stream; a newline may. -/
theorem entered_of_some {s : Wbucompactlines} {i : Input} {b : BitVec 7} (h : s.Inv)
    (hs : s.oStb = false) (hi : i.iStb = some b) :
  s.entered i = [b] ∨ s.entered i = [] ∧ isNl b = true
  := by
  simp only [entered, oBusy_eq h, hs, hi]
  grind

theorem entered_of_oStb {s : Wbucompactlines} {i : Input} (hs : s.oStb = true) :
  s.entered i = []
  := by simp [entered, oBusy, hs]

end Wbucompactlines

/-! ### `wbusixchar` -/

/-- The table `remap`. -/
def remap (k : BitVec 7) : BitVec 7 :=
  if 64#7 ≤ k then 0x0a
  else if k ≤ 9#7 then 0x30 + (0#3 ++ k.extractLsb' 0 4)
  else if k.extractLsb' 0 6 ≤ 35#6 then 0x41 + (0#1 ++ k.extractLsb' 0 6) - 10
  else if k.extractLsb' 0 6 ≤ 61#6 then 0x61 + (0#1 ++ k.extractLsb' 0 6) - 36
  else if k.extractLsb' 0 6 = 62#6 then 0x40
  else 0x25

/-- The character sent for a group or a newline. -/
def sixchar (b : BitVec 7) : BitVec 8 := 0#1 ++ remap b

/-- The newline character. -/
def newline : BitVec 8 := 0x0a

theorem sixchar_eq_newline (b : BitVec 7) :
  sixchar b = newline ↔ isNl b = true
  := by
  revert b
  decide

@[simp]
theorem sixchar_nlHexbits :
  sixchar nlHexbits = newline
  := rfl

@[simp]
theorem sixchar_hexbits_ne (g : BitVec 6) :
  sixchar (hexbits g) ≠ newline
  := by
  rw [ne_eq, sixchar_eq_newline, isNl_hexbits]
  decide

/-- The registers of `wbusixchar`. -/
structure Wbusixchar where
  oStb : Bool
  oChar : BitVec 8
deriving DecidableEq, Repr

namespace Wbusixchar

/-- The registers at power up. -/
def initial : Wbusixchar where
  oStb := false
  oChar := 0

/-- The inputs of `wbusixchar` at a clock. -/
structure Input where
  iStb : Bool
  iBits : BitVec 7
  iBusy : Bool

/-- `o_busy` -/
def oBusy (s : Wbusixchar) : Bool := s.oStb

/-- One clock of `wbusixchar`. -/
def step (s : Wbusixchar) (i : Input) : Wbusixchar where
  oStb := if !s.oStb || !i.iBusy then i.iStb else s.oStb
  oChar := if !s.oBusy then sixchar i.iBits else s.oChar

/-- The character waiting for the transmitter. -/
def held (s : Wbusixchar) : List (BitVec 8) :=
  if s.oStb then [s.oChar] else []

/-- The character the transmitter takes at a clock. -/
def emitted (s : Wbusixchar) (i : Input) : List (BitVec 8) :=
  if i.iBusy then [] else s.held

/-- The character that comes in at a clock. -/
def entered (s : Wbusixchar) (i : Input) : List (BitVec 8) :=
  if s.oBusy || !i.iStb then [] else [sixchar i.iBits]

/-- The strobe is set again, with the character just sent still in place. -/
def Reload (s : Wbusixchar) (i : Input) : Prop :=
  s.oStb = true ∧ i.iBusy = false ∧ i.iStb = true

instance (s : Wbusixchar) (i : Input) : Decidable (s.Reload i) :=
  inferInstanceAs (Decidable (_ ∧ _ ∧ _))

/-- Except when it reloads, the stage keeps and loses no character. -/
theorem step_held {s : Wbusixchar} {i : Input} (h : ¬ s.Reload i) :
  s.emitted i ++ (s.step i).held = s.held ++ s.entered i
  := by
  cases hs : s.oStb with
  | false => cases hi : i.iStb <;> simp [emitted, held, entered, step, oBusy, hs, hi]
  | true =>
      cases hbusy : i.iBusy with
      | true => simp [emitted, held, entered, step, oBusy, hs, hbusy]
      | false =>
          have hi : i.iStb = false := by
            by_contra hi
            apply h
            simp_all [Reload]
          simp [emitted, held, entered, step, oBusy, hs, hbusy, hi]

/-- A stage that reloads shows the character it has just sent once more. -/
theorem step_of_reload {s : Wbusixchar} {i : Input} (hs : s.oStb = true) (hi : i.iStb = true) :
  s.step i = s
  := by
  cases s
  simp_all [step, oBusy]

end Wbusixchar

end ZBasic
