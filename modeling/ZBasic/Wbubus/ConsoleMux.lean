import ZBasic.Wbubus.Lines

/-!
# Two channels on one serial port

`wbuconsole` shares the serial port between the debug bus and the console. The top bit of a
byte tells which of them it belongs to: it is set for the debug bus.
-/

namespace ZBasic

/-! ### Bytes of the two channels -/

/-- A byte that belongs to the debug bus. -/
def isCommand (b : BitVec 8) : Bool := b.getLsbD 7

/-- The byte without its top bit. -/
def strip (b : BitVec 8) : BitVec 8 := b &&& 0x7f

/-- The bytes of the debug bus, without their top bits. -/
def commands (bs : List (BitVec 8)) : List (BitVec 8) := (bs.filter isCommand).map strip

/-- The bytes of the console. -/
def texts (bs : List (BitVec 8)) : List (BitVec 8) := bs.filter fun b => !isCommand b

@[simp]
theorem commands_nil :
  commands [] = []
  := rfl

@[simp]
theorem texts_nil :
  texts [] = []
  := rfl

@[simp]
theorem commands_append (bs cs : List (BitVec 8)) :
  commands (bs ++ cs) = commands bs ++ commands cs
  := by rw [commands, List.filter_append, List.map_append, commands, commands]

@[simp]
theorem texts_append (bs cs : List (BitVec 8)) :
  texts (bs ++ cs) = texts bs ++ texts cs
  := List.filter_append bs cs

theorem commands_of_texts {bs : List (BitVec 8)} (h : ∀ b ∈ bs, isCommand b = false) :
  commands bs = []
  := by
  rw [commands, List.filter_eq_nil_iff.mpr, List.map_nil]
  intro b hb
  simp [h b hb]

theorem texts_of_texts {bs : List (BitVec 8)} (h : ∀ b ∈ bs, isCommand b = false) :
  texts bs = bs
  := by
  apply List.filter_eq_self.mpr
  intro b hb
  simp [h b hb]

theorem texts_of_commands {bs : List (BitVec 8)} (h : ∀ b ∈ bs, isCommand b = true) :
  texts bs = []
  := by
  apply List.filter_eq_nil_iff.mpr
  intro b hb
  simp [h b hb]

theorem commands_singleton (b : BitVec 8) :
  commands [b] = if isCommand b then [strip b] else []
  := by cases h : isCommand b <;> simp [commands, h]

theorem texts_singleton (b : BitVec 8) :
  texts [b] = if isCommand b then [] else [b]
  := by cases h : isCommand b <;> simp [texts, h]

/-! ### The port -/

/-- The registers of `wbuconsole` between the serial port, the debug bus and the console. -/
structure ConsoleMux where
  oConsoleStb : Bool
  oConsoleData : BitVec 7
  cmdPortActive : Bool
  psFull : Bool
  psData : BitVec 8
  mkbytes : Wbusixchar

namespace ConsoleMux

/-- What comes from outside at a clock: the byte received, the group offered to
`wbusixchar`, the character offered by `wbconsole`, and whether the transmitter is busy. -/
structure Input where
  iRxStb : Bool
  iRxData : BitVec 8
  lnStb : Bool
  lnBits : BitVec 7
  iConsoleStb : Bool
  iConsoleData : BitVec 7
  iTxBusy : Bool

section Step

variable (s : ConsoleMux) (i : Input)

/-- What `wbusixchar` sees. -/
def mkbytesInput : Wbusixchar.Input where
  iStb := i.lnStb
  iBits := i.lnBits
  iBusy := s.psFull && s.cmdPortActive

/-- `o_console_busy` -/
def oConsoleBusy : Bool := (s.mkbytes.oStb && s.cmdPortActive) || s.psFull

/-- One clock of the port. -/
def step : ConsoleMux where
  oConsoleStb := i.iRxStb && !isCommand i.iRxData
  oConsoleData := i.iRxData.extractLsb' 0 7
  cmdPortActive := s.cmdPortActive || (i.iRxStb && isCommand i.iRxData)
  psFull :=
    if !s.psFull then (s.cmdPortActive && s.mkbytes.oStb) || i.iConsoleStb
    else i.iTxBusy
  psData :=
    if !s.psFull then
      if s.cmdPortActive && s.mkbytes.oStb then 1#1 ++ s.mkbytes.oChar.extractLsb' 0 7
      else if i.iConsoleStb then 0#1 ++ i.iConsoleData
      else s.psData
    else s.psData
  mkbytes := s.mkbytes.step (s.mkbytesInput i)

/-! What happens at a clock. -/

/-- The byte that the decoder of the debug bus gets. -/
def decoded : List (BitVec 8) :=
  if i.iRxStb && isCommand i.iRxData then [0#1 ++ i.iRxData.extractLsb' 0 7] else []

/-- The character that the console gets. -/
def delivered : List (BitVec 7) := if s.oConsoleStb then [s.oConsoleData] else []

/-- The character that `wbusixchar` takes for sent, once the command port is active. -/
def replied : List (BitVec 8) := if s.cmdPortActive then s.mkbytes.emitted (s.mkbytesInput i) else []

/-- The character that `wbconsole` takes out of its transmit memory. -/
def printed : List (BitVec 7) := if i.iConsoleStb && !s.oConsoleBusy then [i.iConsoleData] else []

/-- The byte that the transmitter takes. -/
def transmitted : List (BitVec 8) := if s.psFull && !i.iTxBusy then [s.psData] else []

/-- The byte waiting for the transmitter. -/
def held : List (BitVec 8) := if s.psFull then [s.psData] else []

end Step

/-! ### What one clock does -/

variable {s : ConsoleMux} {i : Input}

/-- The characters of the debug bus have no top bit. -/
def Plain (s : ConsoleMux) : Prop := isCommand s.mkbytes.oChar = false

theorem Plain.step (h : s.Plain) :
  (s.step i).Plain
  := by
  have hsix : ∀ b : BitVec 7, isCommand (sixchar b) = false := by decide
  simp only [Plain, ConsoleMux.step, Wbusixchar.step]
  split
  · apply hsix
  · apply h

/-- A character of the debug bus as it is sent. -/
def busByte (c : BitVec 8) : BitVec 8 := 1#1 ++ c.extractLsb' 0 7

/-- A character of the console as it is sent. -/
def consoleByte (c : BitVec 7) : BitVec 8 := 0#1 ++ c

theorem isCommand_busByte (c : BitVec 8) :
  isCommand (busByte c) = true
  := by
  revert c
  decide

theorem strip_busByte {c : BitVec 8} (h : isCommand c = false) :
  strip (busByte c) = c
  := by
  revert c
  decide

theorem isCommand_consoleByte (c : BitVec 7) :
  isCommand (consoleByte c) = false
  := by
  revert c
  decide

/-- At a clock at most one channel gets the port, and it is the one that takes its
character for sent. -/
theorem held_step :
  s.transmitted i ++ (s.step i).held
    = s.held ++ (s.replied i).map busByte ++ (s.printed i).map consoleByte
  := by
  cases hfull : s.psFull with
  | true =>
      cases hbusy : i.iTxBusy <;> cases hactive : s.cmdPortActive <;>
        simp [transmitted, held, replied, printed, step, oConsoleBusy, mkbytesInput,
          Wbusixchar.emitted, hfull, hbusy, hactive]
  | false =>
      cases hactive : s.cmdPortActive <;> cases hstb : s.mkbytes.oStb <;>
        cases hcon : i.iConsoleStb <;>
        simp [transmitted, held, replied, printed, step, oConsoleBusy, mkbytesInput,
          Wbusixchar.emitted, Wbusixchar.held, busByte, consoleByte, hfull, hactive, hstb, hcon]

/-- A transmitter that is not busy takes the byte that waits for it. -/
theorem transmitted_ne_nil (h : s.held ≠ []) (hbusy : i.iTxBusy = false) :
  s.transmitted i ≠ []
  := by
  cases hfull : s.psFull with
  | true => simp [transmitted, hfull, hbusy]
  | false => simp [held, hfull] at h

theorem Plain.replied (h : s.Plain) {c : BitVec 8} (hc : c ∈ s.replied i) :
  isCommand c = false
  := by
  have hchar : c = s.mkbytes.oChar := by
    simp only [ConsoleMux.replied, Wbusixchar.emitted, Wbusixchar.held] at hc
    grind
  rw [hchar]
  apply h

theorem commands_busBytes {cs : List (BitVec 8)} (h : ∀ c ∈ cs, isCommand c = false) :
  commands (cs.map busByte) = cs
  := by
  induction cs with
  | nil => rfl
  | cons c cs ih =>
      obtain ⟨hc, hcs⟩ := List.forall_mem_cons.mp h
      rw [List.map_cons, ← List.singleton_append, commands_append, commands_singleton,
        if_pos (isCommand_busByte c), strip_busByte hc, ih hcs, List.singleton_append]

theorem texts_busBytes (cs : List (BitVec 8)) :
  texts (cs.map busByte) = []
  := by
  apply texts_of_commands
  intro b hb
  obtain ⟨c, -, rfl⟩ := List.mem_map.mp hb
  apply isCommand_busByte

theorem not_isCommand_of_mem_consoleBytes {cs : List (BitVec 7)} {b : BitVec 8}
    (hb : b ∈ cs.map consoleByte) :
  isCommand b = false
  := by
  obtain ⟨c, -, rfl⟩ := List.mem_map.mp hb
  apply isCommand_consoleByte

/-- The characters of the debug bus get through the port. -/
theorem commands_step (h : s.Plain) :
  commands (s.transmitted i) ++ commands (s.step i).held = commands s.held ++ s.replied i
  := by
  rw [← commands_append, held_step, commands_append, commands_append,
    commands_busBytes fun c hc => h.replied hc,
    commands_of_texts fun b hb => not_isCommand_of_mem_consoleBytes hb, List.append_nil]

/-- The characters of the console get through the port. -/
theorem texts_step :
  texts (s.transmitted i) ++ texts (s.step i).held
    = texts s.held ++ (s.printed i).map consoleByte
  := by
  rw [← texts_append, held_step, texts_append, texts_append, texts_busBytes,
    texts_of_texts fun b hb => not_isCommand_of_mem_consoleBytes hb, List.append_nil]

/-! ### What is received -/

/-- The byte received at a clock. -/
def received (i : Input) : List (BitVec 8) := if i.iRxStb then [i.iRxData] else []

/-- The decoder gets the bytes of the debug bus. -/
theorem decoded_eq (i : Input) :
  decoded i = commands (received i)
  := by
  have hstrip : ∀ b : BitVec 8, 0#1 ++ b.extractLsb' 0 7 = strip b := by decide
  rw [decoded, received, hstrip]
  cases hstb : i.iRxStb with
  | true => rw [if_pos rfl, commands_singleton, Bool.true_and]
  | false => rfl

/-- The console gets the others, a clock later. -/
theorem delivered_step :
  (s.step i).delivered = (texts (received i)).map (·.extractLsb' 0 7)
  := by
  rw [delivered, received]
  cases hstb : i.iRxStb with
  | true =>
      rw [if_pos rfl, texts_singleton]
      cases htop : isCommand i.iRxData <;> simp [step, hstb, htop]
  | false => simp [step, hstb]

end ConsoleMux

end ZBasic
