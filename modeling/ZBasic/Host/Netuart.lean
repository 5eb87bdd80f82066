import ZBasic.Wbubus.ConsoleMux

/-!
# The server of the serial port

`netuart` passes bytes between the serial port and two sockets, one for commands and one
for the console. The main loop is modelled call by call, from when both sockets are
connected; what it prints is left out, but not the assertion made when it prints.
-/

namespace ZBasic

namespace Netuart

/-- Where the main loop is. `cmd` and `con` tell whether `poll` found something to read at
the two sockets. -/
inductive Phase where
  /-- Before `poll`. -/
  | poll
  /-- Before a `read` of the serial port, the first one or one in the loop. -/
  | readTty (first cmd con : Bool)
  /-- Writing to the command socket; `buf` is still to be written to the console socket. -/
  | writeCmd (rest buf : List (BitVec 8)) (cmd con : Bool)
  /-- Writing to the console socket. -/
  | writeCon (rest : List (BitVec 8)) (cmd con : Bool)
  /-- Before the command socket is read. -/
  | readCmd (cmd con : Bool)
  /-- Writing the bytes `buf` of the command socket to the serial port. -/
  | sendCmd (rest buf : List (BitVec 8)) (con : Bool)
  /-- Before the console socket is read. -/
  | readCon (con : Bool)
  /-- Writing the bytes `buf` of the console socket to the serial port. -/
  | sendCon (rest buf : List (BitVec 8))
  /-- The program has ended. -/
  | ended
deriving DecidableEq

end Netuart

/-- The server, and the bytes that have come in and are not read yet. -/
structure Netuart where
  phase : Netuart.Phase
  tty : List (BitVec 8)
  cmd : List (BitVec 8)
  con : List (BitVec 8)

namespace Netuart

/-- The size of `rawbuf` and of `m_buf`. -/
def bufLength : ℕ := 256

/-- How many bytes a `read` returns of those that are there: some, as many as it likes. -/
def nread (k : ℕ) (bs : List (BitVec 8)) : ℕ := min (min (max 1 k) bufLength) bs.length

/-- The assertion of `print_out`. -/
def printable (buf : List (BitVec 8)) : Bool := buf.all (· ≠ 0)

/-- `mask` of the command socket. -/
def masked (b : BitVec 8) : BitVec 8 := b ||| 0x80

/-- More bytes come in. -/
def receive (s : Netuart) (tty cmd con : List (BitVec 8)) : Netuart where
  phase := s.phase
  tty := s.tty ++ tty
  cmd := s.cmd ++ cmd
  con := s.con ++ con

section Step

variable (s : Netuart) (k : ℕ)

/-- The next call of the main loop, which reads or writes up to `k` bytes. A `write` of no
byte is one to be tried again. -/
def step : Netuart :=
  match s.phase with
  | .poll =>
      if s.tty ≠ [] then { s with phase := .readTty true (s.cmd ≠ []) (s.con ≠ []) }
      else if s.cmd ≠ [] ∨ s.con ≠ [] then { s with phase := .readCmd (s.cmd ≠ []) (s.con ≠ []) }
      else s
  | .readTty first cmd con =>
      let nr := nread k s.tty
      if nr = 0 then { s with phase := if first then .ended else .readCmd cmd con }
      else
        { s with
          tty := s.tty.drop nr
          phase := .writeCmd (commands (s.tty.take nr)) (texts (s.tty.take nr)) cmd con }
  | .writeCmd rest buf cmd con =>
      if rest = [] then { s with phase := .writeCon buf cmd con }
      else { s with phase := .writeCmd (rest.drop k) buf cmd con }
  | .writeCon rest cmd con =>
      if rest = [] then { s with phase := .readTty false cmd con }
      else { s with phase := .writeCon (rest.drop k) cmd con }
  | .readCmd cmd con =>
      let nr := nread k s.cmd
      if !cmd || nr = 0 then { s with phase := .readCon con }
      else
        let buf := (s.cmd.take nr).map masked
        { s with cmd := s.cmd.drop nr, phase := .sendCmd buf buf con }
  | .sendCmd rest buf con =>
      if rest = [] then { s with phase := if printable buf then .readCon con else .ended }
      else { s with phase := .sendCmd (rest.drop k) buf con }
  | .readCon con =>
      let nr := nread k s.con
      if !con || nr = 0 then { s with phase := .poll }
      else
        let buf := s.con.take nr
        { s with con := s.con.drop nr, phase := .sendCon buf buf }
  | .sendCon rest buf =>
      if rest = [] then { s with phase := if printable buf then .poll else .ended }
      else { s with phase := .sendCon (rest.drop k) buf }
  | .ended => s

/-- What the call writes to the serial port. -/
def toTty : List (BitVec 8) :=
  match s.phase with
  | .sendCmd rest _ _ => rest.take k
  | .sendCon rest _ => rest.take k
  | _ => []

/-- What the call writes to the command socket. -/
def toCmd : List (BitVec 8) :=
  match s.phase with
  | .writeCmd rest _ _ _ => rest.take k
  | _ => []

/-- What the call writes to the console socket. -/
def toCon : List (BitVec 8) :=
  match s.phase with
  | .writeCon rest _ _ => rest.take k
  | _ => []

end Step

/-! ### What is still to be passed on -/

/-- What is being written to the serial port. -/
def sending (s : Netuart) : List (BitVec 8) :=
  match s.phase with
  | .sendCmd rest _ _ => rest
  | .sendCon rest _ => rest
  | _ => []

/-- What is being written to the command socket. -/
def writingCmd (s : Netuart) : List (BitVec 8) :=
  match s.phase with
  | .writeCmd rest _ _ _ => rest
  | _ => []

/-- What is being written to the console socket. -/
def writingCon (s : Netuart) : List (BitVec 8) :=
  match s.phase with
  | .writeCmd _ buf _ _ => buf
  | .writeCon rest _ _ => rest
  | _ => []

/-- A byte that the command socket can carry. -/
def CmdByte (b : BitVec 8) : Prop := isCommand b = false

/-- A byte that the console socket can carry. -/
def ConByte (b : BitVec 8) : Prop := isCommand b = false ∧ b ≠ 0

/-- What holds as long as the sockets carry what they can. -/
structure Inv (s : Netuart) : Prop where
  running : s.phase ≠ .ended
  polled : ∀ cmd con, s.phase = .readTty true cmd con → s.tty ≠ []
  cmd : ∀ b ∈ s.cmd, CmdByte b
  con : ∀ b ∈ s.con, ConByte b
  printableCmd : ∀ rest buf con, s.phase = .sendCmd rest buf con → printable buf = true
  printableCon : ∀ rest buf, s.phase = .sendCon rest buf → printable buf = true

variable {s : Netuart} {k : ℕ}

theorem nread_ne_zero {bs : List (BitVec 8)} (h : bs ≠ []) :
  nread k bs ≠ 0
  := by
  have hlen := List.length_pos_of_ne_nil h
  unfold nread bufLength
  omega

theorem printable_masked (bs : List (BitVec 8)) :
  printable (bs.map masked) = true
  := by
  have hne : ∀ b : BitVec 8, ¬ masked b = 0#8 := by decide
  simp [printable, hne]

theorem printable_of_conByte {bs : List (BitVec 8)} (h : ∀ b ∈ bs, ConByte b) :
  printable bs = true
  := by
  simp only [printable, List.all_eq_true, decide_eq_true_eq]
  intro b hb
  apply (h b hb).2

theorem Inv.receive (h : s.Inv) {tty cmd con : List (BitVec 8)} (hcmd : ∀ b ∈ cmd, CmdByte b)
    (hcon : ∀ b ∈ con, ConByte b) :
  (s.receive tty cmd con).Inv
  := by
  constructor
  · apply h.running
  · intro cmd con hphase
    apply List.append_ne_nil_of_left_ne_nil (h.polled cmd con hphase)
  · intro b hb
    rcases List.mem_append.mp hb with hold | hnew
    · apply h.cmd b hold
    · apply hcmd b hnew
  · intro b hb
    rcases List.mem_append.mp hb with hold | hnew
    · apply h.con b hold
    · apply hcon b hnew
  · apply h.printableCmd
  · apply h.printableCon

theorem Inv.step (h : s.Inv) :
  (s.step k).Inv
  := by
  obtain ⟨hrunning, hpolled, hcmd, hcon, hpcmd, hpcon⟩ := h
  cases hphase : s.phase with
  | poll =>
      simp only [Netuart.step, hphase]
      split_ifs with htty
      · constructor <;> simp_all
      · constructor <;> simp_all
      · constructor <;> simp_all
  | readTty first cmd con =>
      simp only [Netuart.step, hphase]
      split_ifs with hnone hfirst
      · rw [hfirst] at hphase
        cases nread_ne_zero (hpolled _ _ hphase) hnone
      · constructor <;> simp_all
      · constructor <;> simp_all
  | writeCmd rest buf cmd con =>
      simp only [Netuart.step, hphase]
      split_ifs <;> constructor <;> simp_all
  | writeCon rest cmd con =>
      simp only [Netuart.step, hphase]
      split_ifs <;> constructor <;> simp_all
  | readCmd cmd con =>
      simp only [Netuart.step, hphase]
      split_ifs
      · constructor <;> simp_all
      · constructor
        · simp
        · simp
        · intro b hb
          apply hcmd b (List.mem_of_mem_drop hb)
        · apply hcon
        · intro rest buf con' heq
          cases heq
          apply printable_masked
        · simp
  | sendCmd rest buf con =>
      have hprint := hpcmd rest buf con hphase
      simp only [Netuart.step, hphase, hprint]
      split_ifs <;> constructor <;> simp_all
  | readCon con =>
      simp only [Netuart.step, hphase]
      split_ifs
      · constructor <;> simp_all
      · constructor
        · simp
        · simp
        · apply hcmd
        · intro b hb
          apply hcon b (List.mem_of_mem_drop hb)
        · simp
        · intro rest buf heq
          cases heq
          apply printable_of_conByte
          intro b hb
          apply hcon b (List.mem_of_mem_take hb)
  | sendCon rest buf =>
      have hprint := hpcon rest buf hphase
      simp only [Netuart.step, hphase, hprint]
      split_ifs <;> constructor <;> simp_all
  | ended => cases hrunning hphase

/-! ### No byte is lost, doubled or sent to the other side -/

theorem isCommand_masked (b : BitVec 8) :
  isCommand (masked b) = true
  := by
  revert b
  decide

theorem commands_masked {bs : List (BitVec 8)} (h : ∀ b ∈ bs, CmdByte b) :
  commands (bs.map masked) = bs
  := by
  have hstrip : ∀ b : BitVec 8, isCommand b = false → strip (masked b) = b := by decide
  induction bs with
  | nil => rfl
  | cons b bs ih =>
      obtain ⟨hb, hbs⟩ := List.forall_mem_cons.mp h
      rw [List.map_cons, ← List.singleton_append, commands_append, commands_singleton,
        if_pos (isCommand_masked b), hstrip b hb, ih hbs, List.singleton_append]

theorem texts_masked (bs : List (BitVec 8)) :
  texts (bs.map masked) = []
  := by
  apply texts_of_commands
  intro b hb
  obtain ⟨c, -, rfl⟩ := List.mem_map.mp hb
  apply isCommand_masked

/-- What the call reads from the command socket. -/
def fetchedCmd (s : Netuart) (k : ℕ) : List (BitVec 8) :=
  match s.phase with
  | .readCmd true _ => s.cmd.take (nread k s.cmd)
  | _ => []

/-- What the call reads from the console socket. -/
def fetchedCon (s : Netuart) (k : ℕ) : List (BitVec 8) :=
  match s.phase with
  | .readCon true => s.con.take (nread k s.con)
  | _ => []

theorem fetchedCmd_step :
  s.fetchedCmd k ++ (s.step k).cmd = s.cmd
  := by
  cases hphase : s.phase with
  | readCmd cmd con =>
      cases cmd <;> simp only [fetchedCmd, Netuart.step, hphase]
      · simp
      · split_ifs with hnone
        · have hzero : nread k s.cmd = 0 := by simpa using hnone
          rw [hzero, List.take_zero, List.nil_append]
        · apply List.take_append_drop
  | ended => simp [fetchedCmd, Netuart.step, hphase]
  | _ =>
      simp only [fetchedCmd, Netuart.step, hphase]
      split_ifs <;> rfl

theorem fetchedCon_step :
  s.fetchedCon k ++ (s.step k).con = s.con
  := by
  cases hphase : s.phase with
  | readCon con =>
      cases con <;> simp only [fetchedCon, Netuart.step, hphase]
      · simp
      · split_ifs with hnone
        · have hzero : nread k s.con = 0 := by simpa using hnone
          rw [hzero, List.take_zero, List.nil_append]
        · apply List.take_append_drop
  | ended => simp [fetchedCon, Netuart.step, hphase]
  | _ =>
      simp only [fetchedCon, Netuart.step, hphase]
      split_ifs <;> rfl

/-- What is read from the sockets goes to the serial port, that of the command socket
marked. -/
theorem sending_step :
  s.toTty k ++ (s.step k).sending
    = s.sending ++ (s.fetchedCmd k).map masked ++ s.fetchedCon k
  := by
  cases hphase : s.phase with
  | poll =>
      simp only [toTty, sending, fetchedCmd, fetchedCon, Netuart.step, hphase]
      split_ifs <;> simp [hphase]
  | readTty first cmd con =>
      simp only [toTty, sending, fetchedCmd, fetchedCon, Netuart.step, hphase]
      split_ifs <;> simp
  | writeCmd rest buf cmd con =>
      simp only [toTty, sending, fetchedCmd, fetchedCon, Netuart.step, hphase]
      split_ifs <;> simp
  | writeCon rest cmd con =>
      simp only [toTty, sending, fetchedCmd, fetchedCon, Netuart.step, hphase]
      split_ifs <;> simp
  | readCmd cmd con =>
      cases cmd <;> simp only [toTty, sending, fetchedCmd, fetchedCon, Netuart.step, hphase]
      · simp
      · split_ifs <;> simp_all
  | sendCmd rest buf con =>
      simp only [toTty, sending, fetchedCmd, fetchedCon, Netuart.step, hphase]
      split_ifs <;> simp_all
  | readCon con =>
      cases con <;> simp only [toTty, sending, fetchedCmd, fetchedCon, Netuart.step, hphase]
      · simp
      · split_ifs <;> simp_all
  | sendCon rest buf =>
      simp only [toTty, sending, fetchedCmd, fetchedCon, Netuart.step, hphase]
      split_ifs <;> simp_all
  | ended => simp [toTty, sending, fetchedCmd, fetchedCon, Netuart.step, hphase]

theorem Inv.fetchedCmd (h : s.Inv) {b : BitVec 8} (hb : b ∈ s.fetchedCmd k) :
  CmdByte b
  := by
  apply h.cmd b
  rw [← fetchedCmd_step (k := k)]
  apply List.mem_append_left _ hb

theorem Inv.fetchedCon (h : s.Inv) {b : BitVec 8} (hb : b ∈ s.fetchedCon k) :
  ConByte b
  := by
  apply h.con b
  rw [← fetchedCon_step (k := k)]
  apply List.mem_append_left _ hb

/-- The bytes of the command socket go to the serial port, marked. -/
theorem Inv.commands_step (h : s.Inv) :
  commands (s.toTty k) ++ (commands (s.step k).sending ++ (s.step k).cmd)
    = commands s.sending ++ s.cmd
  := by
  rw [← List.append_assoc, ← commands_append, sending_step, commands_append, commands_append,
    commands_masked fun b hb => h.fetchedCmd hb,
    commands_of_texts fun b hb => (h.fetchedCon hb).1, List.append_nil, List.append_assoc,
    fetchedCmd_step]

/-- The bytes of the console socket go to the serial port. -/
theorem Inv.texts_step (h : s.Inv) :
  texts (s.toTty k) ++ (texts (s.step k).sending ++ (s.step k).con)
    = texts s.sending ++ s.con
  := by
  rw [← List.append_assoc, ← texts_append, sending_step, texts_append, texts_append,
    texts_masked, texts_of_texts fun b hb => (h.fetchedCon hb).1, List.append_nil,
    List.append_assoc, fetchedCon_step]

/-- What the call reads from the serial port. -/
def fetchedTty (s : Netuart) (k : ℕ) : List (BitVec 8) :=
  match s.phase with
  | .readTty _ _ _ => s.tty.take (nread k s.tty)
  | _ => []

theorem fetchedTty_step :
  s.fetchedTty k ++ (s.step k).tty = s.tty
  := by
  cases hphase : s.phase with
  | readTty first cmd con =>
      simp only [fetchedTty, Netuart.step, hphase]
      split_ifs with hnone hfirst
      · rw [hnone, List.take_zero, List.nil_append]
      · rw [hnone, List.take_zero, List.nil_append]
      · apply List.take_append_drop
  | ended => simp [fetchedTty, Netuart.step, hphase]
  | _ =>
      simp only [fetchedTty, Netuart.step, hphase]
      split_ifs <;> rfl

/-- The marked bytes read from the serial port go to the command socket. -/
theorem writingCmd_step :
  s.toCmd k ++ (s.step k).writingCmd = s.writingCmd ++ commands (s.fetchedTty k)
  := by
  cases hphase : s.phase with
  | readTty first cmd con =>
      simp only [toCmd, writingCmd, fetchedTty, Netuart.step, hphase]
      split_ifs with hnone hfirst
      · simp [hnone]
      · simp [hnone]
      · rfl
  | writeCmd rest buf cmd con =>
      simp only [toCmd, writingCmd, fetchedTty, Netuart.step, hphase]
      split_ifs with hrest
      · simp [hrest]
      · rw [List.take_append_drop, commands_nil, List.append_nil]
  | poll =>
      simp only [toCmd, writingCmd, fetchedTty, Netuart.step, hphase]
      split_ifs <;> simp [hphase]
  | ended => simp [toCmd, writingCmd, fetchedTty, Netuart.step, hphase]
  | _ =>
      simp only [toCmd, writingCmd, fetchedTty, Netuart.step, hphase]
      split_ifs <;> simp

/-- The other bytes go to the console socket. -/
theorem writingCon_step :
  s.toCon k ++ (s.step k).writingCon = s.writingCon ++ texts (s.fetchedTty k)
  := by
  cases hphase : s.phase with
  | readTty first cmd con =>
      simp only [toCon, writingCon, fetchedTty, Netuart.step, hphase]
      split_ifs with hnone hfirst
      · simp [hnone]
      · simp [hnone]
      · rfl
  | writeCmd rest buf cmd con =>
      simp only [toCon, writingCon, fetchedTty, Netuart.step, hphase]
      split_ifs <;> simp
  | writeCon rest cmd con =>
      simp only [toCon, writingCon, fetchedTty, Netuart.step, hphase]
      split_ifs with hrest
      · simp [hrest]
      · rw [List.take_append_drop, texts_nil, List.append_nil]
  | poll =>
      simp only [toCon, writingCon, fetchedTty, Netuart.step, hphase]
      split_ifs <;> simp [hphase]
  | ended => simp [toCon, writingCon, fetchedTty, Netuart.step, hphase]
  | _ =>
      simp only [toCon, writingCon, fetchedTty, Netuart.step, hphase]
      split_ifs <;> simp

theorem toCmd_step :
  s.toCmd k ++ ((s.step k).writingCmd ++ commands (s.step k).tty)
    = s.writingCmd ++ commands s.tty
  := by
  rw [← List.append_assoc, writingCmd_step, List.append_assoc, ← commands_append,
    fetchedTty_step]

theorem toCon_step :
  s.toCon k ++ ((s.step k).writingCon ++ texts (s.step k).tty)
    = s.writingCon ++ texts s.tty
  := by
  rw [← List.append_assoc, writingCon_step, List.append_assoc, ← texts_append,
    fetchedTty_step]

/-! What is to be written is written, as far as a call writes. -/

theorem toTty_ne_nil (h : s.sending ≠ []) (hk : 0 < k) :
  s.toTty k ≠ []
  := by
  have hk' := Nat.ne_of_gt hk
  cases hphase : s.phase <;> simp_all [sending, toTty]

theorem toCmd_ne_nil (h : s.writingCmd ≠ []) (hk : 0 < k) :
  s.toCmd k ≠ []
  := by
  have hk' := Nat.ne_of_gt hk
  cases hphase : s.phase <;> simp_all [writingCmd, toCmd]

/-! ### How the main loop goes round

The loop over the serial port is left when nothing is found there, and the sockets are read
after it, those that `poll` has found something at. -/

/-- The call looks whether there is something to read at the serial port. -/
def looks (s : Netuart) : Bool :=
  match s.phase with
  | .poll => true
  | .readTty _ _ _ => true
  | _ => false

/-- The loop over the serial port is done. -/
def PastTty (s : Netuart) : Prop :=
  match s.phase with
  | .readCmd _ _ => True
  | .sendCmd _ _ _ => True
  | .readCon _ => True
  | .sendCon _ _ => True
  | _ => False

/-- `poll` has found something at the command socket or is about to, and it is not read
yet. -/
def SeenCmd (s : Netuart) : Prop :=
  match s.phase with
  | .poll => True
  | .readTty _ cmd _ => cmd = true
  | .writeCmd _ _ cmd _ => cmd = true
  | .writeCon _ cmd _ => cmd = true
  | .readCmd cmd _ => cmd = true
  | _ => False

/-- The same for the console socket. -/
def SeenCon (s : Netuart) : Prop :=
  match s.phase with
  | .poll => True
  | .readTty _ _ con => con = true
  | .writeCmd _ _ _ con => con = true
  | .writeCon _ _ con => con = true
  | .readCmd _ con => con = true
  | .sendCmd _ _ con => con = true
  | .readCon con => con = true
  | _ => False

/-- How many calls it takes at most, each of which gets something done, until the serial
port is looked at again. -/
def callsLeft (s : Netuart) : ℕ :=
  match s.phase with
  | .poll => 1
  | .readTty _ _ _ => 0
  | .writeCmd rest buf _ _ => rest.length + buf.length + 2
  | .writeCon rest _ _ => rest.length + 1
  | .readCmd _ _ => 2 * bufLength + 5
  | .sendCmd rest _ _ => rest.length + bufLength + 4
  | .readCon _ => bufLength + 3
  | .sendCon rest _ => rest.length + 2
  | .ended => 0

theorem nread_le (k : ℕ) (bs : List (BitVec 8)) :
  nread k bs ≤ bufLength
  := by
  unfold nread
  omega

/-- Where the call does not look at the serial port, there are fewer calls left. -/
theorem callsLeft_step (hrunning : s.phase ≠ .ended) (hlooks : s.looks = false) :
  (s.step k).callsLeft ≤ s.callsLeft ∧ (0 < k → (s.step k).callsLeft < s.callsLeft)
  := by
  have hpos := fun bs : List (BitVec 8) => List.length_pos_of_ne_nil (l := bs)
  cases hphase : s.phase with
  | poll => simp [looks, hphase] at hlooks
  | readTty first cmd con => simp [looks, hphase] at hlooks
  | writeCmd rest buf cmd con =>
      simp only [Netuart.step, callsLeft, hphase]
      split_ifs with hrest
      · simp [hrest]
      · have hlen := hpos rest hrest
        simp only [List.length_drop]
        omega
  | writeCon rest cmd con =>
      simp only [Netuart.step, callsLeft, hphase]
      split_ifs with hrest
      · simp [hrest]
      · have hlen := hpos rest hrest
        simp only [List.length_drop]
        omega
  | readCmd cmd con =>
      have hnread := nread_le k s.cmd
      simp only [Netuart.step, callsLeft, hphase]
      split_ifs
      · simp only
        omega
      · simp only [List.length_map, List.length_take]
        omega
  | sendCmd rest buf con =>
      simp only [Netuart.step, callsLeft, hphase]
      split_ifs with hrest hprint
      · simp only [hrest, List.length_nil]
        omega
      · simp
      · have hlen := hpos rest hrest
        simp only [List.length_drop]
        omega
  | readCon con =>
      have hnread := nread_le k s.con
      simp only [Netuart.step, callsLeft, hphase]
      split_ifs
      · simp only
        omega
      · simp only [List.length_take]
        omega
  | sendCon rest buf =>
      simp only [Netuart.step, callsLeft, hphase]
      split_ifs with hrest hprint
      · simp [hrest]
      · simp
      · have hlen := hpos rest hrest
        simp only [List.length_drop]
        omega
  | ended => cases hrunning hphase

theorem PastTty.looks (h : s.PastTty) :
  s.looks = false
  := by
  cases hphase : s.phase with
  | poll => simp [PastTty, hphase] at h
  | readTty first cmd con => simp [PastTty, hphase] at h
  | _ => simp [Netuart.looks, hphase]

theorem looks_of_writingCon (h : s.writingCon ≠ []) :
  s.looks = false
  := by
  cases hphase : s.phase with
  | poll => simp [writingCon, hphase] at h
  | readTty first cmd con => simp [writingCon, hphase] at h
  | _ => simp [looks, hphase]

/-- The same where there is something to read at the serial port and the call does not read
it. -/
theorem callsLeft_step_of_tty (hrunning : s.phase ≠ .ended) (htty : s.tty ≠ [])
    (hnot : s.fetchedTty k = []) :
  (s.step k).callsLeft ≤ s.callsLeft ∧ (0 < k → (s.step k).callsLeft < s.callsLeft)
  := by
  cases hphase : s.phase with
  | poll =>
      simp only [Netuart.step, callsLeft, hphase]
      rw [if_pos htty]
      simp
  | readTty first cmd con =>
      have hread := nread_ne_zero (k := k) htty
      simp [fetchedTty, hphase, htty, hread] at hnot
  | _ =>
      apply callsLeft_step hrunning
      simp [looks, hphase]

/-- What is left of the loop leads to `poll`. -/
theorem Inv.pastTty_step (h : s.Inv) (hpast : s.PastTty) :
  (s.step k).PastTty ∨ (s.step k).phase = .poll
  := by
  cases hphase : s.phase with
  | readCmd cmd con =>
      simp only [Netuart.step, PastTty, hphase]
      split_ifs <;> simp
  | sendCmd rest buf con =>
      have hprint := h.printableCmd rest buf con hphase
      simp only [Netuart.step, PastTty, hphase, hprint]
      split_ifs <;> simp
  | readCon con =>
      simp only [Netuart.step, PastTty, hphase]
      split_ifs <;> simp
  | sendCon rest buf =>
      have hprint := h.printableCon rest buf hphase
      simp only [Netuart.step, PastTty, hphase, hprint]
      split_ifs <;> simp
  | _ => simp [PastTty, hphase] at hpast

/-- Where the serial port is looked at and nothing is there, the loop over it is done. -/
theorem Inv.pastTty_of_empty (h : s.Inv) (hlooks : s.looks = true) (htty : s.tty = [])
    (hsocket : s.cmd ≠ [] ∨ s.con ≠ []) :
  (s.step k).PastTty
  := by
  cases hphase : s.phase with
  | poll =>
      simp only [Netuart.step, PastTty, hphase, htty]
      rw [if_neg (by simp), if_pos hsocket]
      trivial
  | readTty first cmd con =>
      have hfirst : first = false := by
        cases first with
        | true => cases h.polled cmd con hphase htty
        | false => rfl
      simp [Netuart.step, PastTty, hphase, htty, hfirst, nread]
  | _ => simp [looks, hphase] at hlooks

/-- The command socket is read before the next `poll`, once it is found to hold something. -/
theorem SeenCmd.step (hseen : s.SeenCmd) (hcmd : s.cmd ≠ []) (hrunning : (s.step k).phase ≠ .ended)
    (hnot : s.fetchedCmd k = []) :
  (s.step k).SeenCmd ∧ (s.PastTty → (s.step k).PastTty)
  := by
  have hread : s.cmd.take (nread k s.cmd) ≠ [] := by
    simp [hcmd, nread_ne_zero hcmd]
  cases hphase : s.phase with
  | poll =>
      simp only [Netuart.step, SeenCmd, PastTty, hphase]
      split_ifs <;> simp_all
  | readTty first cmd con =>
      simp only [SeenCmd, hphase] at hseen
      simp only [Netuart.step, SeenCmd, PastTty, hphase] at hrunning ⊢
      split_ifs at hrunning ⊢ <;> simp_all
  | writeCmd rest buf cmd con =>
      simp only [SeenCmd, hphase] at hseen
      simp only [Netuart.step, SeenCmd, PastTty, hphase]
      split_ifs <;> simp [hseen]
  | writeCon rest cmd con =>
      simp only [SeenCmd, hphase] at hseen
      simp only [Netuart.step, SeenCmd, PastTty, hphase]
      split_ifs <;> simp [hseen]
  | readCmd cmd con =>
      simp only [SeenCmd, hphase] at hseen
      simp only [fetchedCmd, hphase, hseen] at hnot
      cases hread hnot
  | _ => simp [SeenCmd, hphase] at hseen

/-- So is the console socket. -/
theorem SeenCon.step (hseen : s.SeenCon) (hcon : s.con ≠ []) (hrunning : (s.step k).phase ≠ .ended)
    (hnot : s.fetchedCon k = []) :
  (s.step k).SeenCon ∧ (s.PastTty → (s.step k).PastTty)
  := by
  have hread : s.con.take (nread k s.con) ≠ [] := by
    simp [hcon, nread_ne_zero hcon]
  cases hphase : s.phase with
  | poll =>
      simp only [Netuart.step, SeenCon, PastTty, hphase]
      split_ifs <;> simp_all
  | readTty first cmd con =>
      simp only [SeenCon, hphase] at hseen
      simp only [Netuart.step, SeenCon, PastTty, hphase] at hrunning ⊢
      split_ifs at hrunning ⊢ <;> simp_all
  | writeCmd rest buf cmd con =>
      simp only [SeenCon, hphase] at hseen
      simp only [Netuart.step, SeenCon, PastTty, hphase]
      split_ifs <;> simp [hseen]
  | writeCon rest cmd con =>
      simp only [SeenCon, hphase] at hseen
      simp only [Netuart.step, SeenCon, PastTty, hphase]
      split_ifs <;> simp [hseen]
  | readCmd cmd con =>
      simp only [SeenCon, hphase] at hseen
      simp only [Netuart.step, SeenCon, PastTty, hphase]
      split_ifs <;> simp [hseen]
  | sendCmd rest buf con =>
      simp only [SeenCon, hphase] at hseen
      simp only [Netuart.step, SeenCon, PastTty, hphase] at hrunning ⊢
      split_ifs at hrunning ⊢ <;> simp_all
  | readCon con =>
      simp only [SeenCon, hphase] at hseen
      simp only [fetchedCon, hphase, hseen] at hnot
      cases hread hnot
  | _ => simp [SeenCon, hphase] at hseen

end Netuart

end ZBasic
