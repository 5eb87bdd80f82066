import ZBasic.Clocked.Run
import ZBasic.Host.Netuart

/-!
# Two sockets, one serial line, two channels

`netuart` and `wbuconsole` at the two ends of a serial line that keeps the order of its
bytes. What arrives at the sockets, what the two programs do and what happens on the line
are events, in any order.
-/

namespace ZBasic

open Clocked

/-- `netuart` and `wbuconsole`, and the bytes on the line between them. -/
structure Channels where
  net : Netuart
  down : List (BitVec 8)
  up : List (BitVec 8)
  port : ConsoleMux

namespace Channels

/-- What may happen next. -/
inductive Event where
  /-- A byte arrives at the command socket. -/
  | cmd (b : BitVec 8)
  /-- A byte arrives at the console socket. -/
  | con (b : BitVec 8)
  /-- `netuart` makes its next call, which reads or writes up to `k` bytes. -/
  | call (k : ℕ)
  /-- A byte gets to the host. -/
  | arrive
  /-- A clock of the FPGA, at which a byte may get to it, if there is one. -/
  | clock (i : ConsoleMux.Input)

/-- The inputs of `wbuconsole`, the byte received being the next one on the line. -/
def portInput (s : Channels) (i : ConsoleMux.Input) : ConsoleMux.Input :=
  match s.down with
  | b :: _ => { i with iRxData := if i.iRxStb then b else i.iRxData }
  | [] => { i with iRxStb := false }

@[simp]
theorem portInput_iTxBusy (s : Channels) (i : ConsoleMux.Input) :
  (s.portInput i).iTxBusy = i.iTxBusy
  := by
  unfold portInput
  split <;> rfl

/-- The next event. -/
def step (s : Channels) (e : Event) : Channels :=
  match e with
  | .cmd b => { s with net := s.net.receive [] [b] [] }
  | .con b => { s with net := s.net.receive [] [] [b] }
  | .call k => { s with net := s.net.step k, down := s.down ++ s.net.toTty k }
  | .arrive => { s with up := s.up.tail, net := s.net.receive (s.up.take 1) [] [] }
  | .clock i =>
      { s with
        down := if i.iRxStb then s.down.tail else s.down
        port := s.port.step (s.portInput i)
        up := s.up ++ s.port.transmitted (s.portInput i) }

/-! ### What goes in and what comes out -/

/-- The bytes that arrive at the command socket. -/
def Event.arrivedCmd : Event → List (BitVec 8)
  | .cmd b => [b]
  | _ => []

/-- The bytes that arrive at the console socket. -/
def Event.arrivedCon : Event → List (BitVec 8)
  | .con b => [b]
  | _ => []

section Observed

variable (s : Channels) (e : Event)

/-- What the decoder of the debug bus gets. -/
def decoded : List (BitVec 8) :=
  match e with
  | .clock i => ConsoleMux.decoded (s.portInput i)
  | _ => []

/-- What the console gets. -/
def delivered : List (BitVec 7) :=
  match e with
  | .clock _ => s.port.delivered
  | _ => []

/-- The characters of the debug bus taken at the port, once the command port is active. -/
def replied : List (BitVec 8) :=
  match e with
  | .clock i => s.port.replied (s.portInput i)
  | _ => []

/-- The characters of the console taken at the port. -/
def printed : List (BitVec 7) :=
  match e with
  | .clock i => s.port.printed (s.portInput i)
  | _ => []

/-- What is written to the command socket. -/
def sentCmd : List (BitVec 8) :=
  match e with
  | .call k => s.net.toCmd k
  | _ => []

/-- What is written to the console socket. -/
def sentCon : List (BitVec 8) :=
  match e with
  | .call k => s.net.toCon k
  | _ => []

end Observed

/-! ### What is on its way -/

section OnItsWay

variable (s : Channels)

/-- What is on its way to the decoder. -/
def toDecoder : List (BitVec 8) := commands s.down ++ (commands s.net.sending ++ s.net.cmd)

/-- What is on its way to the console. -/
def toConsole : List (BitVec 7) :=
  s.port.delivered
    ++ (texts s.down ++ (texts s.net.sending ++ s.net.con)).map (·.extractLsb' 0 7)

/-- What is on its way to the command socket. -/
def toCmdSocket : List (BitVec 8) :=
  s.net.writingCmd ++ commands s.net.tty ++ commands s.up ++ commands s.port.held

/-- What is on its way to the console socket. -/
def toConSocket : List (BitVec 8) :=
  s.net.writingCon ++ texts s.net.tty ++ texts s.up ++ texts s.port.held

end OnItsWay

/-- Both sockets are connected, and nothing is on its way. -/
structure Initial (s : Channels) : Prop where
  phase : s.net.phase = .poll
  tty : s.net.tty = []
  cmd : s.net.cmd = []
  con : s.net.con = []
  down : s.down = []
  up : s.up = []
  psFull : s.port.psFull = false
  oConsoleStb : s.port.oConsoleStb = false
  plain : s.port.Plain

/-- Before event `n`, on each of the four ways, what has come out, followed by what is on
its way, is exactly what has gone in, and `netuart` goes on. -/
structure Carried (x : ℕ → Channels) (ev : ℕ → Event) (n : ℕ) : Prop where
  running : (x n).net.phase ≠ .ended
  decoded : log (fun k => (x k).decoded (ev k)) n ++ (x n).toDecoder
    = log (fun k => (ev k).arrivedCmd) n
  delivered : log (fun k => (x k).delivered (ev k)) n ++ (x n).toConsole
    = (log (fun k => (ev k).arrivedCon) n).map (·.extractLsb' 0 7)
  sentCmd : log (fun k => (x k).sentCmd (ev k)) n ++ (x n).toCmdSocket
    = log (fun k => (x k).replied (ev k)) n
  sentCon : log (fun k => (x k).sentCon (ev k)) n ++ (x n).toConSocket
    = (log (fun k => (x k).printed (ev k)) n).map ConsoleMux.consoleByte

/-- The bytes that the sockets can carry: on the command socket those without a top bit,
on the console socket those of them that are not zero. -/
def Event.Carriable : Event → Prop
  | .cmd b => Netuart.CmdByte b
  | .con b => Netuart.ConByte b
  | _ => True

/-! ### One event -/

/-- What holds at every event. -/
structure Inv (s : Channels) : Prop where
  net : s.net.Inv
  plain : s.port.Plain

variable {s : Channels} {e : Event}

theorem Inv.step (h : s.Inv) (he : e.Carriable) :
  (s.step e).Inv
  := by
  cases e with
  | cmd b =>
      constructor
      · apply h.net.receive
        · simpa [Event.Carriable] using he
        · simp
      · apply h.plain
  | con b =>
      constructor
      · apply h.net.receive
        · simp
        · simpa [Event.Carriable] using he
      · apply h.plain
  | call k =>
      constructor
      · apply h.net.step
      · apply h.plain
  | arrive =>
      constructor
      · apply h.net.receive <;> simp
      · apply h.plain
  | clock i =>
      constructor
      · apply h.net
      · apply h.plain.step

/-- The byte that the FPGA receives leaves the line. -/
theorem received_step (i : ConsoleMux.Input) :
  ConsoleMux.received (s.portInput i) ++ (s.step (.clock i)).down = s.down
  := by
  cases hdown : s.down with
  | nil => simp [step, ConsoleMux.received, portInput, hdown]
  | cons b bs => cases hrx : i.iRxStb <;> simp [step, ConsoleMux.received, portInput, hdown, hrx]

theorem Inv.toDecoder_step (h : s.Inv) :
  s.decoded e ++ (s.step e).toDecoder = s.toDecoder ++ e.arrivedCmd
  := by
  cases e with
  | cmd b => simp [decoded, toDecoder, Channels.step, Event.arrivedCmd, Netuart.sending,
      Netuart.receive]
  | con b => simp [decoded, toDecoder, Channels.step, Event.arrivedCmd, Netuart.sending,
      Netuart.receive]
  | call k =>
      simp only [decoded, toDecoder, Channels.step, Event.arrivedCmd, commands_append, List.nil_append,
        List.append_nil, List.append_assoc]
      rw [h.net.commands_step]
  | arrive => simp [decoded, toDecoder, Channels.step, Event.arrivedCmd, Netuart.sending,
      Netuart.receive]
  | clock i =>
      have hline := congrArg commands (received_step (s := s) i)
      rw [commands_append] at hline
      simp only [decoded, toDecoder, Event.arrivedCmd, ConsoleMux.decoded_eq, List.append_nil]
      rw [← List.append_assoc, hline]
      rfl

theorem Inv.toConsole_step (h : s.Inv) :
  s.delivered e ++ (s.step e).toConsole
    = s.toConsole ++ e.arrivedCon.map (·.extractLsb' 0 7)
  := by
  cases e with
  | cmd b => simp [delivered, toConsole, Channels.step, Event.arrivedCon, Netuart.sending,
      Netuart.receive]
  | con b => simp [delivered, toConsole, Channels.step, Event.arrivedCon, Netuart.sending,
      Netuart.receive]
  | call k =>
      simp only [delivered, toConsole, Channels.step, Event.arrivedCon, texts_append, List.nil_append,
        List.append_nil, List.append_assoc, List.map_nil]
      rw [h.net.texts_step]
  | arrive => simp [delivered, toConsole, Channels.step, Event.arrivedCon, Netuart.sending,
      Netuart.receive]
  | clock i =>
      have hline := congrArg texts (received_step (s := s) i)
      rw [texts_append] at hline
      have hport : (s.step (.clock i)).port.delivered
          = (texts (ConsoleMux.received (s.portInput i))).map (·.extractLsb' 0 7) :=
        ConsoleMux.delivered_step
      simp only [delivered, toConsole, Event.arrivedCon, List.map_nil, List.append_nil]
      rw [hport, ← List.map_append, ← List.append_assoc, hline]
      rfl

theorem up_step :
  s.up.take 1 ++ s.up.tail = s.up
  := by cases s.up <;> rfl

theorem toCmdSocket_step (h : s.Inv) :
  s.sentCmd e ++ (s.step e).toCmdSocket = s.toCmdSocket ++ s.replied e
  := by
  cases e with
  | cmd b => simp [sentCmd, toCmdSocket, step, replied, Netuart.writingCmd, Netuart.receive]
  | con b => simp [sentCmd, toCmdSocket, step, replied, Netuart.writingCmd, Netuart.receive]
  | call k =>
      have hnet := Netuart.toCmd_step (s := s.net) (k := k)
      simp only [sentCmd, toCmdSocket, step, replied, List.append_nil]
      rw [← List.append_assoc, ← List.append_assoc, hnet]
  | arrive =>
      have hline := congrArg commands (up_step (s := s))
      rw [commands_append] at hline
      simp only [sentCmd, toCmdSocket, step, replied, List.append_nil, List.nil_append]
      rw [← hline]
      simp [Netuart.receive, Netuart.writingCmd]
  | clock i =>
      have hport := ConsoleMux.commands_step (i := s.portInput i) h.plain
      simp only [sentCmd, toCmdSocket, step, replied, List.nil_append, commands_append]
      rw [List.append_assoc, List.append_assoc (commands s.up), hport]
      simp

theorem toConSocket_step :
  s.sentCon e ++ (s.step e).toConSocket
    = s.toConSocket ++ (s.printed e).map ConsoleMux.consoleByte
  := by
  cases e with
  | cmd b => simp [sentCon, toConSocket, step, printed, Netuart.writingCon, Netuart.receive]
  | con b => simp [sentCon, toConSocket, step, printed, Netuart.writingCon, Netuart.receive]
  | call k =>
      have hnet := Netuart.toCon_step (s := s.net) (k := k)
      simp only [sentCon, toConSocket, step, printed, List.append_nil, List.map_nil]
      rw [← List.append_assoc, ← List.append_assoc, hnet]
  | arrive =>
      have hline := congrArg texts (up_step (s := s))
      rw [texts_append] at hline
      simp only [sentCon, toConSocket, step, printed, List.nil_append]
      rw [← hline]
      simp [Netuart.receive, Netuart.writingCon]
  | clock i =>
      have hport := ConsoleMux.texts_step (s := s.port) (i := s.portInput i)
      simp only [sentCon, toConSocket, step, printed, List.nil_append, texts_append]
      rw [List.append_assoc, List.append_assoc (texts s.up), hport]
      simp

/-! ### Any number of events -/

theorem Initial.inv (h : s.Initial) :
  s.Inv
  := by
  constructor
  · constructor
    · simp [h.phase]
    · simp [h.phase]
    · simp [h.cmd]
    · simp [h.con]
    · simp [h.phase]
    · simp [h.phase]
  · apply h.plain

theorem Initial.toDecoder (h : s.Initial) :
  s.toDecoder = []
  := by simp [Channels.toDecoder, Netuart.sending, h.down, h.phase, h.cmd]

theorem Initial.toConsole (h : s.Initial) :
  s.toConsole = []
  := by
  simp [Channels.toConsole, ConsoleMux.delivered, Netuart.sending, h.oConsoleStb, h.down,
    h.phase, h.con]

theorem Initial.toCmdSocket (h : s.Initial) :
  s.toCmdSocket = []
  := by
  simp [Channels.toCmdSocket, ConsoleMux.held, Netuart.writingCmd, h.phase, h.tty, h.up,
    h.psFull]

theorem Initial.toConSocket (h : s.Initial) :
  s.toConSocket = []
  := by
  simp [Channels.toConSocket, ConsoleMux.held, Netuart.writingCon, h.phase, h.tty, h.up,
    h.psFull]

section Runs

variable {s₀ : Channels} {ev : ℕ → Event}

theorem Initial.inv_run (h₀ : s₀.Initial) (hev : ∀ n, (ev n).Carriable) (n : ℕ) :
  (run step s₀ ev n).Inv
  := by
  apply run_induction h₀.inv
  intro n s hs
  apply hs.step (hev n)

/-- Whatever happens in whatever order, as long as only bytes arrive that the sockets can
carry, each byte and each character gets to where it belongs, in order, and to nowhere
else. -/
theorem Initial.carried (h₀ : s₀.Initial) (hev : ∀ n, (ev n).Carriable) (n : ℕ) :
  Carried (run step s₀ ev) ev n
  := by
  have hinv := h₀.inv_run hev
  constructor
  · apply (hinv n).net.running
  · have hcons : Conserves (fun n => (run step s₀ ev n).toDecoder) (fun n => (ev n).arrivedCmd)
        (fun n => (run step s₀ ev n).decoded (ev n)) := fun n => (hinv n).toDecoder_step
    rw [hcons.log_eq n]
    simp [h₀.toDecoder]
  · have hcons : Conserves (fun n => (run step s₀ ev n).toConsole)
        (fun n => (ev n).arrivedCon.map (·.extractLsb' 0 7))
        (fun n => (run step s₀ ev n).delivered (ev n)) := fun n => (hinv n).toConsole_step
    rw [hcons.log_eq n, log_map]
    simp [h₀.toConsole]
  · have hcons : Conserves (fun n => (run step s₀ ev n).toCmdSocket)
        (fun n => (run step s₀ ev n).replied (ev n))
        (fun n => (run step s₀ ev n).sentCmd (ev n)) := fun n => toCmdSocket_step (hinv n)
    rw [hcons.log_eq n]
    simp [h₀.toCmdSocket]
  · have hcons : Conserves (fun n => (run step s₀ ev n).toConSocket)
        (fun n => ((run step s₀ ev n).printed (ev n)).map ConsoleMux.consoleByte)
        (fun n => (run step s₀ ev n).sentCon (ev n)) := fun n => toConSocket_step
    rw [hcons.log_eq n, log_map]
    simp [h₀.toConSocket]

end Runs

end Channels

end ZBasic
