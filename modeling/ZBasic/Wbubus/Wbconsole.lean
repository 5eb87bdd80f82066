import ZBasic.Wbuart.Ufifo

/-!
# The console on the bus

`wbconsole` has a FIFO for the characters from the host, which are read from one register, and one
for those to the host, which are written to another. A read and a write get to the FIFO a clock
late; what the bus is answered is registered once more.
-/

namespace ZBasic

open Clocked

/-- `LCLLGFLEN` -/
def lcllgflen (lgflen : ℕ) : ℕ := if 10 < lgflen then 10 else if lgflen < 2 then 2 else lgflen

/-- The registers of `wbconsole`. -/
structure Wbconsole (lgflen : ℕ) where
  rxfifo : Ufifo (BitVec 7) (lcllgflen lgflen)
  rxfWbRead : Bool
  rxUartReset : Bool
  txfifo : Ufifo (BitVec 7) lgflen
  txfWbWrite : Bool
  txfWbData : BitVec 7
  txUartReset : Bool
  rWbAddr : BitVec 2
  rWbAck : Bool
  oWbAck : Bool
  oWbData : BitVec 32

namespace Wbconsole

/-- The inputs at a clock. -/
structure Input where
  iRst : Bool
  iWbStb : Bool
  iWbWe : Bool
  iWbAddr : BitVec 2
  iWbData : BitVec 32
  iUartBusy : Bool
  iUartStb : Bool
  iUartData : BitVec 7

namespace Input

variable (i : Input)

/-- The addresses of the registers. -/
def uartSetup : BitVec 2 := 0
def uartFifo : BitVec 2 := 1
def uartRxreg : BitVec 2 := 2
def uartTxreg : BitVec 2 := 3

/-- A register is read. -/
def reads (addr : BitVec 2) : Bool := i.iWbStb && i.iWbAddr == addr && !i.iWbWe

/-- A register is written. -/
def writes (addr : BitVec 2) : Bool := i.iWbStb && i.iWbAddr == addr && i.iWbWe

end Input

open Input

variable {lgflen : ℕ}

/-- The registers with an initial value. -/
structure Initial (s : Wbconsole lgflen) : Prop where
  rxfifo : ∃ fifo rData lastWrite, s.rxfifo = .initial true fifo rData lastWrite
  rxfWbRead : s.rxfWbRead = false
  rxUartReset : s.rxUartReset = true
  txfifo : ∃ fifo rData lastWrite, s.txfifo = .initial false fifo rData lastWrite
  txfWbWrite : s.txfWbWrite = false
  txUartReset : s.txUartReset = true

section Wires

variable (s : Wbconsole lgflen) (i : Input)

/-- What the FIFO of the characters from the host is given. -/
def rxInput : Ufifo.Input (BitVec 7) where
  iReset := i.iRst || s.rxUartReset
  iWr := i.iUartStb
  iData := i.iUartData
  iRd := s.rxfWbRead

/-- What the FIFO of the characters to the host is given. -/
def txInput : Ufifo.Input (BitVec 7) where
  iReset := s.txUartReset
  iWr := s.txfWbWrite
  iData := s.txfWbData
  iRd := !i.iUartBusy && s.txfifo.oEmptyN

/-- `o_uart_stb` -/
def oUartStb : Bool := s.txfifo.oEmptyN

/-- `o_uart_data` -/
def oUartData : BitVec 7 := s.txfifo.oData

/-- `wb_rx_data` -/
def wbRxData : BitVec 32 :=
  0#19 ++ BitVec.ofBool (s.rxfifo.oErr (s.rxInput i)) ++ 0#3
    ++ BitVec.ofBool (!s.rxfifo.oEmptyN) ++ 0#1 ++ s.rxfifo.oData

/-- `i_uart_busy|tx_empty_n` -/
def txBusy : Bool := i.iUartBusy || s.txfifo.oEmptyN

/-- `wb_tx_data` -/
def wbTxData : BitVec 32 :=
  0#17 ++ (s.txfifo.oStatus false).extractLsb' 0 2
    ++ BitVec.ofBool (s.txfifo.oErr (s.txInput i)) ++ 0#1 ++ BitVec.ofBool s.oUartStb ++ 0#1
    ++ BitVec.ofBool (s.txBusy i) ++ 0#1 ++ if s.txBusy i then s.txfWbData else 0

/-- `wb_fifo_data` -/
def wbFifoData : BitVec 32 := s.txfifo.oStatus false ++ s.rxfifo.oStatus true

/-- One clock of `wbconsole`. -/
def step : Wbconsole lgflen where
  rxfifo := s.rxfifo.step true (s.rxInput i)
  rxfWbRead := i.reads uartRxreg
  rxUartReset :=
    if i.iRst || i.writes uartSetup then true
    else if i.writes uartRxreg then i.iWbData.getLsbD 12
    else false
  txfifo := s.txfifo.step false (s.txInput i)
  txfWbWrite := i.writes uartTxreg
  txfWbData := i.iWbData.setWidth 7
  txUartReset :=
    if i.iRst || i.writes uartSetup then true
    else if i.writes uartTxreg then i.iWbData.getLsbD 12
    else false
  rWbAddr := i.iWbAddr
  rWbAck := i.iWbStb
  oWbAck := s.rWbAck
  oWbData :=
    if s.rWbAddr = uartSetup then 0
    else if s.rWbAddr = uartFifo then s.wbFifoData
    else if s.rWbAddr = uartRxreg then s.wbRxData i
    else s.wbTxData i

end Wires

/-! ### Runs -/

section Runs

variable (s₀ : Wbconsole lgflen) (inp : ℕ → Input)

/-- The registers before the clock `n`. -/
def state (n : ℕ) : Wbconsole lgflen := run step s₀ inp n

/-- What the FIFO of the characters from the host is given at each clock. -/
def rxInputs (n : ℕ) : Ufifo.Input (BitVec 7) := (state s₀ inp n).rxInput (inp n)

/-- What the FIFO of the characters to the host is given at each clock. -/
def txInputs (n : ℕ) : Ufifo.Input (BitVec 7) := (state s₀ inp n).txInput (inp n)

/-- The characters from the host that are received at a clock. -/
def received (n : ℕ) : List (BitVec 7) :=
  (state s₀ inp n).rxfifo.accepted (rxInputs s₀ inp n)

/-- The characters from the host that are held before a clock. -/
def unread (n : ℕ) : List (BitVec 7) := (state s₀ inp n).rxfifo.contents

/-- The characters that are read over the bus: a read that is asked for at a clock is answered two
clocks later, and bit 8 of the answer says that there was no character. -/
def answered (n : ℕ) : List (BitVec 7) :=
  if (state s₀ inp n).rxfWbRead && !(state s₀ inp (n + 1)).oWbData.getLsbD 8 then
    [(state s₀ inp (n + 1)).oWbData.setWidth 7]
  else []

/-- The characters written over the bus that the FIFO has room for, one clock after the write. -/
def written (n : ℕ) : List (BitVec 7) :=
  (state s₀ inp n).txfifo.accepted (txInputs s₀ inp n)

/-- The characters to the host that are held before a clock. -/
def unsent (n : ℕ) : List (BitVec 7) := (state s₀ inp n).txfifo.contents

/-- The character that is sent to the host at a clock. -/
def sent (n : ℕ) : List (BitVec 7) :=
  if (state s₀ inp n).oUartStb && !(inp n).iUartBusy then [(state s₀ inp n).oUartData] else []

/-- What makes the run from `s₀` on `inp` that of a console. -/
structure Converses : Prop where
  /-- Since the last reset the characters from the host have been read in order, or are held. -/
  receives : ∀ n, logSince (fun k => (rxInputs s₀ inp k).iReset) (answered s₀ inp) n
      ++ unread s₀ inp n
    = logSince (fun k => (rxInputs s₀ inp k).iReset) (received s₀ inp) n
  /-- A character from the host is received unless there is no room for it and none is read. -/
  overruns : ∀ n, received s₀ inp n = if (inp n).iUartStb
    && (!(answered s₀ inp n).isEmpty
      || decide ((unread s₀ inp n).length + 1 < 2 ^ lcllgflen lgflen))
    then [(inp n).iUartData] else []
  /-- Since the last reset the characters written have been sent in order, or are held. -/
  sends : ∀ n, logSince (fun k => (txInputs s₀ inp k).iReset) (sent s₀ inp) n ++ unsent s₀ inp n
    = logSince (fun k => (txInputs s₀ inp k).iReset) (written s₀ inp) n
  /-- A character written is taken unless there is no room for it and none is sent. -/
  takes : ∀ n, written s₀ inp (n + 1) = if (inp n).writes uartTxreg
    && (!(sent s₀ inp (n + 1)).isEmpty
      || decide ((unsent s₀ inp (n + 1)).length + 1 < 2 ^ lgflen))
    then [(inp n).iWbData.setWidth 7] else []
  /-- Every request is acknowledged two clocks later. -/
  acks : ∀ n, (state s₀ inp (n + 2)).oWbAck = (inp n).iWbStb
  /-- The status of the FIFOs tells how many characters are held and how many there is room for. -/
  status : ∀ n, (inp n).iWbAddr = uartFifo →
    Ufifo.fillField ((state s₀ inp (n + 2)).oWbData.setWidth 16) = (unread s₀ inp (n + 1)).length
      ∧ Ufifo.fillField ((state s₀ inp (n + 2)).oWbData.extractLsb' 16 16)
        = 2 ^ lgflen - 1 - (unsent s₀ inp (n + 1)).length

variable {s₀ inp}

theorem state_succ (n : ℕ) :
  state s₀ inp (n + 1) = (state s₀ inp n).step (inp n)
  := rfl

/-- The FIFOs run on what they are given. -/
theorem rxfifo_run (n : ℕ) :
  (state s₀ inp n).rxfifo = run (Ufifo.step true) s₀.rxfifo (rxInputs s₀ inp) n
  := by
  induction n with
  | zero => rfl
  | succ n ih =>
      rw [run_succ, ← ih]
      rfl

theorem txfifo_run (n : ℕ) :
  (state s₀ inp n).txfifo = run (Ufifo.step false) s₀.txfifo (txInputs s₀ inp) n
  := by
  induction n with
  | zero => rfl
  | succ n ih =>
      rw [run_succ, ← ih]
      rfl

theorem two_le_lcllgflen (lgflen : ℕ) :
  2 ≤ lcllgflen lgflen ∧ lcllgflen lgflen ≤ 10
  := by
  rw [lcllgflen]
  split_ifs <;> omega

theorem initial_contents {α : Type*} {w : ℕ} (rxfifo : Bool) (fifo : BitVec w → α)
    (rData lastWrite : α) :
  (Ufifo.initial rxfifo fifo rData lastWrite).contents = []
  := by simp [Ufifo.contents, Ufifo.fill, Ufifo.initial]

theorem Initial.rx_inv (h : s₀.Initial) (n : ℕ) :
  (state s₀ inp n).rxfifo.Inv true
  := by
  obtain ⟨fifo, rData, lastWrite, hrx⟩ := h.rxfifo
  have hlg := (two_le_lcllgflen lgflen).1
  rw [rxfifo_run]
  apply Ufifo.run_inv hlg
  rw [hrx]
  apply Ufifo.initial_inv (Nat.one_lt_two_pow (by omega))

theorem Initial.tx_inv (h : s₀.Initial) (hlg : 2 ≤ lgflen) (n : ℕ) :
  (state s₀ inp n).txfifo.Inv false
  := by
  obtain ⟨fifo, rData, lastWrite, htx⟩ := h.txfifo
  rw [txfifo_run]
  apply Ufifo.run_inv hlg
  rw [htx]
  apply Ufifo.initial_inv (Nat.one_lt_two_pow (by omega))

/-! ### The answers to the bus -/

/-- The character that the FIFO gives up is the one that the bus is answered. -/
theorem answered_eq_popped {n : ℕ} (haddr : (state s₀ inp n).rxfWbRead = true →
    (state s₀ inp n).rWbAddr = uartRxreg) :
  answered s₀ inp n = (state s₀ inp n).rxfifo.popped (rxInputs s₀ inp n)
  := by
  have hread : (rxInputs s₀ inp n).iRd = (state s₀ inp n).rxfWbRead := rfl
  rw [answered, Ufifo.popped, hread]
  cases hrd : (state s₀ inp n).rxfWbRead with
  | false => rfl
  | true =>
      have hdata : (state s₀ inp (n + 1)).oWbData = (state s₀ inp n).wbRxData (inp n) := by
        rw [state_succ, step, haddr hrd]
        rfl
      have hchar : ((state s₀ inp n).wbRxData (inp n)).setWidth 7
          = (state s₀ inp n).rxfifo.oData := by
        rw [wbRxData, BitVec.setWidth_append, dif_pos (Nat.le_refl 7)]
        apply BitVec.setWidth_eq
      have hnone : ((state s₀ inp n).wbRxData (inp n)).getLsbD 8
          = !(state s₀ inp n).rxfifo.oEmptyN := by
        rw [wbRxData, BitVec.getLsbD_append, if_neg (by decide), BitVec.getLsbD_append,
          if_neg (by decide), BitVec.getLsbD_append, if_pos (by decide)]
        apply BitVec.getLsbD_ofBool
      rw [hdata, hchar, hnone, Bool.not_not]

/-- A character is sent when the FIFO gives it up. -/
theorem sent_eq_popped (n : ℕ) :
  sent s₀ inp n = (state s₀ inp n).txfifo.popped (txInputs s₀ inp n)
  := by
  have hread : (txInputs s₀ inp n).iRd
      = (!(inp n).iUartBusy && (state s₀ inp n).txfifo.oEmptyN) := rfl
  rw [sent, Ufifo.popped, hread, oUartStb, Bool.and_assoc, Bool.and_self, Bool.and_comm]
  rfl

/-- The register that the bus is shown was addressed at the clock before. -/
theorem Initial.rWbAddr_of_rxfWbRead (h : s₀.Initial) (n : ℕ)
    (hread : (state s₀ inp n).rxfWbRead = true) :
  (state s₀ inp n).rWbAddr = uartRxreg
  := by
  cases n with
  | zero =>
      have hnone := h.rxfWbRead
      rw [state, run_zero, hnone] at hread
      contradiction
  | succ n =>
      have hreads : (inp n).reads uartRxreg = true := hread
      rw [reads, Bool.and_eq_true, Bool.and_eq_true, beq_iff_eq] at hreads
      apply hreads.1.2

/-- What is held, before a clock, of what came since the last reset. -/
theorem Initial.rx_conserved (h : s₀.Initial) (n : ℕ) :
  logSince (fun k => (rxInputs s₀ inp k).iReset) (answered s₀ inp) n ++ unread s₀ inp n
    = logSince (fun k => (rxInputs s₀ inp k).iReset) (received s₀ inp) n
  := by
  have hempty : (state s₀ inp 0).rxfifo.contents = [] := by
    obtain ⟨fifo, rData, lastWrite, hrx⟩ := h.rxfifo
    rw [state, run_zero, hrx]
    apply initial_contents
  have hheld := (@Ufifo.unread_eq_contents _ _ true _ (rxInputs s₀ inp)
    (two_le_lcllgflen lgflen).1 (h.rx_inv 0) hempty n).1
  have hanswered : answered s₀ inp
      = fun k => (state s₀ inp k).rxfifo.popped (rxInputs s₀ inp k) := by
    funext k
    apply answered_eq_popped (h.rWbAddr_of_rxfWbRead k)
  have hreceived : received s₀ inp
      = fun k => (state s₀ inp k).rxfifo.accepted (rxInputs s₀ inp k) := rfl
  rw [hanswered, hreceived, unread]
  simp only [rxfifo_run]
  apply hheld

theorem Initial.tx_conserved (h : s₀.Initial) (hlg : 2 ≤ lgflen) (n : ℕ) :
  logSince (fun k => (txInputs s₀ inp k).iReset) (sent s₀ inp) n ++ unsent s₀ inp n
    = logSince (fun k => (txInputs s₀ inp k).iReset) (written s₀ inp) n
  := by
  have hempty : (state s₀ inp 0).txfifo.contents = [] := by
    obtain ⟨fifo, rData, lastWrite, htx⟩ := h.txfifo
    rw [state, run_zero, htx]
    apply initial_contents
  have hheld := (@Ufifo.unread_eq_contents _ _ false _ (txInputs s₀ inp)
    hlg (h.tx_inv hlg 0) hempty n).1
  have hsent : sent s₀ inp = fun k => (state s₀ inp k).txfifo.popped (txInputs s₀ inp k) := by
    funext k
    apply sent_eq_popped
  have hwritten : written s₀ inp
      = fun k => (state s₀ inp k).txfifo.accepted (txInputs s₀ inp k) := rfl
  rw [hsent, hwritten, unsent]
  simp only [txfifo_run]
  apply hheld

/-- A FIFO takes a word when it is not full or gives one up. -/
theorem accepted_eq {α : Type*} {w : ℕ} {rxfifo : Bool} {f : Ufifo α w} {i : Ufifo.Input α}
    (h : f.Inv rxfifo) (hw : 2 ≤ w) :
  f.accepted i
    = if i.iWr && (!(f.popped i).isEmpty || decide (f.contents.length + 1 < 2 ^ w))
      then [i.iData] else []
  := by
  have hpos : 1 < 2 ^ w := Nat.one_lt_two_pow (by omega)
  have hlt := f.fill_lt
  have hfull := h.overflow_iff
  have hempty := h.underflow_iff
  have hroom : f.wWrite i
      = (i.iWr && (!(f.popped i).isEmpty || decide (f.contents.length + 1 < 2 ^ w))) := by
    rw [Ufifo.wWrite, Ufifo.popped, Ufifo.length_contents, Ufifo.oEmptyN]
    grind
  rw [Ufifo.accepted, Ufifo.wWrite_eq, hroom]

/-- The console converses. -/
theorem converses (hlg : 2 ≤ lgflen) (hlg' : lgflen ≤ 10) (h₀ : s₀.Initial)
    (inp : ℕ → Input) :
  Converses s₀ inp
  := by
  constructor
  case receives => apply h₀.rx_conserved
  case overruns =>
      intro n
      rw [answered_eq_popped (h₀.rWbAddr_of_rxfWbRead n)]
      apply accepted_eq (h₀.rx_inv n) (two_le_lcllgflen lgflen).1
  case sends => apply h₀.tx_conserved hlg
  case takes =>
      intro n
      rw [sent_eq_popped]
      apply accepted_eq (h₀.tx_inv hlg (n + 1)) hlg
  case acks =>
      intro n
      rfl
  case status =>
      intro n haddr
      have hdata : (state s₀ inp (n + 2)).oWbData = (state s₀ inp (n + 1)).wbFifoData := by
        have hraddr : (state s₀ inp (n + 1)).rWbAddr = uartFifo := haddr
        rw [state_succ, step, hraddr]
        rfl
      have hrxInv : (state s₀ inp (n + 1)).rxfifo.Inv true := h₀.rx_inv (n + 1)
      have htxInv : (state s₀ inp (n + 1)).txfifo.Inv false := h₀.tx_inv hlg (n + 1)
      have hrx := Ufifo.fillField_oStatus hrxInv (two_le_lcllgflen lgflen).2
      have htx := Ufifo.fillField_oStatus htxInv hlg'
      rw [hdata, wbFifoData, unread, unsent, Ufifo.length_contents, Ufifo.length_contents]
      constructor
      · rw [BitVec.setWidth_append, dif_pos (Nat.le_refl 16), BitVec.setWidth_eq, hrx]
        rfl
      · rw [extract_append_high _ _ (Nat.le_refl 16), extract_all, htx]
        rfl

end Runs

/-- A console at power-up, all of whose other registers are zero. -/
def powerUp (lgflen : ℕ) : Wbconsole lgflen where
  rxfifo := .initial true (fun _ => 0) 0 0
  rxfWbRead := false
  rxUartReset := true
  txfifo := .initial false (fun _ => 0) 0 0
  txfWbWrite := false
  txfWbData := 0
  txUartReset := true
  rWbAddr := 0
  rWbAck := false
  oWbAck := false
  oWbData := 0

theorem powerUp_initial (lgflen : ℕ) :
  (powerUp lgflen).Initial
  := by
  constructor
  case rxfifo =>
      use fun _ => 0, 0, 0
      rfl
  case txfifo =>
      use fun _ => 0, 0, 0
      rfl
  all_goals rfl

/-- A console that gets a character at every clock and is read and written in turn. -/
theorem converses_inTurn :
  Converses (powerUp 4) (fun n => ⟨false, true, n % 2 == 1, 2 + BitVec.ofNat 2 (n % 2),
    BitVec.ofNat 32 n, n % 4 == 0, true, BitVec.ofNat 7 n⟩)
  := converses (by decide) (by decide) (powerUp_initial 4) _

end Wbconsole

end ZBasic
