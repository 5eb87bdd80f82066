import ZBasic.Wbubus.Exec
import ZBasic.Wbubus.Fifo
import ZBasic.Wishbone.Slave

/-!
# The executor behind its input FIFO

`wbuconsole` and `wbubus` wire `wbuexec` to the input FIFO and to a watchdog: a codeword
is popped, and shown to the executor, exactly at the clocks at which the FIFO has one
and the executor is not busy; the watchdog resets both when a bus cycle sees no
acknowledgment for `2 ^ lgwatchdog` clocks.

The executor leaves its write state only on a codeword it sees there, and it is busy
there, so it is never shown one. `writesExecuted_iff` states what follows: the commanded
writes are carried out exactly when no write is commanded.
-/

namespace ZBasic

open Clocked

/-- The registers of the command path of `wbuconsole`. -/
structure DebugBus (lgfifo lgwatchdog : ℕ) where
  padififo : Wbufifo Codeword lgfifo
  runwb : Wbuexec
  rWdtTimer : BitVec lgwatchdog
  rWdtReset : Bool

namespace DebugBus

variable {lgfifo lgwatchdog : ℕ}

/-- The inputs of the command path at a clock: the codeword decoded from the serial
port, if any, and the responses of the bus. -/
structure Input where
  inStb : Option Codeword
  iWbStall : Bool
  iWbAck : Bool
  iWbErr : Bool
  iWbData : BitVec 32

/-- The registers at power up. -/
structure Initial (s : DebugBus lgfifo lgwatchdog) : Prop where
  padififo : ∃ mem oData, s.padififo = Wbufifo.initial mem oData
  runwb : s.runwb.Initial
  rWdtTimer : s.rWdtTimer = 0
  rWdtReset : s.rWdtReset = false

/-- `fifo_in_stb` -/
def fifoInStb (s : DebugBus lgfifo lgwatchdog) : Bool :=
  !s.runwb.oBusy && s.padififo.oEmptyN

/-- The inputs of the FIFO. -/
def fifoInput (s : DebugBus lgfifo lgwatchdog) (i : Input) : Wbufifo.Input Codeword where
  iReset := s.rWdtReset
  iWr := i.inStb
  iRd := s.fifoInStb

/-- The inputs of the executor. -/
def execInput (s : DebugBus lgfifo lgwatchdog) (i : Input) : Wbuexec.Input where
  iReset := s.rWdtReset
  iStb := s.fifoInStb
  iCodword := s.padififo.oData
  iWbStall := i.iWbStall
  iWbAck := i.iWbAck
  iWbErr := i.iWbErr
  iWbData := i.iWbData

/-- One clock of the command path. -/
def step (s : DebugBus lgfifo lgwatchdog) (i : Input) : DebugBus lgfifo lgwatchdog where
  padififo := s.padififo.step (s.fifoInput i)
  runwb := s.runwb.step (s.execInput i)
  rWdtTimer :=
    if !s.runwb.oWbCyc || i.iWbAck then 0
    else if s.rWdtTimer == BitVec.allOnes lgwatchdog then 0
    else s.rWdtTimer + 1
  rWdtReset :=
    !(!s.runwb.oWbCyc || i.iWbAck) && s.rWdtTimer == BitVec.allOnes lgwatchdog

/-! ### What happens at a clock -/

/-- A request on the bus. -/
structure Request where
  we : Bool
  addr : BitVec 32
  data : BitVec 32
deriving DecidableEq, Repr

/-- The codeword the input FIFO takes in. -/
def pushed (s : DebugBus lgfifo lgwatchdog) (i : Input) : List Codeword :=
  s.padififo.accepted (s.fifoInput i)

/-- The bus accepts a request. -/
def accepts (s : DebugBus lgfifo lgwatchdog) (i : Input) : Bool :=
  s.runwb.oWbCyc && s.runwb.oWbStb && !i.iWbStall

/-- The request the bus accepts. -/
def requested (s : DebugBus lgfifo lgwatchdog) (i : Input) : List Request :=
  if s.accepts i then [⟨s.runwb.oWbWe, s.runwb.oWbAddr, s.runwb.oWbData⟩] else []

/-- The response codeword sent. -/
def responded (s : DebugBus lgfifo lgwatchdog) : List Codeword :=
  if s.runwb.oStb then [s.runwb.oCodword] else []

/-! ### What the commands ask for -/

/-- The writes a sequence of codewords commands, starting at the address `a`. -/
def commanded : BitVec 32 → List Codeword → List Request
  | _, [] => []
  | a, w :: ws =>
      if w.isAbsolute then commanded (w.extractLsb' 0 32) ws
      else if w.isRelative then commanded (a + w.codData) ws
      else if w.isWrite then ⟨true, a, w.codData⟩ :: commanded (if w.inc then a + 1 else a) ws
      else commanded a ws

/-- An address-setting, a write or an end-of-write codeword. -/
def IsWriteCommand (w : Codeword) : Prop :=
  w.isAbsolute ∨ w.isRelative ∨ w.isWrite ∨ w.isEndOfWrite

instance (w : Codeword) : Decidable (IsWriteCommand w) :=
  inferInstanceAs (Decidable (_ ∨ _ ∨ _ ∨ _))

/-- The command path, run from `s₀` on `inp`, carries out the writes it is sent: the
watchdog never fires, and from some clock on everything queued has been consumed, the
executor is idle and ready for the next codeword, the requests accepted by the bus are
the commanded writes and there is one acknowledging response for each. -/
def WritesExecuted (s₀ : DebugBus lgfifo lgwatchdog) (inp : ℕ → Input) : Prop :=
  let s := run step s₀ inp
  let commands n := commanded s₀.runwb.oWbAddr (log (fun k => (s k).pushed (inp k)) n)
  (∀ n, (s n).rWdtReset = false) ∧
  ∃ t, ∀ n, t ≤ n →
    (s n).padififo.contents = [] ∧ (s n).runwb.wbState = .idle ∧ (s n).runwb.oBusy = false ∧
    log (fun k => (s k).requested (inp k)) n = commands n ∧
    (log (fun k => (s k).responded) n).map (·.extractLsb' 30 6)
      = List.replicate (commands n).length 2#6

/-! ### The executor before and after the first write -/

theorem IsWriteCommand.not_isRead {w : Codeword} (h : IsWriteCommand w) :
  w.isRead = false
  := by
  rcases h with h | h | h | h
  · apply Codeword.isRead_of_isAbsolute h
  · apply Codeword.isRead_of_isRelative h
  · apply Codeword.isRead_of_isWrite h
  · apply Codeword.isRead_of_isEndOfWrite h

/-- The command path before any write: the executor is idle and the FIFO never holds
more than the word it is about to show. -/
structure Quiet (s : DebugBus lgfifo lgwatchdog) : Prop where
  fifo : s.padififo.Inv
  fill_le : s.padififo.fill ≤ 1
  noReset : s.rWdtReset = false
  wbState : s.runwb.wbState = .idle
  oWbCyc : s.runwb.oWbCyc = false
  oWbStb : s.runwb.oWbStb = false
  oBusy : s.runwb.oBusy = false
  oStb : s.runwb.oStb = false

/-- The command path after a write: the executor is busy and waits for the next
codeword. -/
structure Stuck (s : DebugBus lgfifo lgwatchdog) : Prop where
  wbState : s.runwb.wbState = .writeRequest ∨ s.runwb.wbState = .flushWriteRequests
  oBusy : s.runwb.oBusy = true

theorem Initial.quiet {s : DebugBus lgfifo lgwatchdog} (h : s.Initial) :
  s.Quiet
  := by
  obtain ⟨⟨mem, oData, hfifo⟩, hexec, -, hreset⟩ := h
  constructor
  · rw [hfifo]
    apply Wbufifo.initial_inv
  · rw [hfifo, Wbufifo.initial_fill]
    apply Nat.zero_le
  · apply hreset
  · apply hexec.wbState
  · apply hexec.oWbCyc
  · apply hexec.oWbStb
  · apply hexec.oBusy
  · apply hexec.oStb

theorem Initial.contents {s : DebugBus lgfifo lgwatchdog} (h : s.Initial) :
  s.padififo.contents = []
  := by
  obtain ⟨mem, oData, hfifo⟩ := h.padififo
  rw [hfifo, Wbufifo.initial_contents]

/-- A busy executor is shown nothing, so it stays busy until it is reset. -/
theorem Stuck.step {s : DebugBus lgfifo lgwatchdog} (h : s.Stuck) (hr : s.rWdtReset = false)
    (i : Input) :
  (s.step i).Stuck
  := by
  have hstb : (s.execInput i).iStb = false := by simp [execInput, fifoInStb, h.oBusy]
  have hreset : (s.execInput i).iReset = false := hr
  rcases h.wbState with hw | hw
  · cases herr : (s.execInput i).iWbErr with
    | true => constructor <;> simp [DebugBus.step, Wbuexec.step, Wbuexec.fsm, hreset, hw, herr]
    | false =>
        constructor <;> simp [DebugBus.step, Wbuexec.step, Wbuexec.fsm, hreset, hw, herr, hstb]
  · constructor <;> simp [DebugBus.step, Wbuexec.step, Wbuexec.fsm, hreset, hw, hstb]

/-- Showing an idle executor a write makes it busy. -/
theorem Quiet.step_write {s : DebugBus lgfifo lgwatchdog} (h : s.Quiet)
    (hstb : s.fifoInStb = true) (hw : s.padififo.oData.isWrite = true) (i : Input) :
  (s.step i).Stuck
  := by
  constructor <;>
    simp [DebugBus.step, Wbuexec.step, Wbuexec.fsm, execInput, h.noReset, h.wbState, hstb, hw]

/-- While the executor is idle the FIFO is read whenever it shows a word. -/
theorem Quiet.fifoInStb_eq {s : DebugBus lgfifo lgwatchdog} (h : s.Quiet) :
  s.fifoInStb = s.padififo.oEmptyN
  := by simp [fifoInStb, h.oBusy]

theorem Quiet.wRead_eq {s : DebugBus lgfifo lgwatchdog} (h : s.Quiet) (i : Input) :
  s.padififo.wRead (s.fifoInput i) = true ↔ s.padififo.fill ≠ 0
  := by
  have hund := h.fifo.underflow_iff
  simp only [Wbufifo.wRead, fifoInput, h.fifoInStb_eq]
  grind

/-- Codewords that neither read nor write leave the executor idle. -/
theorem Quiet.step {s : DebugBus lgfifo lgwatchdog} (h : s.Quiet) (hlg : 2 ≤ lgfifo)
    (hshown : s.fifoInStb = true →
      s.padififo.oData.isWrite = false ∧ s.padififo.oData.isRead = false) (i : Input) :
  (s.step i).Quiet
  := by
  have hidle : ((s.execInput i).iStb
      && ((s.execInput i).iCodword.isWrite || (s.execInput i).iCodword.isRead)) = false := by
    simp only [execInput]
    grind
  have hread : ((s.execInput i).iStb && !s.runwb.oBusy && (s.execInput i).iCodword.isRead
      && s.runwb.rNewAddr) = false := by
    simp only [execInput]
    grind
  have hreset : (s.execInput i).iReset = false := h.noReset
  have hfifo : (s.fifoInput i).iReset = false := h.noReset
  constructor
  · apply Wbufifo.step_inv h.fifo hfifo hlg
  · have hread := h.wRead_eq i
    have hle := h.fill_le
    simp only [DebugBus.step]
    rw [Wbufifo.step_fill h.fifo hfifo]
    grind
  · simp [DebugBus.step, h.oWbCyc]
  · simp [DebugBus.step, Wbuexec.step, Wbuexec.fsm, hreset, h.wbState, hidle]
  · simp [DebugBus.step, Wbuexec.step, Wbuexec.fsm, hreset, h.wbState, hidle]
  · simp [DebugBus.step, Wbuexec.step, Wbuexec.fsm, hreset, h.wbState, hidle]
  · simp [DebugBus.step, Wbuexec.step, Wbuexec.fsm, hreset, h.wbState, hidle, h.oBusy]
  · simp [DebugBus.step, Wbuexec.step, hreset, h.oWbCyc, hread]

/-- Whatever enters an idle command path is taken in by the FIFO. -/
theorem Quiet.pushed_eq {s : DebugBus lgfifo lgwatchdog} (h : s.Quiet) (hlg : 2 ≤ lgfifo)
    (i : Input) :
  s.pushed i = i.inStb.toList
  := by
  have hnotfull : s.padififo.willOverflow = false := by
    have hfour : 2 ^ 2 ≤ 2 ^ lgfifo := Nat.pow_le_pow_right (by omega) hlg
    have hovf := h.fifo.overflow_iff
    have hle := h.fill_le
    grind
  cases hi : i.inStb with
  | none => simp [pushed, Wbufifo.accepted, Wbufifo.wWrite, fifoInput, hi]
  | some w => simp [pushed, Wbufifo.accepted, Wbufifo.wWrite, fifoInput, hi, hnotfull]

/-- What the FIFO holds after a clock it held before, or took in. -/
theorem mem_contents_step {s : DebugBus lgfifo lgwatchdog} (h : s.padififo.Inv)
    (hr : s.rWdtReset = false) {i : Input} {w : Codeword}
    (hw : w ∈ (s.step i).padififo.contents) :
  w ∈ s.padififo.contents ∨ i.inStb = some w
  := by
  have hstep := Wbufifo.step_contents h (i := s.fifoInput i) hr
  have hmem : w ∈ s.padififo.contents ++ s.padififo.accepted (s.fifoInput i) := by
    rw [← hstep]
    apply List.mem_append_right _ hw
  rcases List.mem_append.mp hmem with hold | hnew
  · left
    apply hold
  · right
    simp only [Wbufifo.accepted, fifoInput] at hnew
    grind

theorem oData_mem {s : DebugBus lgfifo lgwatchdog} (h : s.fifoInStb = true) :
  s.padififo.oData ∈ s.padififo.contents
  := by
  simp only [fifoInStb, Bool.and_eq_true] at h
  simp [Wbufifo.contents, Wbufifo.shown, h.2]

/-! ### Runs -/

/-- Without writes nothing is asked for. -/
theorem commanded_eq_nil (a : BitVec 32) {ws : List Codeword}
    (h : ∀ w ∈ ws, w.isWrite = false) :
  commanded a ws = []
  := by
  induction ws generalizing a with
  | nil => rfl
  | cons w ws ih =>
      rw [List.forall_mem_cons] at h
      simp only [commanded, h.1, ih _ h.2]
      grind

variable {s₀ : DebugBus lgfifo lgwatchdog} {inp : ℕ → Input}

/-- A run whose codewords neither read nor write stays quiet. -/
theorem quiet_run (h₀ : s₀.Initial) (hlg : 2 ≤ lgfifo)
    (hinp : ∀ n w, (inp n).inStb = some w → w.isWrite = false ∧ w.isRead = false) (n : ℕ) :
  (run step s₀ inp n).Quiet ∧
    ∀ w ∈ (run step s₀ inp n).padififo.contents, w.isWrite = false ∧ w.isRead = false
  := by
  induction n with
  | zero =>
      use h₀.quiet
      simp [h₀.contents]
  | succ n ih =>
      obtain ⟨hquiet, hcontents⟩ := ih
      constructor
      · apply hquiet.step hlg (fun hstb => hcontents _ (oData_mem hstb))
      · intro w hw
        rcases mem_contents_step hquiet.fifo hquiet.noReset hw with hold | hnew
        · apply hcontents w hold
        · apply hinp n w hnew

/-- As long as the watchdog does not fire, a run is quiet until the first write is shown
to the executor, and stuck from then on. -/
theorem quiet_or_stuck_run (h₀ : s₀.Initial) (hlg : 2 ≤ lgfifo)
    (hinp : ∀ n w, (inp n).inStb = some w → w.isRead = false)
    (hwdt : ∀ n, (run step s₀ inp n).rWdtReset = false) (n : ℕ) :
  (run step s₀ inp n).Stuck ∨
    (run step s₀ inp n).Quiet ∧ ∀ w ∈ (run step s₀ inp n).padififo.contents, w.isRead = false
  := by
  induction n with
  | zero =>
      right
      use h₀.quiet
      simp [h₀.contents]
  | succ n ih =>
      rcases ih with hstuck | ⟨hquiet, hcontents⟩
      · left
        apply hstuck.step (hwdt n)
      · by_cases hw : (run step s₀ inp n).fifoInStb = true
            ∧ (run step s₀ inp n).padififo.oData.isWrite = true
        · left
          apply hquiet.step_write hw.1 hw.2
        · right
          constructor
          · apply hquiet.step hlg
            intro hstb
            constructor
            · simpa [hstb] using hw
            · apply hcontents _ (oData_mem hstb)
          · intro w hmem
            rcases mem_contents_step hquiet.fifo hquiet.noReset hmem with hold | hnew
            · apply hcontents w hold
            · apply hinp n w hnew

theorem Quiet.step_contents {s : DebugBus lgfifo lgwatchdog} (h : s.Quiet) {i : Input}
    (hi : i.inStb = none) :
  s.padififo.shown ++ (s.step i).padififo.contents = s.padififo.contents
  := by
  have hstep := Wbufifo.step_contents h.fifo (i := s.fifoInput i) h.noReset
  have hpopped : s.padififo.popped (s.fifoInput i) = s.padififo.shown := by
    simp only [Wbufifo.popped, Wbufifo.shown, fifoInput, h.fifoInStb_eq]
    grind
  have hacc : s.padififo.accepted (s.fifoInput i) = [] := by
    simp [Wbufifo.accepted, fifoInput, hi]
  rw [hpopped, hacc, List.append_nil] at hstep
  apply hstep

/-- A word the FIFO holds but does not show is shown one clock later. -/
theorem Quiet.shown_next {s : DebugBus lgfifo lgwatchdog} (h : s.Quiet) {i : Input}
    (hshown : s.padififo.oEmptyN = false) (hne : s.padififo.contents ≠ []) :
  (s.step i).padififo.oEmptyN = true
  := by
  have hfill : s.padififo.fill ≠ 0 := by
    intro hfill
    simp [Wbufifo.contents, Wbufifo.shown, hshown, hfill] at hne
  have hund := h.fifo.underflow_iff
  simp only [DebugBus.step, Wbufifo.step, fifoInput, h.noReset, hshown, Wbufifo.rEmptyN]
  grind

/-- A quiet command path without a new codeword empties its FIFO step by step. -/
theorem Quiet.step_measure {s : DebugBus lgfifo lgwatchdog} (h : s.Quiet) {i : Input}
    (hi : i.inStb = none) (hne : s.padififo.contents ≠ []) :
  2 * (s.step i).padififo.contents.length + (if (s.step i).padififo.oEmptyN then 0 else 1)
    < 2 * s.padififo.contents.length + (if s.padififo.oEmptyN then 0 else 1)
  := by
  have hlen := congrArg List.length (h.step_contents hi)
  rw [List.length_append] at hlen
  cases hshown : s.padififo.oEmptyN with
  | true =>
      have hone : s.padififo.shown.length = 1 := by simp [Wbufifo.shown, hshown]
      simp only [if_true]
      split <;> omega
  | false =>
      have hnext := h.shown_next (i := i) hshown hne
      simp only [hnext, if_true]
      simp only [Bool.false_eq_true, if_false]
      omega

/-- A quiet run that is sent nothing more empties its FIFO. -/
theorem quiet_run_drains (hquiet : ∀ n, (run step s₀ inp n).Quiet) {t₀ : ℕ}
    (hinp : ∀ n, t₀ ≤ n → (inp n).inStb = none) :
  ∃ t, ∀ n, t ≤ n → (run step s₀ inp n).padififo.contents = []
  := by
  obtain ⟨t, ht₀, ht⟩ : ∃ t, t₀ ≤ t ∧ (run step s₀ inp t).padififo.contents = [] := by
    apply eventually_of_measure fun n => 2 * (run step s₀ inp n).padififo.contents.length
      + if (run step s₀ inp n).padififo.oEmptyN then 0 else 1
    intro n hn hne
    apply (hquiet n).step_measure (hinp n hn) hne
  use t
  intro n hn
  induction hn with
  | refl => apply ht
  | @step n hn ih =>
      have hstep := (hquiet n).step_contents (hinp n (ht₀.trans hn))
      rw [ih] at hstep
      apply (List.append_eq_nil_iff.mp hstep).2

/-- Address-setting and end-of-write codewords alone are carried out. -/
theorem writesExecuted_of_no_write (h₀ : s₀.Initial) (hlg : 2 ≤ lgfifo)
    (hcmd : ∀ n w, (inp n).inStb = some w → IsWriteCommand w) {t₀ : ℕ}
    (hfin : ∀ n, t₀ ≤ n → (inp n).inStb = none)
    (hinp : ∀ n w, (inp n).inStb = some w → w.isWrite = false) :
  WritesExecuted s₀ inp
  := by
  have hquiet := fun n => (quiet_run h₀ hlg
    (fun n w hw => ⟨hinp n w hw, (hcmd n w hw).not_isRead⟩) n).1
  obtain ⟨t, ht⟩ := quiet_run_drains hquiet hfin
  constructor
  · intro n
    apply (hquiet n).noReset
  · use t
    intro n hn
    have hnone : commanded s₀.runwb.oWbAddr
        (log (fun k => (run step s₀ inp k).pushed (inp k)) n) = [] := by
      apply commanded_eq_nil
      intro w hw
      obtain ⟨k, -, hk⟩ := mem_log.mp hw
      rw [(hquiet k).pushed_eq hlg, Option.mem_toList] at hk
      apply hinp k w hk
    simp only [hnone]
    use ht n hn, (hquiet n).wbState, (hquiet n).oBusy
    constructor
    · apply log_eq_nil
      intro k
      simp [requested, accepts, (hquiet k).oWbStb]
    · rw [log_eq_nil]
      · rfl
      · intro k
        simp [responded, (hquiet k).oStb]

/-- A write the FIFO holds or takes in is either shown to the executor or still held. -/
theorem Quiet.step_mem_write {s : DebugBus lgfifo lgwatchdog} (h : s.Quiet) (hlg : 2 ≤ lgfifo)
    {i : Input} {w : Codeword} (hw : w.isWrite = true)
    (hmem : w ∈ s.padififo.contents ∨ i.inStb = some w) :
  (s.step i).Stuck ∨ w ∈ (s.step i).padififo.contents
  := by
  have hstep := Wbufifo.step_contents h.fifo (i := s.fifoInput i) h.noReset
  have hin : w ∈ s.padififo.contents ++ s.padififo.accepted (s.fifoInput i) := by
    have hpushed : s.padififo.accepted (s.fifoInput i) = i.inStb.toList := h.pushed_eq hlg i
    rw [hpushed, List.mem_append, Option.mem_toList]
    apply hmem
  rw [← hstep, List.mem_append] at hin
  rcases hin with hpopped | hheld
  · left
    simp only [Wbufifo.popped, Wbufifo.shown, fifoInput] at hpopped
    apply h.step_write
    · grind
    · grind
  · right
    apply hheld

theorem stuck_run {m n : ℕ} (hmn : m ≤ n) (hwdt : ∀ n, (run step s₀ inp n).rWdtReset = false)
    (h : (run step s₀ inp m).Stuck) :
  (run step s₀ inp n).Stuck
  := by
  induction hmn with
  | refl => apply h
  | step _ ih => apply ih.step (hwdt _)

/-- A run that carries out its commands was never sent a write. -/
theorem no_write_of_writesExecuted (h₀ : s₀.Initial) (hlg : 2 ≤ lgfifo)
    (hcmd : ∀ n w, (inp n).inStb = some w → IsWriteCommand w) (h : WritesExecuted s₀ inp)
    {n : ℕ} {w : Codeword} (hin : (inp n).inStb = some w) :
  w.isWrite = false
  := by
  obtain ⟨hwdt, t, ht⟩ := h
  have hnever : ∀ m, ¬ (run step s₀ inp m).Stuck := by
    intro m hstuck
    have hlater := stuck_run (Nat.le_add_right m t) hwdt hstuck
    have hbusy := (ht (m + t) (Nat.le_add_left _ _)).2.2.1
    simp [hlater.oBusy] at hbusy
  have hquiet : ∀ m, (run step s₀ inp m).Quiet := by
    intro m
    rcases quiet_or_stuck_run h₀ hlg (fun n w hw => (hcmd n w hw).not_isRead) hwdt m with hs | hq
    · apply (hnever m hs).elim
    · apply hq.1
  rw [← Bool.not_eq_true]
  intro hw
  have hheld : ∀ k, w ∈ (run step s₀ inp (n + 1 + k)).padififo.contents := by
    intro k
    induction k with
    | zero => apply ((hquiet n).step_mem_write hlg hw (Or.inr hin)).resolve_left (hnever (n + 1))
    | succ k ih =>
        apply ((hquiet (n + 1 + k)).step_mem_write hlg hw (Or.inl ih)).resolve_left
        apply hnever (n + 1 + k + 1)
  have hmem := hheld t
  rw [(ht (n + 1 + t) (Nat.le_add_left _ _)).1] at hmem
  cases hmem

/-! ### A slave that answers at once -/

/-- The slave of `inp`, as seen by the command path run from `s₀`, answers without error
before the watchdog fires. -/
def SlaveAnswers (s₀ : DebugBus lgfifo lgwatchdog) (inp : ℕ → Input) : Prop :=
  let s := run step s₀ inp
  Wishbone.ErrorFree (2 ^ lgwatchdog) (fun n => (s n).runwb.oWbCyc)
    (fun n => (s n).accepts (inp n)) (fun n => (inp n).iWbStall) (fun n => (inp n).iWbAck)
    (fun n => (inp n).iWbErr)

/-- The inputs at a clock with the codeword `cmd` of a slave that acknowledges `ack`. -/
def promptInput (ack : Bool) (cmd : Option Codeword) : Input where
  inStb := cmd
  iWbStall := false
  iWbAck := ack
  iWbErr := false
  iWbData := 0

/-- One clock of the command path together with a slave that acknowledges each request
one clock after accepting it. -/
def promptStep (s : DebugBus lgfifo lgwatchdog × Bool) (cmd : Option Codeword) :
    DebugBus lgfifo lgwatchdog × Bool :=
  (s.1.step (promptInput s.2 cmd), s.1.accepts (promptInput s.2 cmd))

/-- The inputs the command path sees when it is sent `cmds` and connected to that
slave. -/
def prompt (s₀ : DebugBus lgfifo lgwatchdog) (cmds : ℕ → Option Codeword) : ℕ → Input :=
  fun n => promptInput (run promptStep (s₀, false) cmds n).2 (cmds n)

theorem run_prompt (s₀ : DebugBus lgfifo lgwatchdog) (cmds : ℕ → Option Codeword) (n : ℕ) :
  run step s₀ (prompt s₀ cmds) n = (run promptStep (s₀, false) cmds n).1
  := by
  induction n with
  | zero => rfl
  | succ n ih => rw [run_succ, ih, run_succ, promptStep, prompt]

theorem prompt_slaveAnswers (s₀ : DebugBus lgfifo lgwatchdog) (cmds : ℕ → Option Codeword) :
  SlaveAnswers s₀ (prompt s₀ cmds)
  := by
  apply Wishbone.errorFree_of_prompt
  · intro n h
    simp only [accepts, Bool.and_eq_true] at h
    apply h.1.1
  · intro n
    rfl
  · intro n
    rfl
  · rfl
  · intro n
    rw [run_prompt]
    rfl
  · apply Nat.two_pow_pos

/-- A command path at power up. -/
def powerUp (lgfifo lgwatchdog : ℕ) : DebugBus lgfifo lgwatchdog where
  padififo := Wbufifo.initial (fun _ => 0) 0
  runwb :=
    { wbState := .idle, oBusy := false, oWbCyc := false, oWbStb := false, oWbWe := false
      oWbAddr := 0, oWbData := 0, oStb := false, oCodword := 0, rAcksNeeded := 0, rLen := 0
      rInc := false, rNewAddr := true, lastReadRequest := false, lastAck := false
      zeroAcks := true, singleReadRequest := false }
  rWdtTimer := 0
  rWdtReset := false

theorem powerUp_initial (lgfifo lgwatchdog : ℕ) :
  (powerUp lgfifo lgwatchdog).Initial
  := by
  constructor
  · use fun _ => 0, 0
    rfl
  · constructor <;> rfl
  · rfl
  · rfl

/-- The codeword `w`, once, at the first clock. -/
def once (w : Codeword) : ℕ → Option Codeword
  | 0 => some w
  | _ + 1 => none

theorem once_eq_some {w w' : Codeword} {n : ℕ} (h : once w n = some w') :
  w' = w
  := by
  cases n with
  | zero => apply (Option.some.inj h).symm
  | succ n => cases h

/-! ### When the commanded writes are carried out -/

/-- The command path carries out the writes it is sent exactly when it is sent none: the
first write keeps the executor busy, and shown nothing, until the watchdog fires. -/
theorem writesExecuted_iff (h₀ : s₀.Initial) (hlg : 2 ≤ lgfifo)
    (hcmd : ∀ n w, (inp n).inStb = some w → IsWriteCommand w)
    (hfin : ∃ t₀, ∀ n, t₀ ≤ n → (inp n).inStb = none) :
  WritesExecuted s₀ inp ↔ ∀ n w, (inp n).inStb = some w → w.isWrite = false
  := by
  obtain ⟨t₀, ht₀⟩ := hfin
  constructor
  · intro h n w hw
    apply no_write_of_writesExecuted h₀ hlg hcmd h hw
  · apply writesExecuted_of_no_write h₀ hlg hcmd ht₀

/-- Setting the address to 16 is carried out. -/
theorem writesExecuted_iff_address :
  WritesExecuted (powerUp 6 19) (prompt (powerUp 6 19) (once 0x000000010#36))
  := by
  apply (writesExecuted_iff (powerUp_initial 6 19) (by decide) _ _).mpr
  · intro n w hw
    rw [once_eq_some hw]
    decide
  · intro n w hw
    rw [once_eq_some hw]
    decide
  · use 1
    intro n hn
    obtain ⟨k, rfl⟩ := Nat.exists_eq_add_of_le' hn
    rfl

/-- One write of zero to address zero, to a slave that answers at once, is not carried
out. -/
theorem single_write_not_executed :
  SlaveAnswers (powerUp 6 19) (prompt (powerUp 6 19) (once 0x400000000#36)) ∧
    ¬ WritesExecuted (powerUp 6 19) (prompt (powerUp 6 19) (once 0x400000000#36))
  := by
  constructor
  · apply prompt_slaveAnswers
  · intro h
    have hcmd : ∀ n w, (prompt (powerUp 6 19) (once 0x400000000#36) n).inStb = some w →
        IsWriteCommand w := by
      intro n w hw
      rw [once_eq_some hw]
      decide
    have hin : (prompt (powerUp 6 19) (once 0x400000000#36) 0).inStb = some 0x400000000#36 :=
      rfl
    have hwrite := no_write_of_writesExecuted (powerUp_initial 6 19) (by decide) hcmd h hin
    revert hwrite
    decide

end DebugBus

end ZBasic
