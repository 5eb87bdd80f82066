import ZBasic.Host.Readv
import ZBasic.Host.Readword
import ZBasic.Wbubus.Fifo
import ZBasic.Wbubus.VectorRead

/-!
# The window of a read and the FIFO of the device

During a call of `readv` the host writes its commands and reads words, the device puts a
codeword into the FIFO of `wbuoutput` for every word asked for, after one for the address, and
what leaves the FIFO is on its way to the host, between states that `wbuidleint` inserts. Host,
device and transmitter move whenever they like.
-/

namespace ZBasic

open Clocked

/-! ### Reading a word -/

/-- How far `readword` gets with the codewords that have arrived: it waits for more, throws a
`BUSERR`, or returns a word. -/
inductive Reading where
  | waits
  | threw (rest : List Heard)
  | word (val : BitVec 32) (rest : List Heard)

/-- `readword`, which passes over addresses and states; `val` is what it returns for a codeword
that it does not know. -/
def readword (val : BitVec 32) : List Heard → Reading
  | [] => .waits
  | .status sixbits :: fs =>
      if sixbits = 3 ∨ sixbits = 5 then .threw fs else readword val fs
  | .address a :: fs => readword a fs
  | .data v _ :: fs => .word v fs
  | .unknown _ :: fs => .word val fs

namespace Heard

/-- `readword` passes over it, or returns it: no bus error, no reset and nothing unknown. -/
def Calm : Heard → Prop
  | status sixbits => sixbits ≠ 3 ∧ sixbits ≠ 5
  | unknown _ => False
  | _ => True

/-- The data word in a codeword. -/
def word? : Heard → Option (BitVec 32)
  | data val _ => some val
  | _ => none

end Heard

/-- The data words among some codewords. -/
def wordsOf (fs : List Heard) : List (BitVec 32) := fs.filterMap Heard.word?

theorem wordsOf_append (fs gs : List Heard) :
  wordsOf (fs ++ gs) = wordsOf fs ++ wordsOf gs
  := List.filterMap_append

theorem wordsOf_cons (f : Heard) (fs : List Heard) :
  wordsOf (f :: fs) = f.word?.toList ++ wordsOf fs
  := by
  rw [wordsOf, List.filterMap_cons]
  cases f.word? <;> rfl

/-- `readword` returns the next data word, if there is one. -/
theorem readword_cases (val : BitVec 32) {fs : List Heard} (hcalm : ∀ f ∈ fs, f.Calm) :
  (wordsOf fs = [] ∧ readword val fs = .waits)
    ∨ ∃ v rest, readword val fs = .word v rest ∧ wordsOf fs = v :: wordsOf rest
      ∧ ∀ f ∈ rest, f.Calm
  := by
  induction fs generalizing val with
  | nil =>
      left
      exact ⟨rfl, rfl⟩
  | cons f fs ih =>
      have hf := hcalm f List.mem_cons_self
      have hfs := fun g hg => hcalm g (List.mem_cons_of_mem f hg)
      cases f with
      | status sixbits =>
          rw [readword, if_neg (not_or.mpr hf)]
          apply ih val hfs
      | address a => apply ih a hfs
      | data v inc =>
          right
          exact ⟨v, fs, rfl, rfl, hfs⟩
      | unknown sixbits => cases hf

/-! ### The host, the device and what is between them -/

/-- A call of `readv` in progress. -/
structure Window where
  /-- What the host has still to do. -/
  actions : List Ttybus.Action
  cmdrd : ℕ
  nread : ℕ
  buf : ℕ → BitVec 32
  /-- `r_new_addr`, as `wbuexec` has it at the next read. -/
  rNewAddr : Bool
  /-- The codewords the device has still to return. -/
  due : List Codeword
  /-- The FIFO of `wbuoutput`. -/
  busoutfifo : Wbufifo Codeword 10
  /-- What is on its way to the host. -/
  flight : List Heard

namespace Window

/-- Who moves at a clock. -/
structure Input where
  host : Bool
  /-- `i_stb` of `wbuoutput`, when there is something to be returned. -/
  iStb : Bool
  cwBusy : Bool
  /-- A state that `wbuidleint` inserts. -/
  state : Option (BitVec 6)

section Wires

variable (answer : ℕ → BitVec 32) (inc : Bool) (oWbAddr : BitVec 32)

/-- What the device returns for read commands after an address command: the address, if it is
new, and the words. It answers every read command, with whatever words, and no bus error comes in
between. -/
def replies (newAddr : Bool) (cmdrd n : ℕ) : List Codeword :=
  (if newAddr then [2#4 ++ oWbAddr] else [])
    ++ (List.range' cmdrd n).map fun k => Wbuexec.dataWord inc (answer k)

/-- A line is written, and reaches the device. -/
def ask (s : Window) (address : Command) (asks : List ℕ) : Window :=
  { s with
    cmdrd := s.cmdrd + asks.sum
    rNewAddr := false
    due := s.due ++ replies answer inc oWbAddr (address ≠ [] || s.rNewAddr) s.cmdrd asks.sum }

/-- A word is read. -/
def store (s : Window) (val : BitVec 32) (rest : List Heard) : Window :=
  { s with
    nread := s.nread + 1
    buf := Function.update s.buf s.nread val
    flight := rest }

/-- The next action of the host, if it can do it. -/
def act (s : Window) : Window :=
  match s.actions with
  | [] => s
  | .write address asks :: acts =>
      { s.ask answer inc oWbAddr address asks with actions := acts }
  | .read :: acts =>
      match readword 0#32 s.flight with
      | .waits => s
      | .threw rest => { s with actions := [], flight := rest }
      | .word val rest => { s.store val rest with actions := acts }

/-- The inputs of the FIFO; `fifo_rd` is set when there is a codeword and `cw_busy` is not. -/
def fifoInput (s : Window) (i : Input) : Wbufifo.Input Codeword where
  iReset := false
  iWr := if i.iStb then s.due.head? else none
  iRd := s.busoutfifo.oEmptyN && !i.cwBusy

/-- The device and its FIFO at a clock. -/
def serve (s : Window) (i : Input) : Window :=
  { s with
    due := if i.iStb then s.due.tail else s.due
    busoutfifo := s.busoutfifo.step (s.fifoInput i)
    flight := s.flight ++ (s.busoutfifo.popped (s.fifoInput i)).map Codeword.meaning
      ++ (i.state.map Heard.status).toList }

/-- What the device finds at a clock. -/
def called (s : Window) (i : Input) : Window := if i.host then s.act answer inc oWbAddr else s

/-- One clock. -/
def step (s : Window) (i : Input) : Window := (s.called answer inc oWbAddr i).serve i

/-- The FIFO takes in what the device returns at this clock. -/
def Keeps (s : Window) (i : Input) : Prop :=
  ∀ w, (s.fifoInput i).iWr = some w → s.busoutfifo.accepted (s.fifoInput i) = [w]

end Wires

/-- What the device has not let go of. -/
def held (s : Window) : List Codeword := s.busoutfifo.contents ++ s.due

/-- What the host has still to hear. -/
def pending (s : Window) : List Heard := s.flight ++ s.held.map Codeword.meaning

/-- The host calls `readv`, and there is nothing on its way but states and addresses. -/
structure Calls (h : Ttybus) (a : BitVec 32) (len : ℕ) (s : Window) : Prop where
  actions : s.actions = h.readvActions a len
  cmdrd : s.cmdrd = 0
  nread : s.nread = 0
  busoutfifo : s.busoutfifo.Inv
  calm : ∀ f ∈ s.pending, f.Calm
  words : wordsOf s.pending = []

/-! ### What is held -/

section Invariant

variable {answer : ℕ → BitVec 32} {inc : Bool} {oWbAddr : BitVec 32} {mBuflen len quiet : ℕ}
  {buf : ℕ → BitVec 32} {s : Window} {i : Input}

theorem meaning_dataWord (inc : Bool) (d : BitVec 32) :
  (Wbuexec.dataWord inc d).meaning = .data d inc
  := by
  have hinc : (Wbuexec.dataWord inc d).inc = inc := by
    simp only [Codeword.inc, Wbuexec.dataWord, BitVec.getLsbD_append]
    simp
  have hdata : (Wbuexec.dataWord inc d).codData = d := codData_word _ _ _
  have hkind : (Wbuexec.dataWord inc d).isData = true := isData_word _ _ _
  rw [Codeword.meaning, if_pos hkind, hdata, hinc]

theorem meaning_address (oWbAddr : BitVec 32) :
  Codeword.meaning (2#4 ++ oWbAddr) = .address oWbAddr
  := by
  have hfull := isFullAddress_word oWbAddr
  have hdata := Codeword.isData_of_isAddress (Codeword.isAddress_of_isFullAddress hfull)
  rw [Codeword.meaning, hdata, if_neg Bool.false_ne_true, if_pos hfull,
    extract_append_low _ _ (by decide), extract_all]

/-- The address codewords still to come. -/
def addresses (rNewAddr : Bool) : List Ttybus.Action → ℕ
  | [] => 0
  | .write address _ :: acts => (address ≠ [] || rNewAddr).toNat + addresses false acts
  | .read :: acts => addresses rNewAddr acts

/-- The number of codewords of the device that are no data words. -/
def statuses (s : Window) : ℕ := s.held.countP fun w => !w.isData

/-- How a run stands between two clocks, with at most `quiet` codewords that are no data words
held or still to come from the device. -/
structure Inv (answer : ℕ → BitVec 32) (inc : Bool) (mBuflen len quiet : ℕ)
    (buf : ℕ → BitVec 32) (s : Window) : Prop where
  windowed : Ttybus.Windowed inc mBuflen len s.cmdrd s.nread s.actions
  le : s.nread ≤ s.cmdrd
  window : s.cmdrd ≤ s.nread + Ttybus.maxRdLen
  busoutfifo : s.busoutfifo.Inv
  calm : ∀ f ∈ s.pending, f.Calm
  words : wordsOf s.pending = (List.range' s.nread (s.cmdrd - s.nread)).map answer
  statuses : s.statuses + addresses s.rNewAddr s.actions ≤ quiet
  stored : ∀ j, s.buf j = if j < s.nread then answer j else buf j

/-! ### The host moves -/

theorem held_ask (s : Window) (address : Command) (asks : List ℕ) :
  (s.ask answer inc oWbAddr address asks).held
    = s.held ++ replies answer inc oWbAddr (address ≠ [] || s.rNewAddr) s.cmdrd asks.sum
  := by simp [held, ask]

theorem pending_ask (s : Window) (address : Command) (asks : List ℕ) :
  (s.ask answer inc oWbAddr address asks).pending = s.pending
    ++ (replies answer inc oWbAddr (address ≠ [] || s.rNewAddr) s.cmdrd asks.sum).map
      Codeword.meaning
  := by
  rw [pending, held_ask, pending, List.map_append, ← List.append_assoc]
  rfl

theorem wordsOf_replies (newAddr : Bool) (cmdrd n : ℕ) :
  wordsOf ((replies answer inc oWbAddr newAddr cmdrd n).map Codeword.meaning)
    = (List.range' cmdrd n).map answer
  := by
  have hwords : ∀ ks : List ℕ, wordsOf ((ks.map fun k => Wbuexec.dataWord inc (answer k)).map
      Codeword.meaning) = ks.map answer := by
    intro ks
    induction ks with
    | nil => rfl
    | cons k ks ih => simp only [List.map_cons, wordsOf_cons, meaning_dataWord, ih]; rfl
  rw [replies, List.map_append, wordsOf_append, hwords]
  cases newAddr with
  | false => rfl
  | true =>
      rw [if_pos rfl, List.map_singleton, meaning_address]
      rfl

theorem calm_replies {newAddr : Bool} {cmdrd n : ℕ} {f : Heard}
    (hf : f ∈ (replies answer inc oWbAddr newAddr cmdrd n).map Codeword.meaning) :
  f.Calm
  := by
  obtain ⟨w, hw, rfl⟩ := List.mem_map.mp hf
  rcases List.mem_append.mp hw with haddress | hword
  · cases newAddr with
    | false => cases haddress
    | true =>
        rw [List.mem_singleton.mp haddress, meaning_address]
        trivial
  · obtain ⟨k, -, rfl⟩ := List.mem_map.mp hword
    rw [meaning_dataWord]
    trivial

theorem countP_replies (newAddr : Bool) (cmdrd n : ℕ) :
  (replies answer inc oWbAddr newAddr cmdrd n).countP (fun w => !w.isData) = newAddr.toNat
  := by
  have hnone : (List.range' cmdrd n).countP
      ((fun w => !w.isData) ∘ fun k => Wbuexec.dataWord inc (answer k)) = 0 := by
    rw [List.countP_eq_zero]
    intro k _
    have hkind : (Wbuexec.dataWord inc (answer k)).isData = true := isData_word _ _ _
    simp [hkind]
  have hfull := isFullAddress_word oWbAddr
  have hdata := Codeword.isData_of_isAddress (Codeword.isAddress_of_isFullAddress hfull)
  rw [replies, List.countP_append, List.countP_map, hnone]
  cases newAddr with
  | false => rfl
  | true => simp [hdata]

theorem le_of_windowed {cmdrd nread : ℕ} {acts : List Ttybus.Action}
    (h : Ttybus.Windowed inc mBuflen len cmdrd nread acts) :
  cmdrd ≤ len
  := by
  induction acts generalizing cmdrd nread with
  | nil => apply h.1.le
  | cons act acts ih =>
      cases act with
      | write address asks => apply le_trans (Nat.le_add_right _ _) h.2.2.1
      | read => apply ih h.2

theorem ask_inv {address : Command} {asks : List ℕ}
    {acts : List Ttybus.Action} (h : Inv answer inc mBuflen len quiet buf s)
    (hacts : s.actions = .write address asks :: acts) :
  Inv answer inc mBuflen len quiet buf
    { s.ask answer inc oWbAddr address asks with actions := acts }
  := by
  have hw := h.windowed
  have hle := h.le
  have hstatuses := h.statuses
  rw [hacts] at hw hstatuses
  obtain ⟨-, -, -, hwindow, hw'⟩ := hw
  constructor
  · apply hw'
  · apply Nat.le_add_right_of_le hle
  · apply hwindow
  · apply h.busoutfifo
  · intro f hf
    replace hf : f ∈ (s.ask answer inc oWbAddr address asks).pending := hf
    rw [pending_ask, List.mem_append] at hf
    rcases hf with hf | hf
    · apply h.calm f hf
    · apply calm_replies hf
  · show wordsOf (s.ask answer inc oWbAddr address asks).pending
      = (List.range' s.nread (s.cmdrd + asks.sum - s.nread)).map answer
    have hsplit : s.cmdrd + asks.sum - s.nread = (s.cmdrd - s.nread) + asks.sum := by omega
    have hthere : s.nread + (s.cmdrd - s.nread) = s.cmdrd := by omega
    rw [pending_ask, wordsOf_append, h.words, wordsOf_replies, ← List.map_append, hsplit,
      ← List.range'_append_1, hthere]
  · show (s.ask answer inc oWbAddr address asks).held.countP _ + addresses false acts ≤ quiet
    rw [held_ask, List.countP_append, countP_replies]
    simp only [addresses] at hstatuses
    simp only [Window.statuses] at hstatuses
    omega
  · apply h.stored

theorem store_inv {val : BitVec 32} {rest : List Heard}
    {acts : List Ttybus.Action} (h : Inv answer inc mBuflen len quiet buf s)
    (hacts : s.actions = .read :: acts) (hwords : wordsOf s.flight = val :: wordsOf rest)
    (hcalm : ∀ f ∈ rest, f.Calm) :
  Inv answer inc mBuflen len quiet buf { s.store val rest with actions := acts }
  := by
  have hw := h.windowed
  have hstatuses := h.statuses
  rw [hacts] at hw hstatuses
  have hmore : s.cmdrd - s.nread = (s.cmdrd - (s.nread + 1)) + 1 := by
    have := hw.1
    omega
  have hnext : val :: wordsOf (rest ++ s.held.map Codeword.meaning)
      = answer s.nread :: (List.range' (s.nread + 1) (s.cmdrd - (s.nread + 1))).map answer := by
    rw [← List.map_cons, ← List.range'_succ, ← hmore, ← h.words, pending, wordsOf_append,
      wordsOf_append, hwords]
    rfl
  obtain ⟨hval, hrest⟩ := List.cons.inj hnext
  constructor
  · apply hw.2
  · apply hw.1
  · have := h.window
    show s.cmdrd ≤ s.nread + 1 + Ttybus.maxRdLen
    omega
  · apply h.busoutfifo
  · intro f hf
    replace hf : f ∈ rest ++ s.held.map Codeword.meaning := hf
    rcases List.mem_append.mp hf with hf | hf
    · apply hcalm f hf
    · apply h.calm
      apply List.mem_append_right
      apply hf
  · apply hrest
  · apply hstatuses
  · intro j
    have hj := h.stored j
    show Function.update s.buf s.nread val j = if j < s.nread + 1 then answer j else buf j
    by_cases heq : j = s.nread
    · rw [heq, Function.update_self, if_pos (Nat.lt_succ_self _), hval]
    · rw [Function.update_of_ne heq, hj]
      congr 1
      grind

/-- The move of the host keeps the run as it should be. -/
theorem act_inv (h : Inv answer inc mBuflen len quiet buf s) :
  Inv answer inc mBuflen len quiet buf (s.act answer inc oWbAddr)
  := by
  rw [act]
  cases hacts : s.actions with
  | nil => apply h
  | cons action acts =>
      cases action with
      | write address asks => apply ask_inv h hacts
      | read =>
          have hcalm : ∀ f ∈ s.flight, f.Calm :=
            fun f hf => h.calm f (List.mem_append_left _ hf)
          rcases readword_cases 0#32 hcalm with ⟨-, hread⟩ | ⟨val, rest, hread, hwords, hrest⟩
          · simp only [hread]
            apply h
          · simp only [hread]
            apply store_inv h hacts hwords hrest

/-! ### The device moves -/

/-- What the device returns and the FIFO takes in is no longer due. -/
theorem accepted_append_due (hkeeps : s.Keeps i) :
  s.busoutfifo.accepted (s.fifoInput i) ++ (s.serve i).due = s.due
  := by
  cases hw : (s.fifoInput i).iWr with
  | none =>
      have hnone : s.busoutfifo.accepted (s.fifoInput i) = [] := by
        simp [Wbufifo.accepted, hw]
      rw [hnone]
      simp only [fifoInput] at hw
      simp only [serve, List.nil_append]
      split_ifs at hw ⊢ with hstb
      · rw [List.head?_eq_none_iff.mp hw]
        rfl
      · rfl
  | some w =>
      rw [hkeeps w hw]
      simp only [fifoInput] at hw
      simp only [serve]
      split_ifs at hw with hstb
      rw [if_pos hstb]
      apply List.cons_head?_tail hw

/-- What leaves the FIFO is no longer held. -/
theorem popped_append_held (hinv : s.busoutfifo.Inv) (hkeeps : s.Keeps i) :
  s.busoutfifo.popped (s.fifoInput i) ++ (s.serve i).held = s.held
  := by
  have hcontents := Wbufifo.step_contents hinv (i := s.fifoInput i) rfl
  rw [held, held, ← accepted_append_due hkeeps, ← List.append_assoc, ← List.append_assoc,
    ← hcontents]
  rfl

/-- The FIFO takes in what is due, as long as the device holds no more than fits. -/
theorem keeps_of_length (hinv : s.busoutfifo.Inv) (hroom : s.held.length ≤ 2 ^ 10 + 1) :
  s.Keeps i
  := by
  intro w hw
  rw [Wbufifo.accepted_iff hinv hw]
  rintro ⟨hfill, -⟩
  have hdue : s.due ≠ [] := by
    intro hnil
    simp [fifoInput, hnil] at hw
  have hpos := List.length_pos_iff.mpr hdue
  have hcontents := Wbufifo.length_contents_of_full hinv (by decide) hfill
  rw [held, List.length_append, hcontents] at hroom
  omega

theorem countP_isData (ws : List Codeword) :
  ws.countP Codeword.isData = (wordsOf (ws.map Codeword.meaning)).length
  := by
  induction ws with
  | nil => rfl
  | cons w ws ih =>
      rw [List.map_cons, wordsOf_cons, List.length_append, ← ih, List.countP_cons, Nat.add_comm,
        Codeword.meaning]
      split_ifs <;> rfl

/-- The device holds no more than what is asked for and the states and addresses. -/
theorem Inv.length_held (h : Inv answer inc mBuflen len quiet buf s) :
  s.held.length ≤ quiet + min len Ttybus.maxRdLen
  := by
  have hlen := le_of_windowed h.windowed
  have hwindow := h.window
  have hstatuses := h.statuses
  have hcount : s.held.length = s.held.countP Codeword.isData + s.statuses := by
    rw [Window.statuses, List.length_eq_countP_add_countP Codeword.isData]
    simp
  have hdata : s.held.countP Codeword.isData ≤ s.cmdrd - s.nread := by
    have hwords := congrArg List.length h.words
    rw [pending, wordsOf_append, List.length_append, ← countP_isData, List.length_map,
      List.length_range'] at hwords
    omega
  omega

theorem serve_inv (h : Inv answer inc mBuflen len quiet buf s) (hkeeps : s.Keeps i)
    (hstate : ∀ sixbits, i.state = some sixbits → sixbits ≠ 3 ∧ sixbits ≠ 5) :
  Inv answer inc mBuflen len quiet buf (s.serve i)
  := by
  have hheld := popped_append_held h.busoutfifo hkeeps
  have hpending : s.pending = s.flight
      ++ (s.busoutfifo.popped (s.fifoInput i)).map Codeword.meaning
      ++ (s.serve i).held.map Codeword.meaning := by
    rw [pending, ← hheld, List.map_append, List.append_assoc]
  have hserved : (s.serve i).pending = s.flight
      ++ (s.busoutfifo.popped (s.fifoInput i)).map Codeword.meaning
      ++ (i.state.map Heard.status).toList ++ (s.serve i).held.map Codeword.meaning := rfl
  have hstate' : wordsOf (i.state.map Heard.status).toList = [] := by
    cases i.state <;> rfl
  constructor
  · apply h.windowed
  · apply h.le
  · apply h.window
  · apply Wbufifo.step_inv h.busoutfifo rfl (by decide)
  · intro f hf
    rw [hserved, List.mem_append, List.mem_append] at hf
    have hcalm := h.calm f
    rw [hpending, List.mem_append] at hcalm
    rcases hf with (hf | hf) | hf
    · apply hcalm (Or.inl hf)
    · rw [Option.mem_toList, Option.map_eq_some_iff] at hf
      obtain ⟨sixbits, hsix, rfl⟩ := hf
      apply hstate sixbits hsix
    · apply hcalm (Or.inr hf)
  · have hwords : wordsOf (s.serve i).pending = wordsOf s.pending := by
      rw [hserved, hpending]
      simp only [wordsOf_append, hstate', List.append_nil]
    rw [hwords]
    apply h.words
  · have hstatuses := h.statuses
    rw [Window.statuses, ← hheld, List.countP_append] at hstatuses
    show (s.serve i).held.countP _ + addresses s.rNewAddr s.actions ≤ quiet
    omega
  · apply h.stored

end Invariant

end Window

end ZBasic
