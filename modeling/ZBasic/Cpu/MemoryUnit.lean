import ZBasic.Clocked.Bits
import ZBasic.Clocked.Run
import Mathlib.Tactic.IntervalCases
import Mathlib.Tactic.Use

/-!
# Memory units

A memory unit takes loads and stores of words, halfwords and bytes from the CPU, makes bus
requests of them and gives the CPU what was loaded. What it has done is recorded as it is done,
from the last reset on, and compared with what the accesses ask for.
-/

namespace ZBasic

open Clocked

/-! ### Accesses -/

/-- A load or a store that the CPU offers, with the register of a load. -/
structure Access where
  iOp : BitVec 3
  iAddr : BitVec 32
  iData : BitVec 32
  iOreg : BitVec 5

/-- A bus request on the local or the global bus, with its data on the lanes that are
selected. -/
structure LaneRequest (aw : ℕ) where
  lcl : Bool
  addr : BitVec aw
  sel : BitVec 4
  data : BitVec 32
  we : Bool

/-- The data on the selected lanes. -/
def onLanes (sel : BitVec 4) (data : BitVec 32) : BitVec 32 :=
  data &&& ((sel.extractLsb' 3 1).signExtend 8 ++ (sel.extractLsb' 2 1).signExtend 8
    ++ (sel.extractLsb' 1 1).signExtend 8 ++ (sel.extractLsb' 0 1).signExtend 8)

namespace Access

variable (a : Access)

def isStore : Bool := a.iOp.getLsbD 0

def isWord : Bool := a.iOp.extractLsb' 1 2 == 0b01

def isHalfword : Bool := a.iOp.extractLsb' 1 2 == 0b10

def isByte : Bool := a.iOp.extractLsb' 1 2 == 0b11

/-- The place of the addressed byte in its word. -/
def place : ℕ := a.iAddr.toNat % 4

/-- A word that is not at a multiple of four, or a halfword that is not at a multiple of two. -/
def misaligned : Bool :=
  (a.isWord && decide (a.place ≠ 0)) || (a.isHalfword && decide (a.place % 2 ≠ 0))

/-- The lanes of the access, the first byte of a word being on the highest lane. -/
def lanes : BitVec 4 :=
  if a.isByte then 0b1000 >>> a.place
  else if a.isHalfword then 0b1100 >>> (a.place / 2 * 2)
  else 0b1111

/-- What a store writes, on every lane on which it could be written. -/
def spread : BitVec 32 :=
  if a.isByte then
    a.iData.extractLsb' 0 8 ++ a.iData.extractLsb' 0 8 ++ a.iData.extractLsb' 0 8
      ++ a.iData.extractLsb' 0 8
  else if a.isHalfword then a.iData.extractLsb' 0 16 ++ a.iData.extractLsb' 0 16
  else a.iData

/-- The local bus has the addresses that begin with `0xff`, if there is one. -/
def isLocal (withLocalBus : Bool) : Bool := withLocalBus && a.iAddr.extractLsb' 24 8 == 0xff

/-- The bus request of an access. -/
def request (aw : ℕ) (withLocalBus : Bool) : LaneRequest aw where
  lcl := a.isLocal withLocalBus
  addr := a.iAddr.extractLsb' 2 aw
  sel := a.lanes
  data := onLanes a.lanes a.spread
  we := a.isStore

/-- What a load gives for the word that is at its address. -/
def loaded (word : BitVec 32) : BitVec 32 :=
  if a.isByte then (word.extractLsb' (24 - 8 * a.place) 8).setWidth 32
  else if a.isHalfword then (word.extractLsb' (16 - 8 * (a.place / 2 * 2)) 16).setWidth 32
  else word

/-- The register of a load and what it gives, for the answer to its request. -/
def result (answer : BitVec 32) : Option (BitVec 5 × BitVec 32) :=
  if a.isStore then none else some (a.iOreg, a.loaded answer)

end Access

/-! ### Decoding

Both units select the lanes, place the data and take the result out of a word by the size of an
access and the last two bits of its address.
-/

section Source

/-- `{ i_op[2:1], i_addr[1:0] }` -/
def Access.decoded (a : Access) : BitVec 4 := a.iOp.extractLsb' 1 2 ++ a.iAddr.extractLsb' 0 2

/-- The sizes and addresses for which an access is flagged, `4'b01?1`, `4'b0110` and
`4'b10?1`. -/
def flags (decoded : BitVec 4) : Bool :=
  (decoded.extractLsb' 2 2 == 0b01 && decoded.getLsbD 0) || decoded == 0b0110
    || (decoded.extractLsb' 2 2 == 0b10 && decoded.getLsbD 0)

/-- `o_wb_sel` for an access. -/
def selFor (decoded : BitVec 4) : BitVec 4 :=
  if decoded.extractLsb' 1 3 = 0b100 then 0b1100
  else if decoded.extractLsb' 1 3 = 0b101 then 0b0011
  else if decoded = 0b1100 then 0b1000
  else if decoded = 0b1101 then 0b0100
  else if decoded = 0b1110 then 0b0010
  else if decoded = 0b1111 then 0b0001
  else 0b1111

/-- `o_wb_data` for an access, with zeros on the lanes that are not selected. -/
def dataFor (decoded : BitVec 4) (iData : BitVec 32) : BitVec 32 :=
  if decoded.extractLsb' 1 3 = 0b100 then iData.extractLsb' 0 16 ++ 0#16
  else if decoded.extractLsb' 1 3 = 0b101 then 0#16 ++ iData.extractLsb' 0 16
  else if decoded = 0b1100 then iData.extractLsb' 0 8 ++ 0#24
  else if decoded = 0b1101 then 0#8 ++ iData.extractLsb' 0 8 ++ 0#16
  else if decoded = 0b1110 then 0#16 ++ iData.extractLsb' 0 8 ++ 0#8
  else if decoded = 0b1111 then 0#24 ++ iData.extractLsb' 0 8
  else iData

/-- `o_result` for the word that was read. -/
def resultFor (decoded : BitVec 4) (iWbData : BitVec 32) : BitVec 32 :=
  if decoded.extractLsb' 1 3 = 0b100 then 0#16 ++ iWbData.extractLsb' 16 16
  else if decoded.extractLsb' 1 3 = 0b101 then 0#16 ++ iWbData.extractLsb' 0 16
  else if decoded = 0b1100 then 0#24 ++ iWbData.extractLsb' 24 8
  else if decoded = 0b1101 then 0#24 ++ iWbData.extractLsb' 16 8
  else if decoded = 0b1110 then 0#24 ++ iWbData.extractLsb' 8 8
  else if decoded = 0b1111 then 0#24 ++ iWbData.extractLsb' 0 8
  else iWbData

end Source

/-- An access has one of four sizes and one of four places. -/
theorem Access.cases (a : Access) :
  (a.iOp.extractLsb' 1 2 = 0b00 ∨ a.iOp.extractLsb' 1 2 = 0b01 ∨ a.iOp.extractLsb' 1 2 = 0b10
      ∨ a.iOp.extractLsb' 1 2 = 0b11)
    ∧ ((a.place = 0 ∧ a.iAddr.extractLsb' 0 2 = 0b00)
      ∨ (a.place = 1 ∧ a.iAddr.extractLsb' 0 2 = 0b01)
      ∨ (a.place = 2 ∧ a.iAddr.extractLsb' 0 2 = 0b10)
      ∨ (a.place = 3 ∧ a.iAddr.extractLsb' 0 2 = 0b11))
  := by
  have hall : ∀ x : BitVec 2, x = 0b00 ∨ x = 0b01 ∨ x = 0b10 ∨ x = 0b11 := by decide
  constructor
  · apply hall
  · have hplace : a.place = (a.iAddr.extractLsb' 0 2).toNat := by
      rw [toNat_extract_low]
      rfl
    rw [hplace]
    rcases hall (a.iAddr.extractLsb' 0 2) with h | h | h | h <;> rw [h] <;> decide

/-- What is flagged are the misaligned accesses. -/
theorem flags_decoded (a : Access) :
  flags a.decoded = a.misaligned
  := by
  obtain ⟨hsize, hplace⟩ := a.cases
  rcases hsize with hsize | hsize | hsize | hsize <;>
    rcases hplace with ⟨hplace, hlow⟩ | ⟨hplace, hlow⟩ | ⟨hplace, hlow⟩ | ⟨hplace, hlow⟩ <;>
    simp only [Access.decoded, Access.misaligned, Access.isWord, Access.isHalfword, hsize, hlow,
      hplace] <;>
    rfl

theorem selFor_decoded (a : Access) :
  selFor a.decoded = a.lanes
  := by
  obtain ⟨hsize, hplace⟩ := a.cases
  rcases hsize with hsize | hsize | hsize | hsize <;>
    rcases hplace with ⟨hplace, hlow⟩ | ⟨hplace, hlow⟩ | ⟨hplace, hlow⟩ | ⟨hplace, hlow⟩ <;>
    simp only [Access.decoded, Access.lanes, Access.isByte, Access.isHalfword, hsize, hlow,
      hplace] <;>
    rfl

/-- The lane on which a bit is. -/
theorem getLsbD_lanes (sel : BitVec 4) {j : ℕ} (hj : j < 32) :
  ((sel.extractLsb' 3 1).signExtend 8 ++ (sel.extractLsb' 2 1).signExtend 8
    ++ (sel.extractLsb' 1 1).signExtend 8 ++ (sel.extractLsb' 0 1).signExtend 8).getLsbD j
    = sel.getLsbD (j / 8)
  := by
  have hlane : ∀ k b : ℕ, b < 8 →
      ((sel.extractLsb' k 1).signExtend 8).getLsbD b = sel.getLsbD k := by
    intro k b hb
    rw [BitVec.getLsbD_signExtend]
    rcases Nat.eq_zero_or_pos b with rfl | hpos
    · simp
    · simp [hb, show ¬ b < 1 by omega, BitVec.msb_eq_getLsbD_last]
  simp only [BitVec.getLsbD_append]
  split_ifs with h₀ h₁ h₂
  · rw [hlane 0 j h₀, Nat.div_eq_of_lt h₀]
  · rw [hlane _ _ h₁]
    congr 1
    omega
  · rw [hlane _ _ h₂]
    congr 1
    omega
  · rw [hlane _ _ (by omega)]
    congr 1
    omega

/-- Only what is on the selected lanes counts. -/
theorem onLanes_congr {sel : BitVec 4} {x y : BitVec 32}
    (h : ∀ k < 4, sel.getLsbD k = true → x.extractLsb' (8 * k) 8 = y.extractLsb' (8 * k) 8) :
  onLanes sel x = onLanes sel y
  := by
  apply BitVec.eq_of_getLsbD_eq
  intro j hj
  rw [onLanes, onLanes, BitVec.getLsbD_and, BitVec.getLsbD_and, getLsbD_lanes sel hj]
  cases hsel : sel.getLsbD (j / 8) with
  | false => rw [Bool.and_false, Bool.and_false]
  | true =>
      have hbyte := congrArg (·.getLsbD (j % 8)) (h (j / 8) (by omega) hsel)
      simpa [Nat.mod_lt, Nat.div_add_mod] using hbyte

/-- Zeros on the lanes that are not selected make no difference. -/
theorem dataFor_decoded (a : Access) :
  onLanes a.lanes (dataFor a.decoded a.iData) = onLanes a.lanes a.spread
  := by
  obtain ⟨hsize, hplace⟩ := a.cases
  apply onLanes_congr
  intro k hk
  rcases hsize with hsize | hsize | hsize | hsize <;>
    rcases hplace with ⟨hplace, hlow⟩ | ⟨hplace, hlow⟩ | ⟨hplace, hlow⟩ | ⟨hplace, hlow⟩ <;>
    interval_cases k <;>
    intro hsel <;>
    simp +decide [-Nat.reduceAdd, Access.decoded, Access.lanes, Access.spread, Access.isByte,
      Access.isHalfword, hsize, hlow, hplace, dataFor] at hsel ⊢ <;>
    simp (disch := omega) only [extract_append_low, extract_append_high]

/-- The result is taken from the lanes of the access. -/
theorem resultFor_decoded (a : Access) (word : BitVec 32) :
  resultFor a.decoded word = a.loaded word
  := by
  obtain ⟨hsize, hplace⟩ := a.cases
  rcases hsize with hsize | hsize | hsize | hsize <;>
    rcases hplace with ⟨hplace, hlow⟩ | ⟨hplace, hlow⟩ | ⟨hplace, hlow⟩ | ⟨hplace, hlow⟩ <;>
    simp only [Access.decoded, Access.loaded, Access.isByte, Access.isHalfword, hsize, hlow,
      hplace, resultFor, zero_append] <;>
    rfl

/-! ### Units -/

/-- The parameters that the units share. -/
structure MemoryConfig where
  implementLock : Bool
  withLocalBus : Bool
  optAlignmentErr : Bool
  optZeroOnIdle : Bool

/-- What a memory unit is given at one clock. -/
structure MemoryInput where
  iReset : Bool
  iStb : Bool
  iLock : Bool
  access : Access
  iWbStall : Bool
  iWbAck : Bool
  iWbErr : Bool
  iWbData : BitVec 32

/-- A memory unit with the registers `σ`: its clock edge and its outputs. -/
structure MemoryUnit (aw : ℕ) (σ : Type) where
  step : σ → MemoryInput → σ
  oBusy : σ → Bool
  stalled : σ → MemoryInput → Bool
  oWbStbGbl : σ → Bool
  oWbStbLcl : σ → Bool
  oWbAddr : σ → BitVec aw
  oWbSel : σ → BitVec 4
  oWbData : σ → BitVec 32
  oWbWe : σ → Bool
  oValid : σ → Bool
  oWreg : σ → BitVec 5
  oResult : σ → BitVec 32
  oErr : σ → Bool

/-- What has been seen of a memory unit since the last reset: the accesses that it was offered,
the bus requests that were accepted, the answers to them, what was returned for loads, and what
was offered at the clocks that ended in an error. -/
structure Traffic (aw : ℕ) where
  offered : List Access
  requests : List (LaneRequest aw)
  answers : List (BitVec 32)
  returned : List (BitVec 5 × BitVec 32)
  errors : List (Option Access)

/-- Nothing has been seen. -/
def Traffic.none (aw : ℕ) : Traffic aw := ⟨[], [], [], [], []⟩

/-- The access that is offered at a clock. -/
def MemoryInput.offered (i : MemoryInput) : Option Access := if i.iStb then some i.access else none

namespace MemoryUnit

variable {aw : ℕ} {σ : Type} (u : MemoryUnit aw σ)

/-- The request that is on a bus if the bus is strobed. -/
def wires (s : σ) (lcl : Bool) : LaneRequest aw :=
  ⟨lcl, u.oWbAddr s, u.oWbSel s, onLanes (u.oWbSel s) (u.oWbData s), u.oWbWe s⟩

/-- The requests on the two buses. -/
def pending (s : σ) : List (LaneRequest aw) :=
  (if u.oWbStbGbl s then [u.wires s false] else [])
    ++ if u.oWbStbLcl s then [u.wires s true] else []

theorem pending_eq_nil_iff (s : σ) :
  u.pending s = [] ↔ u.oWbStbGbl s = false ∧ u.oWbStbLcl s = false
  := by
  rw [pending]
  cases u.oWbStbGbl s <;> cases u.oWbStbLcl s <;> simp

/-- The requests that are accepted at a clock. -/
def accepted (s : σ) (i : MemoryInput) : List (LaneRequest aw) :=
  if i.iWbStall then [] else u.pending s

/-- What is returned for a load. -/
def returned (s : σ) : List (BitVec 5 × BitVec 32) :=
  if u.oValid s then [(u.oWreg s, u.oResult s)] else []

/-- One clock of a memory unit, with what is seen of it. -/
def watch (x : σ × Traffic aw) (i : MemoryInput) : σ × Traffic aw :=
  (u.step x.1 i,
    if i.iReset then Traffic.none aw
    else
      { offered := x.2.offered ++ i.offered.toList
        requests := x.2.requests ++ u.accepted x.1 i
        answers := x.2.answers ++ if i.iWbAck then [i.iWbData] else []
        returned := x.2.returned ++ u.returned (u.step x.1 i)
        errors := x.2.errors ++ if u.oErr (u.step x.1 i) then [i.offered] else [] })

/-- What the CPU and the bus do at a clock. The CPU waits for the unit, and what it offers while
an access is being worked on is, like that, a load or a store, of the same register set. The bus
answers what it has accepted. -/
structure Environment (x : σ × Traffic aw) (i : MemoryInput) : Prop where
  ready : i.iStb = true → u.stalled x.1 i = false
  alike : i.iStb = true → u.oBusy x.1 = true → ∀ a ∈ x.2.offered.getLast?,
    a.isStore = i.access.isStore ∧ a.iOreg.getLsbD 4 = i.access.iOreg.getLsbD 4
  answers : i.iWbAck = true →
    x.2.answers.length < (x.2.requests ++ u.accepted x.1 i).length
  noErr : i.iWbErr = false

end MemoryUnit

/-- A memory unit and what is seen of it, from `s₀` on. -/
def MemoryUnit.history {aw : ℕ} {σ : Type} (u : MemoryUnit aw σ) (s₀ : σ) (inp : ℕ → MemoryInput) :
    ℕ → σ × Traffic aw :=
  run u.watch (s₀, Traffic.none aw) inp

/-! ### What the accesses ask for -/

/-- The accesses that are put on the bus. -/
def Traffic.issued {aw : ℕ} (t : Traffic aw) (optAlignmentErr : Bool) : List Access :=
  t.offered.filter fun a => !(optAlignmentErr && a.misaligned)

/-- The unit has done what the accesses ask for: it has made their requests in order, of which
the last may still be on the bus, it has returned for each answer to a load what was asked for,
it has flagged the misaligned accesses, and it is busy as long as an answer is to come. -/
structure Served {aw : ℕ} {σ : Type} (cfg : MemoryConfig) (u : MemoryUnit aw σ)
    (x : σ × Traffic aw) : Prop where
  requests : ((x.2.issued cfg.optAlignmentErr).map fun a => a.request aw cfg.withLocalBus)
    = x.2.requests ++ u.pending x.1
  answered : x.2.answers.length ≤ x.2.requests.length
  returned : x.2.returned
    = ((x.2.issued cfg.optAlignmentErr).zip x.2.answers).filterMap fun (a, d) => a.result d
  errors : x.2.errors = (x.2.offered.filter fun a => cfg.optAlignmentErr && a.misaligned).map some
  busy : u.oBusy x.1 = true ↔ x.2.answers.length < (x.2.issued cfg.optAlignmentErr).length

/-! ### One clock -/

/-- The accesses that are to be answered. -/
def Traffic.outstanding {aw : ℕ} (t : Traffic aw) (optAlignmentErr : Bool) : List Access :=
  (t.issued optAlignmentErr).drop t.answers.length

/-- The access that is put on the bus after a clock. -/
def MemoryInput.issued (i : MemoryInput) (optAlignmentErr : Bool) : List Access :=
  i.offered.toList.filter fun a => !(optAlignmentErr && a.misaligned)

section Step

variable {aw : ℕ} {σ : Type} {u : MemoryUnit aw σ} {cfg : MemoryConfig} {x : σ × Traffic aw}
  {i : MemoryInput}

theorem served_none {s : σ} (hgbl : u.oWbStbGbl s = false) (hlcl : u.oWbStbLcl s = false)
    (hbusy : u.oBusy s = false) :
  Served cfg u (s, Traffic.none aw)
  := by
  constructor
  case requests => simp [Traffic.none, Traffic.issued, MemoryUnit.pending, hgbl, hlcl]
  case answered => rfl
  case returned => rfl
  case errors => rfl
  case busy => simp [Traffic.none, Traffic.issued, hbusy]

theorem issued_watch (hreset : i.iReset = false) :
  (u.watch x i).2.issued cfg.optAlignmentErr
    = x.2.issued cfg.optAlignmentErr ++ i.issued cfg.optAlignmentErr
  := by
  simp only [MemoryUnit.watch, hreset, Bool.false_eq_true, if_false, Traffic.issued,
    MemoryInput.issued, List.filter_append]

theorem Served.busy_iff (h : Served cfg u x) :
  u.oBusy x.1 = true ↔ x.2.outstanding cfg.optAlignmentErr ≠ []
  := by rw [h.busy, Traffic.outstanding, ne_eq, List.drop_eq_nil_iff, Nat.not_le]

theorem Served.length_issued (h : Served cfg u x) :
  (x.2.issued cfg.optAlignmentErr).length = x.2.requests.length + (u.pending x.1).length
  := by
  have := congrArg List.length h.requests
  rwa [List.length_map, List.length_append] at this

/-- A unit that is not busy has no request on the bus. -/
theorem Served.pending_of_not_busy (h : Served cfg u x)
    (hbusy : u.oBusy x.1 = false) :
  u.pending x.1 = []
  := by
  have hall : (x.2.issued cfg.optAlignmentErr).length ≤ x.2.answers.length := by
    rw [← Nat.not_lt, ← h.busy, hbusy]
    simp
  have := h.length_issued
  have := h.answered
  rw [← List.length_eq_zero_iff]
  omega

/-- What can be answered was not answered before. -/
theorem Served.outstanding_of_ack (h : Served cfg u x) (henv : u.Environment x i)
    (hack : i.iWbAck = true) :
  ∃ a rest, x.2.outstanding cfg.optAlignmentErr = a :: rest
  := by
  have hlt := henv.answers hack
  have hlength := h.length_issued
  have haccepted : (u.accepted x.1 i).length ≤ (u.pending x.1).length := by
    rw [MemoryUnit.accepted]
    split_ifs
    · apply Nat.zero_le
    · apply Nat.le_refl
  rw [List.length_append] at hlt
  apply List.exists_cons_of_length_pos
  rw [Traffic.outstanding, List.length_drop]
  omega

theorem Served.outstanding_watch (h : Served cfg u x) (henv : u.Environment x i)
    (hreset : i.iReset = false) :
  (u.watch x i).2.outstanding cfg.optAlignmentErr
    = (if i.iWbAck then (x.2.outstanding cfg.optAlignmentErr).tail
        else x.2.outstanding cfg.optAlignmentErr) ++ i.issued cfg.optAlignmentErr
  := by
  have hle : x.2.answers.length ≤ (x.2.issued cfg.optAlignmentErr).length := by
    have := h.length_issued
    have := h.answered
    omega
  have hanswers : (u.watch x i).2.answers
      = x.2.answers ++ if i.iWbAck then [i.iWbData] else [] := by
    simp only [MemoryUnit.watch, hreset, Bool.false_eq_true, if_false]
  rw [Traffic.outstanding, issued_watch hreset, hanswers]
  cases hack : i.iWbAck with
  | false =>
      simp only [Bool.false_eq_true, if_false, List.append_nil]
      rw [List.drop_append_of_le_length hle, Traffic.outstanding]
  | true =>
      obtain ⟨a, rest, houtstanding⟩ := h.outstanding_of_ack henv hack
      have hlt : x.2.answers.length + 1 ≤ (x.2.issued cfg.optAlignmentErr).length := by
        have := congrArg List.length houtstanding
        rw [Traffic.outstanding, List.length_drop, List.length_cons] at this
        omega
      simp only [if_true, List.length_append, List.length_singleton]
      rw [List.drop_append_of_le_length hlt, Traffic.outstanding, List.tail_drop]

theorem zip_snoc_answer {l : List Access} {answers : List (BitVec 32)} {a : Access}
    {rest : List Access} (h : l.drop answers.length = a :: rest) (d : BitVec 32) :
  l.zip (answers ++ [d]) = l.zip answers ++ [(a, d)]
  := by
  have hsplit := List.take_append_drop answers.length l
  have hlength : (l.take answers.length).length = answers.length := by
    have := congrArg List.length h
    rw [List.length_drop, List.length_cons] at this
    rw [List.length_take]
    omega
  rw [h] at hsplit
  have hnil : answers = answers ++ [] := by rw [List.append_nil]
  rw [← hsplit, List.zip_append hlength]
  conv_rhs => rw [hnil, List.zip_append (by rw [List.append_nil]; apply hlength)]
  simp

theorem zip_snoc_access {l : List Access} {answers : List (BitVec 32)}
    (h : answers.length ≤ l.length) (rest : List Access) :
  (l ++ rest).zip answers = l.zip answers
  := by
  induction answers generalizing l with
  | nil => simp
  | cons d answers ih =>
      cases l with
      | nil => simp at h
      | cons a l =>
          rw [List.cons_append, List.zip_cons_cons, List.zip_cons_cons,
            ih (Nat.le_of_succ_le_succ h)]

/-- What a unit has to do at a clock for the accesses. -/
theorem Served.watch (h : Served cfg u x) (henv : u.Environment x i)
    (hreset : i.iReset = false)
    (hpending : u.accepted x.1 i ++ u.pending (u.step x.1 i)
      = u.pending x.1 ++ (i.issued cfg.optAlignmentErr).map fun a => a.request aw cfg.withLocalBus)
    (hreturned : u.returned (u.step x.1 i)
      = if i.iWbAck then
          ((x.2.outstanding cfg.optAlignmentErr).head?.bind fun a => a.result i.iWbData).toList
        else [])
    (herr : u.oErr (u.step x.1 i) = (i.iStb && (cfg.optAlignmentErr && i.access.misaligned)))
    (hbusy : u.oBusy (u.step x.1 i) = true
      ↔ (u.watch x i).2.outstanding cfg.optAlignmentErr ≠ []) :
  Served cfg u (u.watch x i)
  := by
  have hlength := h.length_issued
  have hanswered := h.answered
  constructor
  case requests =>
    rw [issued_watch hreset, List.map_append, h.requests, List.append_assoc, ← hpending]
    simp only [MemoryUnit.watch, hreset, Bool.false_eq_true, if_false, List.append_assoc]
  case answered =>
    have hanswer := henv.answers
    simp only [MemoryUnit.watch, hreset, Bool.false_eq_true, if_false]
    cases hack : i.iWbAck with
    | false =>
        simp only [Bool.false_eq_true, if_false, List.append_nil, List.length_append]
        omega
    | true =>
        have := hanswer hack
        simp only [if_true, List.length_append, List.length_singleton] at this ⊢
        omega
  case returned =>
    rw [issued_watch hreset]
    simp only [MemoryUnit.watch, hreset, Bool.false_eq_true, if_false, hreturned]
    cases hack : i.iWbAck with
    | false =>
        simp only [Bool.false_eq_true, if_false, List.append_nil]
        rw [zip_snoc_access (by omega), h.returned]
    | true =>
        obtain ⟨a, rest, houtstanding⟩ := h.outstanding_of_ack henv hack
        have hlt := congrArg List.length houtstanding
        rw [Traffic.outstanding, List.length_drop, List.length_cons] at hlt
        rw [if_pos rfl, if_pos rfl, zip_snoc_access (by rw [List.length_append]; simp; omega),
          zip_snoc_answer houtstanding, List.filterMap_append, ← h.returned, houtstanding]
        congr 1
  case errors =>
    simp only [MemoryUnit.watch, hreset, Bool.false_eq_true, if_false, herr, h.errors,
      List.filter_append, List.map_append, MemoryInput.offered]
    cases i.iStb with
    | false => simp
    | true => cases hflag : cfg.optAlignmentErr && i.access.misaligned <;> simp [hflag]
  case busy =>
    rw [← Nat.not_le, ← List.drop_eq_nil_iff]
    apply hbusy

end Step

/-! ### Units that agree -/

section Agree

variable {aw : ℕ} {σ τ : Type} {cfg cfg' : MemoryConfig} {u : MemoryUnit aw σ}
  {v : MemoryUnit aw τ} {x : σ × Traffic aw} {y : τ × Traffic aw}

/-- Two units do the same for the same accesses: they make the same requests, they return the
same for the same answers, and they flag the same accesses, which are misaligned. -/
structure Agree (cfg cfg' : MemoryConfig) (u : MemoryUnit aw σ) (v : MemoryUnit aw τ)
    (x : σ × Traffic aw) (y : τ × Traffic aw) : Prop where
  left : Served cfg u x
  right : Served cfg' v y
  requests : x.2.offered = y.2.offered →
    x.2.requests ++ u.pending x.1 = y.2.requests ++ v.pending y.1
  returned : x.2.offered = y.2.offered → x.2.answers = y.2.answers →
    x.2.returned = y.2.returned
  errors : x.2.offered = y.2.offered → x.2.errors = y.2.errors
  misaligned : ∀ e, e ∈ x.2.errors ∨ e ∈ y.2.errors → ∃ a, e = some a ∧ a.misaligned = true

theorem Served.misaligned_of_error (h : Served cfg u x) {e : Option Access}
    (he : e ∈ x.2.errors) :
  ∃ a, e = some a ∧ a.misaligned = true
  := by
  rw [h.errors, List.mem_map] at he
  obtain ⟨a, ha, rfl⟩ := he
  rw [List.mem_filter, Bool.and_eq_true] at ha
  use a, rfl, ha.2.2

/-- Units that do what the accesses ask for agree. -/
theorem Served.agree (h : Served cfg u x) (h' : Served cfg' v y)
    (hopt : cfg'.optAlignmentErr = cfg.optAlignmentErr)
    (hlocal : cfg'.withLocalBus = cfg.withLocalBus) :
  Agree cfg cfg' u v x y
  := by
  constructor
  · apply h
  · apply h'
  · intro hoffered
    rw [← h.requests, ← h'.requests, Traffic.issued, Traffic.issued, hoffered, hopt, hlocal]
  · intro hoffered hanswers
    rw [h.returned, h'.returned, Traffic.issued, Traffic.issued, hoffered, hanswers, hopt]
  · intro hoffered
    rw [h.errors, h'.errors, hoffered, hopt]
  · intro e he
    rcases he with he | he
    · apply h.misaligned_of_error he
    · apply h'.misaligned_of_error he

end Agree

end ZBasic
