import ZBasic.Clocked.Run
import ZBasic.Cpu.Wbdmac
import ZBasic.Memory.Copy
import ZBasic.Wishbone.Memory

/-!
# A transfer, block by block

The DMA controller together with the memory it copies in. A transfer is followed through
its phases: waiting, reading a block, turning round, writing the block.
-/

namespace ZBasic

open Clocked Wishbone

variable {aw : ℕ}

/-- The DMA controller and the memory behind its bus. -/
structure DmaSystem (aw : ℕ) where
  dma : Wbdmac aw
  bus : Slave (BitVec aw) (BitVec 32)

namespace DmaSystem

section Step

variable (x : DmaSystem aw) (i : Wbdmac.Input)

/-- What the controller asks the bus for. -/
def request : Request (BitVec aw) (BitVec 32) where
  cyc := x.dma.oMwbCyc
  stb := x.dma.oMwbStb
  we := x.dma.oMwbWe
  addr := x.dma.oMwbAddr
  data := x.dma.oMwbData

/-- One clock of the system. The stall and the acknowledge line are inputs; the data that
come with an acknowledgement are the memory's. -/
def step : DmaSystem aw where
  dma := x.dma.step { i with iMwbData := x.bus.answer i.iMwbAck i.iMwbData }
  bus := x.bus.step x.request i.iMwbStall i.iMwbAck

/-- The address of the read accepted at a clock. -/
def readAt : List (BitVec aw) :=
  if x.dma.oMwbStb && !i.iMwbStall && !x.dma.oMwbWe then [x.dma.oMwbAddr] else []

/-- The address of the write accepted at a clock. -/
def writtenAt : List (BitVec aw) :=
  if x.dma.oMwbStb && !i.iMwbStall && x.dma.oMwbWe then [x.dma.oMwbAddr] else []

end Step

end DmaSystem

/-- The place of word `j` from the address `base` on, which is the same for all words
unless the address increments. -/
def place (inc : Bool) (base : BitVec aw) (j : ℕ) : BitVec aw :=
  if inc then base + BitVec.ofNat aw j else base

@[simp]
theorem place_zero (inc : Bool) (base : BitVec aw) :
  place inc base 0 = base
  := by simp [place]

theorem place_succ (inc : Bool) (base : BitVec aw) (j : ℕ) :
  place inc base (j + 1) = if inc then place inc base j + 1 else place inc base j
  := by
  cases inc with
  | false => rfl
  | true =>
      simp only [place, if_true]
      rw [BitVec.ofNat_add, ← BitVec.add_assoc]
      rfl

/-- A transfer as it was configured; `blk` is one less than the length of a block. -/
structure Transfer (aw : ℕ) where
  raddr : BitVec aw
  waddr : BitVec aw
  len : ℕ
  blk : ℕ
  incs : Bool
  incd : Bool
  mem : BitVec aw → BitVec 32

namespace Transfer

variable (t : Transfer aw)

/-- Where word `j` comes from. -/
def src (j : ℕ) : BitVec aw := place t.incs t.raddr j

/-- Where word `j` goes to. -/
def dst (j : ℕ) : BitVec aw := place t.incd t.waddr j

/-- The length of the block that starts at word `o`. -/
def block (o : ℕ) : ℕ := min (t.blk + 1) (t.len - o)

/-- Word `j` of the block that starts at word `o`. -/
def word (o : ℕ) (M : BitVec aw → BitVec 32) (j : ℕ) : BitVec 32 := M (t.src (o + j))

/-- The memory after `k` words of the block were written. -/
def written (o : ℕ) (M : BitVec aw → BitVec 32) (k : ℕ) : BitVec aw → BitVec 32 :=
  Memory.writes M (fun j => t.dst (o + j)) (t.word o M) k

/-- The memory after the whole transfer. -/
def copied : BitVec aw → BitVec 32 := Memory.copy t.blk t.src t.dst t.mem 0 t.len

theorem block_pos {o : ℕ} (h : o < t.len) :
  0 < t.block o
  := by
  unfold block
  omega

theorem block_le (o : ℕ) :
  t.block o ≤ t.blk + 1 ∧ t.block o ≤ t.len - o
  := by
  unfold block
  omega

end Transfer

/-- The inputs at a clock: no reset, no bus error, and no write to the registers. -/
structure Wbdmac.Input.Quiet (i : Wbdmac.Input) : Prop where
  iReset : i.iReset = false
  iMwbErr : i.iMwbErr = false
  noWrite : (i.iSwbStb && i.iSwbWe) = false

namespace Transfer

/-- What stays the same as long as the transfer `t` is on: the configuration, and what is
left to do from word `o` on, where the memory is `M`. -/
structure Busy (t : Transfer aw) (x : DmaSystem aw) (o : ℕ) (M : BitVec aw → BitVec 32) :
    Prop where
  noCommand : (x.dma.rSStb && x.dma.rSWe) = false
  abort : x.dma.abort = false
  userHalt : x.dma.userHalt = false
  onDevTrigger : x.dma.cfgOnDevTrigger = false
  incs : x.dma.cfgIncs = t.incs
  incd : x.dma.cfgIncd = t.incd
  blocklen : x.dma.cfgBlocklenSubOne.toNat = t.blk
  interrupt : x.dma.oInterrupt = false
  left : o < t.len
  rest : Memory.copy t.blk t.src t.dst M o (t.len - o) = t.copied

/-- Between two blocks. -/
structure Waiting (t : Transfer aw) (x : DmaSystem aw) (o : ℕ) (M : BitVec aw → BitVec 32) :
    Prop extends Busy t x o M where
  dmaState : x.dma.dmaState = .wait
  raddr : x.dma.cfgRaddr = t.src o
  waddr : x.dma.cfgWaddr = t.dst o
  len : x.dma.cfgLen.toNat = t.len - o
  nonzero : x.dma.cfgLenNonzero = true
  mem : x.bus.mem = M
  pending : x.bus.pending = []
  ready : x.dma.trigger = true →
    x.dma.nracks = 0 ∧ x.dma.nread = 0 ∧ x.dma.rdaddr = 0 ∧ x.dma.oMwbAddr = t.src o

/-- Reading a block: `r` reads are accepted, `a` of them acknowledged. -/
structure Reading (t : Transfer aw) (x : DmaSystem aw) (o : ℕ) (M : BitVec aw → BitVec 32)
    (r a : ℕ) : Prop extends Busy t x o M where
  dmaState : x.dma.dmaState = if r < t.block o then .readReq else .readAck
  accepted : r ≤ t.block o
  acked : a ≤ r
  more : a < t.block o
  nracks : x.dma.nracks.toNat = r
  nread : x.dma.nread.toNat = a
  raddr : x.dma.cfgRaddr = t.src (o + a)
  waddr : x.dma.cfgWaddr = t.dst o
  len : x.dma.cfgLen.toNat = t.len - o
  nonzero : x.dma.cfgLenNonzero = true
  addr : x.dma.oMwbAddr = t.src (o + r)
  last : r < t.block o → x.dma.lastReadRequest = decide (r + 1 = t.block o)
  rdaddr : x.dma.rdaddr = 0
  mem : x.bus.mem = M
  pending : x.bus.pending = window (t.word o M) a r
  stored : ∀ j < a, x.dma.dmaMem (BitVec.ofNat 10 j) = t.word o M j

/-- Turning round between reading and writing a block. -/
structure Filled (t : Transfer aw) (x : DmaSystem aw) (o : ℕ) (M : BitVec aw → BitVec 32) :
    Prop extends Busy t x o M where
  dmaState : x.dma.dmaState = .preWrite
  nread : x.dma.nread.toNat = t.block o
  raddr : x.dma.cfgRaddr = t.src (o + t.block o)
  waddr : x.dma.cfgWaddr = t.dst o
  len : x.dma.cfgLen.toNat = t.len - o
  nonzero : x.dma.cfgLenNonzero = true
  rdaddr : x.dma.rdaddr = 0
  mem : x.bus.mem = M
  pending : x.bus.pending = []
  stored : ∀ j < t.block o, x.dma.dmaMem (BitVec.ofNat 10 j) = t.word o M j

/-- Writing a block: `w` writes are accepted, `a` of them acknowledged. -/
structure Writing (t : Transfer aw) (x : DmaSystem aw) (o : ℕ) (M : BitVec aw → BitVec 32)
    (w a : ℕ) : Prop extends Busy t x o M where
  dmaState : x.dma.dmaState = if w < t.block o then .writeReq else .writeAck
  accepted : w ≤ t.block o
  acked : a ≤ w
  more : a < t.block o
  nread : x.dma.nread.toNat = t.block o
  nwritten : x.dma.nwritten.toNat = w
  nwacks : x.dma.nwacks.toNat = a
  raddr : x.dma.cfgRaddr = t.src (o + t.block o)
  waddr : x.dma.cfgWaddr = t.dst (o + w)
  len : x.dma.cfgLen.toNat = t.len - o - a
  nonzero : x.dma.cfgLenNonzero = true
  addr : x.dma.oMwbAddr = t.dst (o + w)
  data : w < t.block o → x.dma.oMwbData = t.word o M w
  rdaddr : w < t.block o → x.dma.rdaddr = BitVec.ofNat 10 (w + 1)
  last : w < t.block o → x.dma.lastWriteRequest = decide (w + 1 = t.block o)
  mem : x.bus.mem = t.written o M w
  pending : x.bus.pending.length = w - a
  stored : ∀ j < t.block o, x.dma.dmaMem (BitVec.ofNat 10 j) = t.word o M j

/-- The transfer is over. -/
structure Finished (t : Transfer aw) (x : DmaSystem aw) : Prop where
  noCommand : (x.dma.rSStb && x.dma.rSWe) = false
  dmaState : x.dma.dmaState = .idle
  len : x.dma.cfgLen = 0
  mem : x.bus.mem = t.copied

end Transfer

namespace Wbdmac

/-! ### The requests of a block -/

theorem blockRequested_eq (s : Wbdmac aw) {c : ℕ} (hc : c ≤ 2) :
  s.blockRequested (BitVec.ofNat 32 c) = decide (s.nracks.toNat + c = s.cfgBlocklenSubOne.toNat)
  := by
  have hr := s.nracks.isLt
  have hb := s.cfgBlocklenSubOne.isLt
  rw [blockRequested, decide_eq_decide, blocklenSubOne, ← BitVec.toNat_inj]
  simp only [BitVec.toNat_add, BitVec.toNat_setWidth, BitVec.toNat_ofNat]
  omega

theorem lenRequested_eq (s : Wbdmac aw) {c : ℕ} (hc : c ≤ 2)
    (hr : s.nracks.toNat < s.cfgLen.toNat) :
  s.lenRequested c = decide (s.nracks.toNat + c = s.cfgLen.toNat)
  := by
  have hlen := s.cfgLen.isLt
  have hcount := s.nracks.isLt
  have hwide : 2 ^ 32 ≤ 2 ^ max aw 32 := Nat.pow_le_pow_right (by decide) (le_max_right _ _)
  have haw : 2 ^ aw ≤ 2 ^ max aw 32 := Nat.pow_le_pow_right (by decide) (le_max_left _ _)
  rw [lenRequested, decide_eq_decide, eq_sub_iff_add_eq, ← BitVec.toNat_inj]
  simp only [BitVec.toNat_add, BitVec.toNat_setWidth, BitVec.toNat_ofNat]
  rw [Nat.mod_eq_of_lt (a := s.nracks.toNat) (by omega), Nat.mod_eq_of_lt (a := s.nracks.toNat)
    (by omega), Nat.mod_eq_of_lt (a := c) (by omega), Nat.mod_eq_of_lt (a := s.cfgLen.toNat)
    (by omega), Nat.mod_eq_of_lt (by omega)]

end Wbdmac

namespace Transfer

variable {t : Transfer aw} {x : DmaSystem aw} {i : Wbdmac.Input} {o : ℕ}
  {M : BitVec aw → BitVec 32}

theorem Busy.blk_lt (h : Busy t x o M) :
  t.blk < 1024
  := by
  rw [← h.blocklen]
  apply x.dma.cfgBlocklenSubOne.isLt

/-- The configuration stays as it is. -/
theorem Busy.keep (h : Busy t x o M) (hi : i.Quiet) (hs : x.dma.dmaState ≠ .idle)
    (hint : (x.dma.dmaState = .writeAck ∧ i.iMwbAck = true ∧ x.dma.lastWriteAck = true
      → x.dma.cfgLen ≠ 1)) :
  Busy t (x.step i) o M
  := by
  have hcmd : ∀ a, x.dma.command a = false := by
    intro a
    rw [Wbdmac.command, h.noCommand, Bool.false_and]
  constructor
  · simpa [DmaSystem.step, Wbdmac.step, hi.iReset] using hi.noWrite
  · simp [DmaSystem.step, Wbdmac.step, hi.iReset, hs, hcmd]
  · simp [DmaSystem.step, Wbdmac.step, h.userHalt, hcmd]
  · simp [DmaSystem.step, Wbdmac.step, Wbdmac.config, hi.iReset, hs, h.onDevTrigger]
  · simp [DmaSystem.step, Wbdmac.step, Wbdmac.config, hi.iReset, hs, h.incs]
  · simp [DmaSystem.step, Wbdmac.step, Wbdmac.config, hi.iReset, hs, h.incd]
  · simp [DmaSystem.step, Wbdmac.step, Wbdmac.config, hi.iReset, hs, h.blocklen]
  · simp [DmaSystem.step, Wbdmac.step, hi.iReset, hi.iMwbErr]
    simpa using hint
  · apply h.left
  · apply h.rest

/-- With `c` more reads requested, the next one is the last of the block exactly if one of
the two counts says so. -/
theorem Busy.requested (h : Busy t x o M) (hlen : x.dma.cfgLen.toNat = t.len - o) {c : ℕ}
    (hc : c ≤ 1) (hr : x.dma.nracks.toNat + c < t.block o) :
  (x.dma.blockRequested (BitVec.ofNat 32 c) || x.dma.lenRequested (c + 1))
    = decide (x.dma.nracks.toNat + c + 1 = t.block o)
  := by
  have hblock := t.block_le o
  rw [Wbdmac.blockRequested_eq _ (by omega), Wbdmac.lenRequested_eq _ (by omega) (by omega), hlen,
    h.blocklen, ← Bool.decide_or, decide_eq_decide]
  unfold block at *
  omega

/-! ### Waiting -/

theorem Waiting.busy_step (h : Waiting t x o M) (hi : i.Quiet) :
  Busy t (x.step i) o M
  := by
  apply h.toBusy.keep hi
  · rw [h.dmaState]
    decide
  · rw [h.dmaState]
    rintro ⟨hs, -⟩
    cases hs

/-- Before the trigger has come the controller keeps waiting. -/
theorem Waiting.step_wait (h : Waiting t x o M) (hi : i.Quiet) (htrigger : x.dma.trigger = false) :
  Waiting t (x.step i) o M ∧ (x.step i).dma.trigger = true
  := by
  have hs := h.dmaState
  constructor
  · constructor
    · apply h.busy_step hi
    · simp [DmaSystem.step, Wbdmac.step, Wbdmac.nextState, hi.iReset, hs, h.abort, h.userHalt,
        htrigger]
    · simp [DmaSystem.step, Wbdmac.step, Wbdmac.nextRaddr, hi.iReset, hs, h.raddr]
    · simp [DmaSystem.step, Wbdmac.step, Wbdmac.nextWaddr, hi.iReset, hs, h.waddr]
    · simp [DmaSystem.step, Wbdmac.step, Wbdmac.config, Wbdmac.oMwbCyc, hi.iReset, hs, h.len]
    · simp [DmaSystem.step, Wbdmac.step, Wbdmac.config, Wbdmac.oMwbCyc, hi.iReset, hs, h.nonzero]
    · simp [DmaSystem.step, Slave.step, DmaSystem.request, Wbdmac.oMwbStb, hs, h.mem]
    · simp [DmaSystem.step, Slave.step, DmaSystem.request, Wbdmac.oMwbCyc, hs]
    · intro _
      simp [DmaSystem.step, Wbdmac.step, Wbdmac.between, Wbdmac.nextAddr, hi.iReset, hs, h.raddr]
  · simp [DmaSystem.step, Wbdmac.step, hi.iReset, hs, h.onDevTrigger]

/-- The trigger starts the reading of a block. -/
theorem Waiting.step_trigger (h : Waiting t x o M) (hi : i.Quiet) (htrigger : x.dma.trigger = true) :
  Reading t (x.step i) o M 0 0
  := by
  have hs := h.dmaState
  have hpos := t.block_pos h.left
  obtain ⟨hnracks, hnread, hrdaddr, haddr⟩ := h.ready htrigger
  constructor
  · apply h.busy_step hi
  · rw [if_pos hpos]
    simp [DmaSystem.step, Wbdmac.step, Wbdmac.nextState, hi.iReset, hs, h.abort, h.userHalt,
      htrigger]
  · apply Nat.zero_le
  · apply Nat.le_refl
  · apply hpos
  · simp [DmaSystem.step, Wbdmac.step, Wbdmac.between, hi.iReset, hs]
  · simp [DmaSystem.step, Wbdmac.step, Wbdmac.between, hi.iReset, hs]
  · simp [DmaSystem.step, Wbdmac.step, Wbdmac.nextRaddr, hi.iReset, hs, h.raddr]
  · simp [DmaSystem.step, Wbdmac.step, Wbdmac.nextWaddr, hi.iReset, hs, h.waddr]
  · simp [DmaSystem.step, Wbdmac.step, Wbdmac.config, Wbdmac.oMwbCyc, hi.iReset, hs, h.len]
  · simp [DmaSystem.step, Wbdmac.step, Wbdmac.config, Wbdmac.oMwbCyc, hi.iReset, hs, h.nonzero]
  · simp [DmaSystem.step, Wbdmac.step, Wbdmac.nextAddr, hi.iReset, hs, h.raddr]
  · intro _
    have hrequested := h.toBusy.requested h.len (c := 0) (by decide) (by simpa [hnracks] using hpos)
    simpa [DmaSystem.step, Wbdmac.step, Wbdmac.nextLastReadRequest, hi.iReset, hs, hnracks]
      using hrequested
  · simp [DmaSystem.step, Wbdmac.step, Wbdmac.between, hi.iReset, hs]
  · simp [DmaSystem.step, Slave.step, DmaSystem.request, Wbdmac.oMwbStb, hs, h.mem]
  · simp [DmaSystem.step, Slave.step, DmaSystem.request, Wbdmac.oMwbCyc, hs]
  · intro j hj
    cases hj

/-! ### Requests and acknowledgements -/

/-- The requests of a block accepted after a clock, `k` of `n` of them before it. -/
def requests (n k : ℕ) (i : Wbdmac.Input) : ℕ := if k < n ∧ i.iMwbStall = false then k + 1 else k

/-- The requests acknowledged after a clock, `a` of them before it. -/
def acks (a : ℕ) (i : Wbdmac.Input) : ℕ := if i.iMwbAck then a + 1 else a

theorem requests_le {n k : ℕ} (h : k ≤ n) :
  requests n k i ≤ n ∧ k ≤ requests n k i
  := by
  unfold requests
  split <;> omega

@[simp]
theorem requests_self (n : ℕ) :
  requests n n i = n
  := by simp [requests]

theorem le_acks {a : ℕ} :
  a ≤ acks a i
  := by
  unfold acks
  split <;> omega

theorem acks_le_succ {a : ℕ} :
  acks a i ≤ a + 1
  := by
  unfold acks
  split <;> omega

theorem acks_le {a r : ℕ} (h : a ≤ r) (hack : i.iMwbAck = true → a < r) :
  acks a i ≤ r
  := by
  unfold acks
  split
  · rename_i hnow
    have := hack hnow
    omega
  · omega

end Transfer

end ZBasic
