import ZBasic.Cpu.Transfer

/-!
# Reading a block

While a block is read its words go from the bus into the memory of the controller, in the
order in which they are asked for.
-/

namespace ZBasic

open Clocked Wishbone

namespace Transfer

variable {aw : ℕ} {t : Transfer aw} {x : DmaSystem aw} {i : Wbdmac.Input} {o : ℕ}
  {M : BitVec aw → BitVec 32}

section ReadingStep

variable {r a : ℕ}

theorem Reading.states (h : Reading t x o M r a) :
  (x.dma.dmaState = .readReq ∧ r < t.block o) ∨ (x.dma.dmaState = .readAck ∧ r = t.block o)
  := by
  have hs := h.dmaState
  have hle := h.accepted
  split at hs
  · left
    constructor <;> assumption
  · right
    apply And.intro hs
    omega

theorem Reading.busy_step (h : Reading t x o M r a) (hi : i.Quiet) :
  Busy t (x.step i) o M
  := by
  rcases h.states with ⟨hs, -⟩ | ⟨hs, -⟩ <;>
    apply h.toBusy.keep hi <;> simp [hs]

theorem Reading.step_nracks (h : Reading t x o M r a) (hi : i.Quiet) :
  (x.step i).dma.nracks.toNat = requests (t.block o) r i
  := by
  have hblk := h.toBusy.blk_lt
  have hblock := t.block_le o
  have hr := h.nracks
  rcases h.states with ⟨hs, hlt⟩ | ⟨hs, rfl⟩
  · cases hstall : i.iMwbStall with
    | true =>
        simp [DmaSystem.step, Wbdmac.step, Wbdmac.between, hi.iReset, hs, hstall, requests, hr]
    | false =>
        simp [DmaSystem.step, Wbdmac.step, Wbdmac.between, Wbdmac.oMwbStb, Wbdmac.oMwbWe, hi.iReset,
          hs, hstall, requests, hlt]
        omega
  · simp [DmaSystem.step, Wbdmac.step, Wbdmac.between, Wbdmac.oMwbStb, hi.iReset, hs, requests, hr]

theorem Reading.step_nread (h : Reading t x o M r a) (hi : i.Quiet) :
  (x.step i).dma.nread.toNat = acks a i
  := by
  have hblk := h.toBusy.blk_lt
  have hblock := t.block_le o
  have ha := h.nread
  have hmore := h.more
  cases hack : i.iMwbAck with
  | true =>
      rcases h.states with ⟨hs, -⟩ | ⟨hs, -⟩ <;>
        simp [DmaSystem.step, Wbdmac.step, Wbdmac.between, Wbdmac.oMwbWe, hi.iReset, hs, hack,
          acks] <;> omega
  | false =>
      rcases h.states with ⟨hs, -⟩ | ⟨hs, -⟩ <;>
        simp [DmaSystem.step, Wbdmac.step, Wbdmac.between, hi.iReset, hs, hack, acks, ha]

theorem Reading.step_raddr (h : Reading t x o M r a) (hi : i.Quiet) :
  (x.step i).dma.cfgRaddr = t.src (o + acks a i)
  := by
  have hraddr := h.raddr
  have hnext : t.src (o + (a + 1)) = if t.incs then t.src (o + a) + 1 else t.src (o + a) :=
    place_succ _ _ _
  cases hack : i.iMwbAck <;> rcases h.states with ⟨hs, -⟩ | ⟨hs, -⟩ <;>
    simp [DmaSystem.step, Wbdmac.step, Wbdmac.nextRaddr, hi.iReset, hi.iMwbErr, hs, hack, acks,
      h.abort, h.incs, hraddr, hnext]

theorem Reading.step_addr (h : Reading t x o M r a) (hi : i.Quiet) :
  (x.step i).dma.oMwbAddr = t.src (o + requests (t.block o) r i)
  := by
  have haddr := h.addr
  have hnext : t.src (o + (r + 1)) = if t.incs then t.src (o + r) + 1 else t.src (o + r) :=
    place_succ _ _ _
  rcases h.states with ⟨hs, hlt⟩ | ⟨hs, rfl⟩
  · cases hstall : i.iMwbStall <;>
      simp [DmaSystem.step, Wbdmac.step, Wbdmac.nextAddr, hi.iReset, hs, hstall, requests, hlt,
        h.incs, haddr, hnext]
  · simp [DmaSystem.step, Wbdmac.step, Wbdmac.nextAddr, hi.iReset, hs, requests, haddr]

/-- What comes with an acknowledgement is the next word of the block. -/
theorem Reading.answer (h : Reading t x o M r a) (hack : i.iMwbAck = true) (hlt : a < r) :
  x.bus.answer i.iMwbAck i.iMwbData = t.word o M a
  := by simp [Slave.answer, hack, h.pending, window_cons _ hlt]

/-- The words that are read go into the memory of the controller. -/
theorem Reading.step_stored (h : Reading t x o M r a) (hack : i.iMwbAck = true → a < r) {j : ℕ}
    (hj : j < acks a i) :
  (x.step i).dma.dmaMem (BitVec.ofNat 10 j) = t.word o M j
  := by
  have hblk := h.toBusy.blk_lt
  have hblock := t.block_le o
  have hmore := h.more
  have hslot : x.dma.nread.setWidth 10 = BitVec.ofNat 10 a := by
    apply BitVec.eq_of_toNat_eq
    simp [h.nread]
  have hmem : (x.step i).dma.dmaMem
      = Function.update x.dma.dmaMem (BitVec.ofNat 10 a) (x.bus.answer i.iMwbAck i.iMwbData) := by
    rw [← hslot]
    rcases h.states with ⟨hs, -⟩ | ⟨hs, -⟩ <;> simp [DmaSystem.step, Wbdmac.step, hs]
  rw [hmem]
  rcases Nat.lt_or_ge j a with hlt | hge
  · have hne : BitVec.ofNat 10 j ≠ BitVec.ofNat 10 a := by
      intro heq
      have := congrArg BitVec.toNat heq
      simp only [BitVec.toNat_ofNat] at this
      omega
    rw [Function.update_of_ne hne, h.stored j hlt]
  · have hnow : i.iMwbAck = true ∧ j = a := by
      unfold acks at hj
      split at hj
      · constructor
        · assumption
        · omega
      · omega
    obtain ⟨hnow, rfl⟩ := hnow
    rw [Function.update_self, h.answer hnow (hack hnow)]

/-- The memory behind the bus is only read. -/
theorem Reading.step_mem (h : Reading t x o M r a) :
  (x.step i).bus.mem = M
  := by
  rcases h.states with ⟨hs, -⟩ | ⟨hs, -⟩ <;>
    simp [DmaSystem.step, Slave.step, DmaSystem.request, Wbdmac.oMwbStb, Wbdmac.oMwbWe, hs, h.mem]

theorem Reading.step_pending (h : Reading t x o M r a) (hack : i.iMwbAck = true → a < r) :
  (x.step i).bus.pending = window (t.word o M) (acks a i) (requests (t.block o) r i)
  := by
  have hcyc : x.dma.oMwbCyc = true := by
    rcases h.states with ⟨hs, -⟩ | ⟨hs, -⟩ <;> simp [Wbdmac.oMwbCyc, hs]
  have htail : (if i.iMwbAck then x.bus.pending.tail else x.bus.pending)
      = window (t.word o M) (acks a i) r := by
    cases hnow : i.iMwbAck with
    | true => simp [h.pending, window_cons _ (hack hnow), acks, hnow]
    | false => simp [h.pending, acks, hnow]
  have hle : acks a i ≤ r := acks_le h.acked hack
  have hword : x.bus.mem x.dma.oMwbAddr = t.word o M r := by rw [h.mem, h.addr, word]
  have hstep : (x.step i).bus.pending = window (t.word o M) (acks a i) r
      ++ (if x.dma.oMwbStb && !i.iMwbStall then [t.word o M r] else []) := by
    simp only [DmaSystem.step, Slave.step, DmaSystem.request, hcyc, if_true, htail, hword]
  rw [hstep]
  rcases h.states with ⟨hs, hlt⟩ | ⟨hs, rfl⟩
  · cases hstall : i.iMwbStall with
    | true => simp [requests, hstall]
    | false => simp [requests, hstall, hlt, Wbdmac.oMwbStb, hs, window_snoc _ hle]
  · simp [requests, Wbdmac.oMwbStb, hs]

/-- The block is read as long as not all of it is acknowledged; whether it is, the
controller is to know from `last_read_ack`. -/
theorem Reading.step_state (h : Reading t x o M r a) (hi : i.Quiet)
    (hack : i.iMwbAck = true → a < r)
    (hright : i.iMwbAck = true → (x.dma.lastReadAck = true ↔ a + 1 = t.block o)) :
  (x.step i).dma.dmaState
    = if acks a i = t.block o then .preWrite
      else if requests (t.block o) r i < t.block o then .readReq
      else .readAck
  := by
  have hmore := h.more
  have hnext : (x.step i).dma.dmaState
      = x.dma.nextState { i with iMwbData := x.bus.answer i.iMwbAck i.iMwbData } := by
    simp [DmaSystem.step, Wbdmac.step, hi.iReset]
  rw [hnext]
  rcases h.states with ⟨hs, hlt⟩ | ⟨hs, rfl⟩
  · -- Not all of the block has been asked for, so nothing that is acknowledged is the last.
    have hnot : (i.iMwbAck && x.dma.lastReadAck) = false := by
      rw [Bool.and_eq_false_imp]
      intro hnow
      rw [Bool.eq_false_iff]
      intro hflag
      have := (hright hnow).mp hflag
      have := hack hnow
      omega
    have hne : acks a i ≠ t.block o := by
      have := acks_le h.acked hack
      omega
    rw [if_neg hne]
    have hlast := h.last hlt
    cases hstall : i.iMwbStall with
    | true => simp [Wbdmac.nextState, hs, hi.iMwbErr, h.abort, hnot, hstall, requests, hlt]
    | false =>
        simp [Wbdmac.nextState, hs, hi.iMwbErr, h.abort, hnot, hstall, requests, hlt, hlast,
          h.userHalt]
        grind
  · rw [requests_self, if_neg (Nat.lt_irrefl (t.block o))]
    cases hnow : i.iMwbAck with
    | true =>
        have hflag := hright hnow
        simp [Wbdmac.nextState, hs, hi.iMwbErr, h.abort, h.userHalt, hnow, acks, hflag]
    | false =>
        have hne : a ≠ t.block o := by omega
        simp [Wbdmac.nextState, hs, hi.iMwbErr, h.abort, hnow, acks, hne]

theorem Reading.step_last (h : Reading t x o M r a) (hi : i.Quiet)
    (hlt : requests (t.block o) r i < t.block o) :
  (x.step i).dma.lastReadRequest = decide (requests (t.block o) r i + 1 = t.block o)
  := by
  have hr := h.nracks
  rcases h.states with ⟨hs, hr'⟩ | ⟨hs, rfl⟩
  · cases hstall : i.iMwbStall with
    | true =>
        have hrequested := h.toBusy.requested h.len (c := 0) (by decide) (by omega)
        simpa [DmaSystem.step, Wbdmac.step, Wbdmac.nextLastReadRequest, hi.iReset, hs, hstall,
          requests, hr] using hrequested
    | false =>
        have hsucc : r + 1 < t.block o := by simpa [requests, hr', hstall] using hlt
        have hrequested := h.toBusy.requested h.len (c := 1) (by decide) (by omega)
        simpa [DmaSystem.step, Wbdmac.step, Wbdmac.nextLastReadRequest, hi.iReset, hs, hstall,
          requests, hr, hr'] using hrequested
  · simp [requests] at hlt

/-- One clock of the reading of a block. -/
theorem Reading.step (h : Reading t x o M r a) (hi : i.Quiet) (hack : i.iMwbAck = true → a < r)
    (hright : i.iMwbAck = true → (x.dma.lastReadAck = true ↔ a + 1 = t.block o)) :
  (acks a i = t.block o → Filled t (x.step i) o M)
    ∧ (acks a i < t.block o → Reading t (x.step i) o M (requests (t.block o) r i) (acks a i))
  := by
  have hstate := h.step_state hi hack hright
  have hwaddr : (x.step i).dma.cfgWaddr = t.dst o := by
    rcases h.states with ⟨hs, -⟩ | ⟨hs, -⟩ <;>
      simp [DmaSystem.step, Wbdmac.step, Wbdmac.nextWaddr, hi.iReset, hs, h.waddr]
  have hlen : (x.step i).dma.cfgLen.toNat = t.len - o := by
    rcases h.states with ⟨hs, -⟩ | ⟨hs, -⟩ <;>
      simp [DmaSystem.step, Wbdmac.step, Wbdmac.config, Wbdmac.oMwbWe, hi.iReset, hs, h.len]
  have hnonzero : (x.step i).dma.cfgLenNonzero = true := by
    rcases h.states with ⟨hs, -⟩ | ⟨hs, -⟩ <;>
      simp [DmaSystem.step, Wbdmac.step, Wbdmac.config, Wbdmac.oMwbWe, hi.iReset, hs, h.nonzero]
  have hrdaddr : (x.step i).dma.rdaddr = 0 := by
    rcases h.states with ⟨hs, -⟩ | ⟨hs, -⟩ <;>
      simp [DmaSystem.step, Wbdmac.step, Wbdmac.between, hi.iReset, hs, h.rdaddr]
  obtain ⟨hrequests, hgrows⟩ := requests_le h.accepted (i := i)
  have hle : acks a i ≤ requests (t.block o) r i := (acks_le h.acked hack).trans hgrows
  constructor
  · intro hall
    rw [if_pos hall] at hstate
    constructor
    · apply h.busy_step hi
    · apply hstate
    · rw [h.step_nread hi, hall]
    · rw [h.step_raddr hi, hall]
    · apply hwaddr
    · apply hlen
    · apply hnonzero
    · apply hrdaddr
    · apply h.step_mem
    · have hfull : requests (t.block o) r i = t.block o := by omega
      rw [h.step_pending hack, hall, hfull, window_self]
    · intro j hj
      apply h.step_stored hack (by omega)
  · intro hmore
    rw [if_neg (Nat.ne_of_lt hmore)] at hstate
    constructor
    · apply h.busy_step hi
    · apply hstate
    · apply hrequests
    · apply hle
    · apply hmore
    · apply h.step_nracks hi
    · apply h.step_nread hi
    · apply h.step_raddr hi
    · apply hwaddr
    · apply hlen
    · apply hnonzero
    · apply h.step_addr hi
    · apply h.step_last hi
    · apply hrdaddr
    · apply h.step_mem
    · apply h.step_pending hack
    · intro j hj
      apply h.step_stored hack hj

end ReadingStep

end Transfer

end ZBasic
