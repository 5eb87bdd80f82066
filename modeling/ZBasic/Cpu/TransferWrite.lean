import ZBasic.Cpu.Transfer

/-!
# Writing a block

While a block is written its words go from the memory of the controller to the bus. The
end of the block is the end of the transfer, or the start of the next block.
-/

namespace ZBasic

open Clocked Wishbone

namespace Transfer

variable {aw : ℕ} {t : Transfer aw} {x : DmaSystem aw} {i : Wbdmac.Input} {o : ℕ}
  {M : BitVec aw → BitVec 32}

/-! ### Turning round -/

theorem Filled.step (h : Filled t x o M) (hi : i.Quiet) :
  Writing t (x.step i) o M 0 0
  := by
  have hs := h.dmaState
  have hpos := t.block_pos h.left
  have hcyc : x.dma.oMwbCyc = false := by simp [Wbdmac.oMwbCyc, hs]
  constructor
  · apply h.toBusy.keep hi <;> simp [hs]
  · rw [if_pos hpos]
    simp [DmaSystem.step, Wbdmac.step, Wbdmac.nextState, hi.iReset, hs, h.abort]
  · apply Nat.zero_le
  · apply Nat.le_refl
  · apply hpos
  · simp [DmaSystem.step, Wbdmac.step, Wbdmac.between, Wbdmac.oMwbWe, hi.iReset, hs, h.nread]
  · simp [DmaSystem.step, Wbdmac.step, hi.iReset, hcyc]
  · simp [DmaSystem.step, Wbdmac.step, hi.iReset, hcyc]
  · simp [DmaSystem.step, Wbdmac.step, Wbdmac.nextRaddr, hi.iReset, hs, h.raddr]
  · simp [DmaSystem.step, Wbdmac.step, Wbdmac.nextWaddr, hi.iReset, hs, h.waddr]
  · simp [DmaSystem.step, Wbdmac.step, Wbdmac.config, hi.iReset, hs, hcyc, h.len]
  · simp [DmaSystem.step, Wbdmac.step, Wbdmac.config, hi.iReset, hs, hcyc, h.nonzero]
  · simp [DmaSystem.step, Wbdmac.step, Wbdmac.nextAddr, hi.iReset, hs, h.waddr]
  · intro _
    have hfirst : x.dma.dmaMem 0 = t.word o M 0 := h.stored 0 hpos
    simpa [DmaSystem.step, Wbdmac.step, hi.iReset, hs, h.rdaddr] using hfirst
  · intro _
    simp [DmaSystem.step, Wbdmac.step, Wbdmac.between, hi.iReset, hs, h.rdaddr]
  · intro _
    have hone : decide (x.dma.nread ≤ 1) = decide (0 + 1 = t.block o) := by
      rw [decide_eq_decide, BitVec.le_def, h.nread]
      simp
      omega
    simpa [DmaSystem.step, Wbdmac.step, Wbdmac.nextLastWriteRequest, hi.iReset, hs] using hone
  · simp [DmaSystem.step, Slave.step, DmaSystem.request, Wbdmac.oMwbStb, hs, h.mem, written,
      Memory.writes]
  · simp [DmaSystem.step, Slave.step, DmaSystem.request, hcyc]
  · simpa [DmaSystem.step, Wbdmac.step, hs] using h.stored

/-! ### Writing a block -/

section WritingStep

variable {w a : ℕ}

theorem Writing.states (h : Writing t x o M w a) :
  (x.dma.dmaState = .writeReq ∧ w < t.block o) ∨ (x.dma.dmaState = .writeAck ∧ w = t.block o)
  := by
  have hs := h.dmaState
  have hle := h.accepted
  split at hs
  · left
    constructor <;> assumption
  · right
    apply And.intro hs
    omega

theorem Writing.step_nwritten (h : Writing t x o M w a) (hi : i.Quiet) :
  (x.step i).dma.nwritten.toNat = requests (t.block o) w i
  := by
  have hblk := h.toBusy.blk_lt
  have hblock := t.block_le o
  have hw := h.nwritten
  rcases h.states with ⟨hs, hlt⟩ | ⟨hs, rfl⟩
  · cases hstall : i.iMwbStall with
    | true =>
        simp [DmaSystem.step, Wbdmac.step, Wbdmac.oMwbCyc, Wbdmac.oMwbWe, hi.iReset, hs, hstall,
          requests, hw]
    | false =>
        simp [DmaSystem.step, Wbdmac.step, Wbdmac.oMwbCyc, Wbdmac.oMwbStb, Wbdmac.oMwbWe, hi.iReset,
          hs, hstall, requests, hlt]
        omega
  · simp [DmaSystem.step, Wbdmac.step, Wbdmac.oMwbCyc, Wbdmac.oMwbStb, Wbdmac.oMwbWe, hi.iReset, hs,
      hw]

theorem Writing.step_nwacks (h : Writing t x o M w a) (hi : i.Quiet) :
  (x.step i).dma.nwacks.toNat = acks a i
  := by
  have hblk := h.toBusy.blk_lt
  have hblock := t.block_le o
  have ha := h.nwacks
  have hmore := h.more
  cases hack : i.iMwbAck with
  | true =>
      rcases h.states with ⟨hs, -⟩ | ⟨hs, -⟩ <;>
        simp [DmaSystem.step, Wbdmac.step, Wbdmac.oMwbCyc, Wbdmac.oMwbWe, hi.iReset, hs, hack,
          acks] <;> omega
  | false =>
      rcases h.states with ⟨hs, -⟩ | ⟨hs, -⟩ <;>
        simp [DmaSystem.step, Wbdmac.step, Wbdmac.oMwbCyc, Wbdmac.oMwbWe, hi.iReset, hs, hack, acks,
          ha]

theorem Writing.step_waddr (h : Writing t x o M w a) (hi : i.Quiet) :
  (x.step i).dma.cfgWaddr = t.dst (o + requests (t.block o) w i)
    ∧ (x.step i).dma.oMwbAddr = t.dst (o + requests (t.block o) w i)
  := by
  have hwaddr := h.waddr
  have haddr := h.addr
  have hnext : t.dst (o + (w + 1)) = if t.incd then t.dst (o + w) + 1 else t.dst (o + w) :=
    place_succ _ _ _
  rcases h.states with ⟨hs, hlt⟩ | ⟨hs, rfl⟩
  · cases hstall : i.iMwbStall <;>
      simp [DmaSystem.step, Wbdmac.step, Wbdmac.nextWaddr, Wbdmac.nextAddr, hi.iReset, hs, hstall,
        requests, hlt, h.incd, hwaddr, haddr, hnext]
  · simp [DmaSystem.step, Wbdmac.step, Wbdmac.nextWaddr, Wbdmac.nextAddr, hi.iReset, hs, hwaddr,
      haddr]

/-- The word on the data lines is the next one of the block, and the one after it is being
fetched. -/
theorem Writing.step_data (h : Writing t x o M w a) (hi : i.Quiet)
    (hlt : requests (t.block o) w i < t.block o) :
  (x.step i).dma.oMwbData = t.word o M (requests (t.block o) w i)
    ∧ (x.step i).dma.rdaddr = BitVec.ofNat 10 (requests (t.block o) w i + 1)
  := by
  rcases h.states with ⟨hs, hw⟩ | ⟨hs, rfl⟩
  · cases hstall : i.iMwbStall with
    | true =>
        simp [DmaSystem.step, Wbdmac.step, Wbdmac.between, hi.iReset, hs, hstall, requests,
          h.data hw, h.rdaddr hw]
    | false =>
        have hsucc : w + 1 < t.block o := by simpa [requests, hw, hstall] using hlt
        have hfetched := h.stored (w + 1) hsucc
        constructor
        · simp [DmaSystem.step, Wbdmac.step, hi.iReset, hs, hstall, requests, hw, h.rdaddr hw,
            hfetched]
        · simp [DmaSystem.step, Wbdmac.step, Wbdmac.between, hi.iReset, hs, hstall, requests, hw,
            h.rdaddr hw, BitVec.ofNat_add]
  · simp at hlt

theorem Writing.step_last (h : Writing t x o M w a) (hi : i.Quiet)
    (hlt : requests (t.block o) w i < t.block o) :
  (x.step i).dma.lastWriteRequest = decide (requests (t.block o) w i + 1 = t.block o)
  := by
  have hn := h.nread
  have hw := h.nwritten
  have hblk := h.toBusy.blk_lt
  have hblock := t.block_le o
  rcases h.states with ⟨hs, hw'⟩ | ⟨hs, rfl⟩
  · cases hstall : i.iMwbStall with
    | true =>
        simp [DmaSystem.step, Wbdmac.step, Wbdmac.nextLastWriteRequest, hi.iReset, hs, hstall,
          requests]
        bv_omega
    | false =>
        have hsucc : w + 1 < t.block o := by simpa [requests, hw', hstall] using hlt
        simp [DmaSystem.step, Wbdmac.step, Wbdmac.nextLastWriteRequest, hi.iReset, hs, hstall,
          requests, hw']
        bv_omega
  · simp at hlt

/-- What is written is the block, word for word. -/
theorem Writing.step_mem (h : Writing t x o M w a) :
  (x.step i).bus.mem = t.written o M (requests (t.block o) w i)
  := by
  rcases h.states with ⟨hs, hlt⟩ | ⟨hs, rfl⟩
  · cases hstall : i.iMwbStall <;>
      simp [DmaSystem.step, Slave.step, DmaSystem.request, Wbdmac.oMwbStb, Wbdmac.oMwbWe, hs,
        hstall, requests, hlt, h.mem, h.addr, h.data hlt, written, Memory.writes]
  · simp [DmaSystem.step, Slave.step, DmaSystem.request, Wbdmac.oMwbStb, hs, h.mem]

theorem Writing.step_pending (h : Writing t x o M w a) (hack : i.iMwbAck = true → a < w) :
  (x.step i).bus.pending.length = requests (t.block o) w i - acks a i
  := by
  have hlen := h.pending
  have hacked := h.acked
  rcases h.states with ⟨hs, hlt⟩ | ⟨hs, rfl⟩
  · cases hstall : i.iMwbStall with
    | true =>
        cases hnow : i.iMwbAck <;>
          simp [DmaSystem.step, Slave.step, DmaSystem.request, Wbdmac.oMwbCyc, hs, hstall, hnow,
            requests, acks, hlen]
        omega
    | false =>
        cases hnow : i.iMwbAck with
        | true =>
            have := hack hnow
            simp [DmaSystem.step, Slave.step, DmaSystem.request, Wbdmac.oMwbCyc, Wbdmac.oMwbStb, hs,
              hstall, hnow, requests, acks, hlt, hlen]
            omega
        | false =>
            simp [DmaSystem.step, Slave.step, DmaSystem.request, Wbdmac.oMwbCyc, Wbdmac.oMwbStb, hs,
              hstall, hnow, requests, acks, hlt, hlen]
            omega
  · cases hnow : i.iMwbAck <;>
      simp [DmaSystem.step, Slave.step, DmaSystem.request, Wbdmac.oMwbCyc, Wbdmac.oMwbStb, hs,
        hnow, acks, hlen]
    omega

theorem Writing.left_pos (h : Writing t x o M w a) :
  1 ≤ x.dma.cfgLen.toNat
  := by
  have hmore := h.more
  have hblock := t.block_le o
  rw [h.len]
  omega

theorem toNat_one_of_pos (v : BitVec aw) (h : 1 ≤ v.toNat) :
  (BitVec.ofNat aw 1).toNat = 1
  := by
  have := v.isLt
  rw [BitVec.toNat_ofNat, Nat.mod_eq_of_lt (by omega)]

theorem Writing.len_eq_one (h : Writing t x o M w a) :
  x.dma.cfgLen = 1 ↔ t.len - o - a = 1
  := by
  change x.dma.cfgLen = BitVec.ofNat aw 1 ↔ _
  rw [← BitVec.toNat_inj, toNat_one_of_pos _ h.left_pos, h.len]

theorem Writing.step_len (h : Writing t x o M w a) (hi : i.Quiet) :
  (x.step i).dma.cfgLen.toNat = t.len - o - acks a i
    ∧ (x.step i).dma.cfgLenNonzero = decide (i.iMwbAck = true → t.len - o - a ≠ 1)
  := by
  have hpos := h.left_pos
  have hone := toNat_one_of_pos _ hpos
  have hlen := h.len
  have hle : BitVec.ofNat aw 1 ≤ x.dma.cfgLen := by
    rw [BitVec.le_def, hone]
    apply hpos
  have hgt : decide (BitVec.ofNat aw 1 < x.dma.cfgLen) = decide (t.len - o - a ≠ 1) := by
    rw [decide_eq_decide, BitVec.lt_def, hone, hlen]
    omega
  cases hnow : i.iMwbAck <;> rcases h.states with ⟨hs, -⟩ | ⟨hs, -⟩ <;>
    simp [DmaSystem.step, Wbdmac.step, Wbdmac.config, Wbdmac.oMwbCyc, Wbdmac.oMwbWe, hi.iReset, hs,
      hnow, acks, h.nonzero, hlen, hgt, BitVec.toNat_sub_of_le hle, hone] <;> omega

/-- The block is written as long as not all of it is acknowledged; whether it is, the
controller is to know from `last_write_ack`. -/
theorem Writing.step_state (h : Writing t x o M w a) (hi : i.Quiet)
    (hack : i.iMwbAck = true → a < w)
    (hright : i.iMwbAck = true → (x.dma.lastWriteAck = true ↔ a + 1 = t.block o)) :
  (x.step i).dma.dmaState
    = if acks a i = t.block o then (if o + t.block o = t.len then .idle else .wait)
      else if requests (t.block o) w i < t.block o then .writeReq
      else .writeAck
  := by
  have hmore := h.more
  have hblock := t.block_le o
  have hpos := h.left_pos
  have hnext : (x.step i).dma.dmaState
      = x.dma.nextState { i with iMwbData := x.bus.answer i.iMwbAck i.iMwbData } := by
    simp [DmaSystem.step, Wbdmac.step, hi.iReset]
  rw [hnext]
  rcases h.states with ⟨hs, hlt⟩ | ⟨hs, rfl⟩
  · -- Not all of the block has been asked for, so nothing that is acknowledged is the last.
    have hnot : (i.iMwbAck && x.dma.lastWriteAck) = false := by
      rw [Bool.and_eq_false_imp]
      intro hnow
      rw [Bool.eq_false_iff]
      intro hflag
      have := (hright hnow).mp hflag
      have := hack hnow
      omega
    have hne : acks a i ≠ t.block o := by
      have := acks_le h.acked hack
      omega
    rw [if_neg hne]
    have hlast := h.last hlt
    cases hstall : i.iMwbStall with
    | true => simp [Wbdmac.nextState, hs, hi.iMwbErr, h.abort, hnot, hstall, requests, hlt, h.nonzero]
    | false =>
        simp [Wbdmac.nextState, hs, hi.iMwbErr, h.abort, hnot, hstall, requests, hlt, hlast,
          h.nonzero]
        grind
  · rw [requests_self, if_neg (Nat.lt_irrefl (t.block o))]
    have hend : x.dma.cfgLen ≤ BitVec.ofNat aw 1 ↔ t.len - o - a ≤ 1 := by
      rw [BitVec.le_def, toNat_one_of_pos _ hpos, h.len]
    cases hnow : i.iMwbAck with
    | true =>
        have hflag := hright hnow
        simp [Wbdmac.nextState, hs, hi.iMwbErr, h.abort, hnow, acks, hflag, h.nonzero, hend]
        grind
    | false =>
        have hne : a ≠ t.block o := by omega
        simp [Wbdmac.nextState, hs, hi.iMwbErr, h.abort, hnow, acks, hne, h.nonzero]

/-- The configuration and the block stay as they are while the block is written. -/
theorem Writing.step_kept (h : Writing t x o M w a) (hi : i.Quiet) :
  (x.step i).dma.nread.toNat = t.block o
    ∧ (x.step i).dma.cfgRaddr = t.src (o + t.block o)
    ∧ (x.step i).dma.dmaMem = x.dma.dmaMem
  := by
  refine ⟨?_, ?_, ?_⟩ <;> rcases h.states with ⟨hs, -⟩ | ⟨hs, -⟩ <;>
    simp [DmaSystem.step, Wbdmac.step, Wbdmac.between, Wbdmac.oMwbWe, Wbdmac.nextRaddr, hi.iReset,
      hs, h.nread, h.raddr]

/-- One clock of the writing of a block that does not end it. -/
theorem Writing.step_more (h : Writing t x o M w a) (hi : i.Quiet)
    (hack : i.iMwbAck = true → a < w)
    (hright : i.iMwbAck = true → (x.dma.lastWriteAck = true ↔ a + 1 = t.block o))
    (hmore : acks a i < t.block o) :
  Writing t (x.step i) o M (requests (t.block o) w i) (acks a i)
  := by
  have hblock := t.block_le o
  have hstate := h.step_state hi hack hright
  rw [if_neg (Nat.ne_of_lt hmore)] at hstate
  obtain ⟨hrequests, hgrows⟩ := requests_le h.accepted (i := i)
  obtain ⟨hnread, hraddr, hmem⟩ := h.step_kept hi
  obtain ⟨hwaddr, haddr⟩ := h.step_waddr hi
  obtain ⟨hlen, hnonzero⟩ := h.step_len hi
  constructor
  · apply h.toBusy.keep hi
    · rcases h.states with ⟨hs, -⟩ | ⟨hs, -⟩ <;> simp [hs]
    · rintro ⟨-, hnow, -⟩
      simp only [acks, hnow, if_true] at hmore
      rw [ne_eq, h.len_eq_one]
      omega
  · apply hstate
  · apply hrequests
  · apply (acks_le h.acked hack).trans hgrows
  · apply hmore
  · apply hnread
  · apply h.step_nwritten hi
  · apply h.step_nwacks hi
  · apply hraddr
  · apply hwaddr
  · apply hlen
  · rw [hnonzero, decide_eq_true_eq]
    intro hnow
    simp only [acks, hnow, if_true] at hmore
    omega
  · apply haddr
  · intro hlt
    apply (h.step_data hi hlt).1
  · intro hlt
    apply (h.step_data hi hlt).2
  · apply h.step_last hi
  · apply h.step_mem
  · apply h.step_pending hack
  · rw [hmem]
    apply h.stored

/-- When all of a block is acknowledged, it was the last write that was. -/
theorem Writing.all_acked (h : Writing t x o M w a) (hack : i.iMwbAck = true → a < w)
    (hall : acks a i = t.block o) :
  i.iMwbAck = true ∧ a + 1 = t.block o ∧ w = t.block o
  := by
  have hmore := h.more
  have haccepted := h.accepted
  unfold acks at hall
  split at hall
  · rename_i hnow
    have := hack hnow
    refine ⟨hnow, hall, ?_⟩
    omega
  · omega

/-- What is left after a block is what was left before it, less the block. -/
theorem Busy.rest_block (h : Busy t x o M) :
  Memory.copy t.blk t.src t.dst (t.written o M (t.block o)) (o + t.block o)
    (t.len - (o + t.block o)) = t.copied
  := by
  have hleft := h.left
  rw [← h.rest, Memory.copy_pos _ _ _ M o (by omega), ← Nat.sub_sub]
  rfl

/-- The clock that ends a block, and does not end the transfer. -/
theorem Writing.step_block (h : Writing t x o M w a) (hi : i.Quiet)
    (hack : i.iMwbAck = true → a < w)
    (hright : i.iMwbAck = true → (x.dma.lastWriteAck = true ↔ a + 1 = t.block o))
    (hall : acks a i = t.block o) (hmore : o + t.block o < t.len) :
  Waiting t (x.step i) (o + t.block o) (t.written o M (t.block o))
  := by
  obtain ⟨hnow, hlast, rfl⟩ := h.all_acked hack hall
  have hstate := h.step_state hi hack hright
  rw [if_pos hall, if_neg (Nat.ne_of_lt hmore)] at hstate
  have hs : x.dma.dmaState = .writeAck := by
    have := h.dmaState
    rwa [if_neg (Nat.lt_irrefl _)] at this
  have hbusy : Busy t (x.step i) o M := by
    apply h.toBusy.keep hi
    · simp [hs]
    · intro _
      rw [ne_eq, h.len_eq_one]
      omega
  obtain ⟨-, hraddr, -⟩ := h.step_kept hi
  obtain ⟨hwaddr, -⟩ := h.step_waddr hi
  obtain ⟨hlen, hnonzero⟩ := h.step_len hi
  have hmem := h.step_mem (i := i)
  have hpending := h.step_pending hack
  rw [requests_self] at hwaddr hmem hpending
  constructor
  · exact { hbusy with left := hmore, rest := h.toBusy.rest_block }
  · apply hstate
  · apply hraddr
  · apply hwaddr
  · rw [hlen, hall]
    omega
  · rw [hnonzero, decide_eq_true_eq]
    intro _
    omega
  · apply hmem
  · rw [← List.length_eq_zero_iff, hpending, hall, Nat.sub_self]
  · intro htrigger
    simp [DmaSystem.step, Wbdmac.step, hi.iReset, hs] at htrigger

/-- The clock that ends the transfer. -/
theorem Writing.step_end (h : Writing t x o M w a) (hi : i.Quiet)
    (hack : i.iMwbAck = true → a < w)
    (hright : i.iMwbAck = true → (x.dma.lastWriteAck = true ↔ a + 1 = t.block o))
    (hall : acks a i = t.block o) (hend : o + t.block o = t.len) :
  Finished t (x.step i) ∧ (x.step i).dma.oInterrupt = true
  := by
  obtain ⟨hnow, hlast, rfl⟩ := h.all_acked hack hall
  have hstate := h.step_state hi hack hright
  rw [if_pos hall, if_pos hend] at hstate
  have hs : x.dma.dmaState = .writeAck := by
    have := h.dmaState
    rwa [if_neg (Nat.lt_irrefl _)] at this
  have hone : x.dma.cfgLen = 1 := by
    rw [h.len_eq_one]
    omega
  have hmem := h.step_mem (i := i)
  rw [requests_self] at hmem
  constructor
  · constructor
    · simpa [DmaSystem.step, Wbdmac.step, hi.iReset] using hi.noWrite
    · apply hstate
    · obtain ⟨hlen, -⟩ := h.step_len hi
      apply BitVec.eq_of_toNat_eq
      change _ = (BitVec.ofNat aw 0).toNat
      rw [hlen, hall, BitVec.toNat_zero]
      omega
    · have hrest := h.toBusy.rest_block
      rw [hend, Nat.sub_self, Memory.copy_zero] at hrest
      rw [hmem, hrest]
  · have hflag : x.dma.lastWriteAck = true := (hright hnow).mpr hlast
    simp [DmaSystem.step, Wbdmac.step, hi.iReset, hs, hnow, hflag, hone]

end WritingStep

/-! ### After the transfer -/

/-- A finished transfer stays finished, and its interrupt is not raised again. -/
theorem Finished.step (h : Finished t x) (hi : i.Quiet) :
  Finished t (x.step i) ∧ (x.step i).dma.oInterrupt = false
  := by
  have hcmd : ∀ a, x.dma.command a = false := by
    intro a
    rw [Wbdmac.command, h.noCommand, Bool.false_and]
  have hs := h.dmaState
  constructor
  · constructor
    · simpa [DmaSystem.step, Wbdmac.step, hi.iReset] using hi.noWrite
    · simp [DmaSystem.step, Wbdmac.step, Wbdmac.nextState, hi.iReset, hs, hcmd]
    · simp [DmaSystem.step, Wbdmac.step, Wbdmac.config, Wbdmac.oMwbCyc, hi.iReset, hs, hcmd, h.len]
    · simp [DmaSystem.step, Slave.step, DmaSystem.request, Wbdmac.oMwbStb, hs, h.mem]
  · simp [DmaSystem.step, Wbdmac.step, hi.iReset, hs]

end Transfer

end ZBasic
