import Mathlib.Tactic.MkIffOfInductiveProp
import ZBasic.Cpu.TransferRead
import ZBasic.Cpu.TransferWrite

/-!
# The whole transfer

The controller goes on to the next phase when `last_read_ack` or `last_write_ack` is set at
an acknowledgement. These flags are computed one clock ahead. Where what they miss does not
happen, every transfer ends, and has copied what it was to copy.
-/

namespace ZBasic

open Clocked Wishbone

variable {aw : ℕ}

/-- What the flags computed ahead miss does not happen: `s` and `i` are the registers and
the inputs of a clock, `s'` and `i'` those of the next one. -/
@[mk_iff]
structure Wbdmac.Timely (s s' : Wbdmac aw) (i i' : Wbdmac.Input) : Prop where
  read : s.dmaState = .readReq → s'.dmaState = .readAck → i'.iMwbAck = true →
    s.nread = s.blocklenSubOne ∨ s'.nread.toNat + 1 ≠ s'.nracks.toNat
  write : s'.dmaState = .writeReq ∨ s'.dmaState = .writeAck → i'.iMwbAck = true →
    if s.dmaState = .writeReq ∧ i.iMwbStall = false ∧ i.iMwbAck = false then
      s'.nwritten.toNat ≠ s'.nwacks.toNat + 2 ∧ s'.nread.toNat ≠ s'.nwacks.toNat + 1
    else s'.nwritten.toNat = s'.nwacks.toNat + 1 → s'.nread.toNat = s'.nwacks.toNat + 1

instance (s s' : Wbdmac aw) (i i' : Wbdmac.Input) : Decidable (s.Timely s' i i') :=
  decidable_of_iff' _ (Wbdmac.timely_iff s s' i i')

namespace Transfer

variable {t : Transfer aw} {x : DmaSystem aw} {i i' : Wbdmac.Input} {o : ℕ}
  {M : BitVec aw → BitVec 32}

/-! ### The flags -/

theorem blocklenSubOne_toNat (h : Busy t x o M) :
  x.dma.blocklenSubOne.toNat = t.blk
  := by
  have hblk := h.blk_lt
  rw [Wbdmac.blocklenSubOne, BitVec.toNat_setWidth, h.blocklen, Nat.mod_eq_of_lt (by omega)]

/-- While requests of the block are still to be made, the flag is not set before all of
them but one are acknowledged. -/
theorem Reading.flag_readReq {r a : ℕ} (h : Reading t x o M r a) (hi : i.Quiet)
    (hs : x.dma.dmaState = .readReq) :
  (x.step i).dma.lastReadAck
    = decide ((if i.iMwbAck && i.iMwbStall then a + 1 else a) = t.blk)
  := by
  have hblk := h.toBusy.blk_lt
  have hblock := t.block_le o
  have hmore := h.more
  have ha := h.nread
  have hb := blocklenSubOne_toNat h.toBusy
  have hnow : x.dma.nread = x.dma.blocklenSubOne ↔ a = t.blk := by
    rw [← BitVec.toNat_inj, ha, hb]
  have hnext : x.dma.nextNread = x.dma.blocklenSubOne ↔ a + 1 = t.blk := by
    rw [← BitVec.toNat_inj, hb, Wbdmac.nextNread]
    bv_omega
  cases hack : i.iMwbAck && i.iMwbStall <;>
    simpa [DmaSystem.step, Wbdmac.step, Wbdmac.nextLastReadAck, Wbdmac.ackAlone, Wbdmac.oMwbStb,
      hi.iReset, hs, hack]

/-- Once all requests of the block are made, the flag is right. -/
theorem Reading.flag_readAck {r a : ℕ} (h : Reading t x o M r a) (hi : i.Quiet)
    (hs : x.dma.dmaState = .readAck) :
  (x.step i).dma.lastReadAck = decide (acks a i + 1 = r)
  := by
  have hblk := h.toBusy.blk_lt
  have hblock := t.block_le o
  have hmore := h.more
  have haccepted := h.accepted
  have ha := h.nread
  have hr := h.nracks
  have htwo : x.dma.nread.setWidth 32 + 2#32 = x.dma.nracks.setWidth 32 ↔ a + 1 + 1 = r := by
    bv_omega
  have hone : x.dma.nextNread = x.dma.nracks ↔ a + 1 = r := by
    rw [Wbdmac.nextNread]
    bv_omega
  cases hack : i.iMwbAck <;>
    simpa [DmaSystem.step, Wbdmac.step, Wbdmac.nextLastReadAck, Wbdmac.ackAlone, Wbdmac.oMwbStb,
      hi.iReset, hs, hack, acks]

/-- While a block is read, an acknowledgement finds `last_read_ack` set exactly if it is
the last of the block. -/
theorem Reading.flag {r a : ℕ} (h : Reading t x o M r a) (hi : i.Quiet)
    (hack : i.iMwbAck = true → a < r)
    (h' : Reading t (x.step i) o M (requests (t.block o) r i) (acks a i))
    (htimely : x.dma.Timely (x.step i).dma i i') (hnow : i'.iMwbAck = true)
    (hlt : acks a i < requests (t.block o) r i) :
  (x.step i).dma.lastReadAck = true ↔ acks a i + 1 = t.block o
  := by
  have hblock := t.block_le o
  have hgrows : a ≤ acks a i := by
    unfold acks
    split <;> omega
  rcases h.states with ⟨hs, hr⟩ | ⟨hs, rfl⟩
  · rw [h.flag_readReq hi hs, decide_eq_true_eq]
    have hsucc : i.iMwbAck = true → acks a i = a + 1 := by
      intro hyes
      simp [acks, hyes]
    rcases h'.states with ⟨hs', hr'⟩ | ⟨hs', hr'⟩
    · grind
    · have hread := htimely.read hs hs' hnow
      rw [← BitVec.toNat_inj, h.nread, blocklenSubOne_toNat h.toBusy, h'.nread, h'.nracks, hr']
        at hread
      have hstall : i.iMwbStall = false := by
        by_contra hstall
        rw [requests, if_neg (by simp [hstall])] at hr'
        omega
      have hall : r + 1 = t.block o := by
        rw [requests, if_pos ⟨hr, hstall⟩] at hr'
        apply hr'
      rw [hstall, Bool.and_false, if_neg Bool.false_ne_true]
      grind
  · rw [h.flag_readAck hi hs, decide_eq_true_eq]

/-- The flag is right at a clock after which nothing, or something acknowledged, was
accepted; otherwise it takes two outstanding writes for one. -/
theorem Writing.flag_step {w a : ℕ} (h : Writing t x o M w a) (hi : i.Quiet) :
  (x.step i).dma.lastWriteAck = true
    ↔ if x.dma.dmaState = .writeReq ∧ i.iMwbStall = false ∧ i.iMwbAck = false
      then requests (t.block o) w i = acks a i + 2
      else requests (t.block o) w i = acks a i + 1
  := by
  have hblk := h.toBusy.blk_lt
  have hblock := t.block_le o
  have haccepted := h.accepted
  have hmore := h.more
  have ha := h.nwacks
  have hw := h.nwritten
  have htwo : x.dma.nwacks.setWidth 32 + 2#32 = x.dma.nwritten.setWidth 32 ↔ w = a + 2 := by
    bv_omega
  have hone : x.dma.nwacks.setWidth 32 + 1#32 = x.dma.nwritten.setWidth 32 ↔ w = a + 1 := by
    bv_omega
  rcases h.states with ⟨hs, hlt⟩ | ⟨hs, rfl⟩
  · cases hstall : i.iMwbStall <;> cases hack : i.iMwbAck <;>
      simp [DmaSystem.step, Wbdmac.step, Wbdmac.nextLastWriteAck, Wbdmac.ackAlone, Wbdmac.oMwbStb,
        hi.iReset, hs, hstall, hack, htwo, hone, requests, acks, hlt]
  · cases hack : i.iMwbAck <;>
      simp [DmaSystem.step, Wbdmac.step, Wbdmac.nextLastWriteAck, Wbdmac.ackAlone, Wbdmac.oMwbStb,
        hi.iReset, hs, hack, htwo, hone, acks]

/-- While a block is written, an acknowledgement finds `last_write_ack` set exactly if it
is the last of the block. -/
theorem Writing.flag {w a : ℕ} (h : Writing t x o M w a) (hi : i.Quiet)
    (h' : Writing t (x.step i) o M (requests (t.block o) w i) (acks a i))
    (htimely : x.dma.Timely (x.step i).dma i i') (hnow : i'.iMwbAck = true)
    (hlt : acks a i < requests (t.block o) w i) :
  (x.step i).dma.lastWriteAck = true ↔ acks a i + 1 = t.block o
  := by
  have haccepted := h'.accepted
  have hstate : (x.step i).dma.dmaState = .writeReq ∨ (x.step i).dma.dmaState = .writeAck := by
    rcases h'.states with ⟨hs, -⟩ | ⟨hs, -⟩ <;> simp [hs]
  have hwrite := htimely.write hstate hnow
  rw [h'.nwritten, h'.nwacks, h'.nread] at hwrite
  rw [h.flag_step hi]
  by_cases hfresh : x.dma.dmaState = .writeReq ∧ i.iMwbStall = false ∧ i.iMwbAck = false
  · rw [if_pos hfresh] at hwrite ⊢
    omega
  · rw [if_neg hfresh] at hwrite ⊢
    omega

/-! ### At work -/

/-- The system is at work at a clock with the inputs `i`: `R` words have been asked for,
`W` words have been written out, and `k` bounds the work that is left. -/
inductive AtWork (t : Transfer aw) (x : DmaSystem aw) (i : Wbdmac.Input) :
    ℕ → ℕ → ℕ → Prop
  | waiting {o : ℕ} {M : BitVec aw → BitVec 32} : Waiting t x o M →
      AtWork t x i o o (8 * (t.len - o) + 3 + (if x.dma.trigger then 0 else 1))
  | reading {o : ℕ} {M : BitVec aw → BitVec 32} {r a : ℕ} : Reading t x o M r a →
      (i.iMwbAck = true → (x.dma.lastReadAck = true ↔ a + 1 = t.block o)) →
      AtWork t x i (o + r) o (8 * (t.len - o) + 2 - r - a)
  | filled {o : ℕ} {M : BitVec aw → BitVec 32} : Filled t x o M →
      AtWork t x i (o + t.block o) o (8 * (t.len - o) + 1 - 2 * t.block o)
  | writing {o : ℕ} {M : BitVec aw → BitVec 32} {w a : ℕ} : Writing t x o M w a →
      (i.iMwbAck = true → (x.dma.lastWriteAck = true ↔ a + 1 = t.block o)) →
      AtWork t x i (o + t.block o) (o + w) (8 * (t.len - o) - 2 * t.block o - w - a)

/-- The clocks at which work is done: a request is accepted, one is acknowledged, or the
controller goes on by itself. -/
def Moves (x : DmaSystem aw) (i : Wbdmac.Input) : Prop :=
  (x.dma.oMwbStb = true ∧ i.iMwbStall = false) ∨ i.iMwbAck = true
    ∨ x.dma.dmaState = .wait ∨ x.dma.dmaState = .preWrite

/-- Between the requests nothing is accepted. -/
theorem nothing_accepted (hs : x.dma.oMwbStb = false) (i : Wbdmac.Input) :
  x.readAt i = [] ∧ x.writtenAt i = []
  := by simp [DmaSystem.readAt, DmaSystem.writtenAt, hs]

theorem Reading.accepts {r a : ℕ} (h : Reading t x o M r a) (i : Wbdmac.Input) :
  x.readAt i = (if r < t.block o ∧ i.iMwbStall = false then [t.src (o + r)] else [])
    ∧ x.writtenAt i = []
  := by
  rcases h.states with ⟨hs, hlt⟩ | ⟨hs, rfl⟩
  · simp [DmaSystem.readAt, DmaSystem.writtenAt, Wbdmac.oMwbStb, Wbdmac.oMwbWe, hs, hlt, h.addr]
  · simp [DmaSystem.readAt, DmaSystem.writtenAt, Wbdmac.oMwbStb, hs]

theorem Writing.accepts {w a : ℕ} (h : Writing t x o M w a) (i : Wbdmac.Input) :
  x.writtenAt i = (if w < t.block o ∧ i.iMwbStall = false then [t.dst (o + w)] else [])
    ∧ x.readAt i = []
  := by
  rcases h.states with ⟨hs, hlt⟩ | ⟨hs, rfl⟩
  · simp [DmaSystem.readAt, DmaSystem.writtenAt, Wbdmac.oMwbStb, Wbdmac.oMwbWe, hs, hlt, h.addr]
  · simp [DmaSystem.readAt, DmaSystem.writtenAt, Wbdmac.oMwbStb, hs]

/-- What is accepted while the system is at work is the next word. -/
theorem AtWork.accepts {R W k : ℕ} (h : AtWork t x i R W k) :
  (x.readAt i = [] ∨ x.readAt i = [t.src R]) ∧ (x.writtenAt i = [] ∨ x.writtenAt i = [t.dst W])
  := by
  cases h with
  | waiting h =>
      have hs := h.dmaState
      simp [nothing_accepted, Wbdmac.oMwbStb, hs]
  | reading h =>
      obtain ⟨hread, hwrite⟩ := h.accepts i
      rw [hread, hwrite]
      split <;> simp
  | filled h =>
      have hs := h.dmaState
      simp [nothing_accepted, Wbdmac.oMwbStb, hs]
  | writing h =>
      obtain ⟨hwrite, hread⟩ := h.accepts i
      rw [hread, hwrite]
      split <;> simp

theorem AtWork.interrupt {R W k : ℕ} (h : AtWork t x i R W k) :
  x.dma.oInterrupt = false
  := by
  cases h with
  | waiting h => apply h.interrupt
  | reading h => apply h.interrupt
  | filled h => apply h.interrupt
  | writing h => apply h.interrupt

/-- While a block is read, requests and acknowledgements are what makes it move. -/
theorem Reading.moves_iff {r a : ℕ} (h : Reading t x o M r a) (i : Wbdmac.Input) :
  Moves x i ↔ requests (t.block o) r i + acks a i ≠ r + a
  := by
  rcases h.states with ⟨hs, hlt⟩ | ⟨hs, rfl⟩
  · cases hstall : i.iMwbStall <;> cases hack : i.iMwbAck <;>
      simp [Moves, Wbdmac.oMwbStb, requests, acks, hs, hlt, hstall, hack]
    omega
  · cases hack : i.iMwbAck <;> simp [Moves, Wbdmac.oMwbStb, acks, hs, hack]

theorem Writing.moves_iff {w a : ℕ} (h : Writing t x o M w a) (i : Wbdmac.Input) :
  Moves x i ↔ requests (t.block o) w i + acks a i ≠ w + a
  := by
  rcases h.states with ⟨hs, hlt⟩ | ⟨hs, rfl⟩
  · cases hstall : i.iMwbStall <;> cases hack : i.iMwbAck <;>
      simp [Moves, Wbdmac.oMwbStb, requests, acks, hs, hlt, hstall, hack]
    omega
  · cases hack : i.iMwbAck <;> simp [Moves, Wbdmac.oMwbStb, acks, hs, hack]

/-- The outcome of a clock: the system is at work with no more left to do, and less if it
moved, or the transfer has ended. -/
def Outcome (t : Transfer aw) (x : DmaSystem aw) (i i' : Wbdmac.Input) (R W k : ℕ) : Prop :=
  (∃ k' ≤ k, AtWork t (x.step i) i' (R + (x.readAt i).length) (W + (x.writtenAt i).length) k'
      ∧ (Moves x i → k' < k))
    ∨ (Finished t (x.step i) ∧ (x.step i).dma.oInterrupt = true
      ∧ R + (x.readAt i).length = t.len ∧ W + (x.writtenAt i).length = t.len)

theorem Waiting.outcome (h : Waiting t x o M) (hi : i.Quiet)
    (hearlier' : i'.iMwbAck = true → (x.step i).bus.pending ≠ []) :
  Outcome t x i i' o o (8 * (t.len - o) + 3 + (if x.dma.trigger then 0 else 1))
  := by
  left
  have hstb : x.dma.oMwbStb = false := by simp [Wbdmac.oMwbStb, h.dmaState]
  obtain ⟨hread, hwrite⟩ := nothing_accepted hstb i
  rw [hread, hwrite]
  cases htrigger : x.dma.trigger with
  | true =>
      have hnext := h.step_trigger hi htrigger
      refine ⟨_, ?_, .reading hnext ?_, ?_⟩
      · omega
      · intro hnow
        cases hearlier' hnow hnext.pending
      · simp
  | false =>
      obtain ⟨hnext, htrigger'⟩ := h.step_wait hi htrigger
      refine ⟨_, ?_, .waiting hnext, ?_⟩
      · rw [htrigger']
        simp
      · simp [htrigger']

theorem Reading.outcome {r a : ℕ} (h : Reading t x o M r a) (hi : i.Quiet)
    (hright : i.iMwbAck = true → (x.dma.lastReadAck = true ↔ a + 1 = t.block o))
    (hack : i.iMwbAck = true → a < r)
    (hearlier' : i'.iMwbAck = true → (x.step i).bus.pending ≠ [])
    (htimely : x.dma.Timely (x.step i).dma i i') :
  Outcome t x i i' (o + r) o (8 * (t.len - o) + 2 - r - a)
  := by
  left
  obtain ⟨hread, hwrite⟩ := h.accepts i
  have hblock := t.block_le o
  have haccepted := h.accepted
  have hmore := h.more
  have hacked := h.acked
  obtain ⟨hend, hgo⟩ := h.step hi hack hright
  obtain ⟨hle, hgrows⟩ := requests_le haccepted (i := i)
  have hcount : o + r + (x.readAt i).length = o + requests (t.block o) r i := by
    rw [hread, requests]
    split <;> simp [Nat.add_assoc]
  have hwritten : o + (x.writtenAt i).length = o := by rw [hwrite, List.length_nil, Nat.add_zero]
  rw [hcount, hwritten]
  rcases Nat.lt_or_ge (acks a i) (t.block o) with hlt | hge
  · have hnext := hgo hlt
    have hlt' : i'.iMwbAck = true → acks a i < requests (t.block o) r i := by
      intro hnow
      have hne := hearlier' hnow
      rw [hnext.pending, ← List.length_pos_iff, length_window] at hne
      omega
    refine ⟨_, ?_, .reading hnext (fun hnow => h.flag hi hack hnext htimely hnow (hlt' hnow)), ?_⟩
    · have := hnext.acked
      have : a ≤ acks a i := le_acks
      omega
    · rw [h.moves_iff]
      have : a ≤ acks a i := le_acks
      omega
  · have hfull : requests (t.block o) r i = t.block o := by
      have := acks_le hacked hack
      omega
    have hnext := hend (by have := acks_le hacked hack; omega)
    rw [hfull]
    refine ⟨_, ?_, .filled hnext, ?_⟩
    · have : acks a i ≤ a + 1 := acks_le_succ
      omega
    · intro _
      have : acks a i ≤ a + 1 := acks_le_succ
      omega

theorem Filled.outcome (h : Filled t x o M) (hi : i.Quiet)
    (hearlier' : i'.iMwbAck = true → (x.step i).bus.pending ≠ []) :
  Outcome t x i i' (o + t.block o) o (8 * (t.len - o) + 1 - 2 * t.block o)
  := by
  left
  have hstb : x.dma.oMwbStb = false := by simp [Wbdmac.oMwbStb, h.dmaState]
  obtain ⟨hread, hwrite⟩ := nothing_accepted hstb i
  have hblock := t.block_le o
  have hleft := h.left
  rw [hread, hwrite]
  have hnext := h.step hi
  refine ⟨_, ?_, .writing hnext ?_, ?_⟩
  · omega
  · intro hnow
    have hne := hearlier' hnow
    rw [← List.length_pos_iff, hnext.pending] at hne
    omega
  · intro _
    omega

theorem Writing.outcome {w a : ℕ} (h : Writing t x o M w a) (hi : i.Quiet)
    (hright : i.iMwbAck = true → (x.dma.lastWriteAck = true ↔ a + 1 = t.block o))
    (hack : i.iMwbAck = true → a < w)
    (hearlier' : i'.iMwbAck = true → (x.step i).bus.pending ≠ [])
    (htimely : x.dma.Timely (x.step i).dma i i') :
  Outcome t x i i' (o + t.block o) (o + w) (8 * (t.len - o) - 2 * t.block o - w - a)
  := by
  obtain ⟨hwrite, hread⟩ := h.accepts i
  have hblock := t.block_le o
  have haccepted := h.accepted
  have hmore := h.more
  have hacked := h.acked
  obtain ⟨hle, hgrows⟩ := requests_le haccepted (i := i)
  have hcount : o + w + (x.writtenAt i).length = o + requests (t.block o) w i := by
    rw [hwrite, requests]
    split <;> simp [Nat.add_assoc]
  unfold Outcome
  rw [hcount, hread, List.length_nil, Nat.add_zero]
  rcases Nat.lt_or_ge (acks a i) (t.block o) with hlt | hge
  · left
    have hnext := h.step_more hi hack hright hlt
    have hlt' : i'.iMwbAck = true → acks a i < requests (t.block o) w i := by
      intro hnow
      have hne := hearlier' hnow
      rw [← List.length_pos_iff, hnext.pending] at hne
      omega
    have hstay : a ≤ acks a i := le_acks
    refine ⟨_, ?_, .writing hnext (fun hnow => h.flag hi hnext htimely hnow (hlt' hnow)), ?_⟩
    · omega
    · rw [h.moves_iff]
      omega
  · have hall : acks a i = t.block o := by
      have := acks_le hacked hack
      omega
    obtain ⟨-, hlast, rfl⟩ := h.all_acked hack hall
    rw [requests_self]
    rcases Nat.lt_or_ge (o + t.block o) t.len with hlen | hlen
    · left
      have hnext := h.step_block hi hack hright hall hlen
      refine ⟨_, ?_, .waiting hnext, ?_⟩
      · split <;> omega
      · intro _
        split <;> omega
    · right
      have hleft := h.left
      have hend : o + t.block o = t.len := by omega
      obtain ⟨hfinished, hint⟩ := h.step_end hi hack hright hall hend
      apply And.intro hfinished (And.intro hint (And.intro hend hend))

/-- One clock of a system at work. -/
theorem AtWork.step {R W k : ℕ} (h : AtWork t x i R W k) (hi : i.Quiet)
    (hearlier : i.iMwbAck = true → x.bus.pending ≠ [])
    (hearlier' : i'.iMwbAck = true → (x.step i).bus.pending ≠ [])
    (htimely : x.dma.Timely (x.step i).dma i i') :
  Outcome t x i i' R W k
  := by
  cases h with
  | waiting h => apply h.outcome hi hearlier'
  | reading h hright =>
      apply h.outcome hi hright _ hearlier' htimely
      intro hnow
      have hne := hearlier hnow
      rw [h.pending, ← List.length_pos_iff, length_window] at hne
      omega
  | filled h => apply h.outcome hi hearlier'
  | writing h hright =>
      apply h.outcome hi hright _ hearlier' htimely
      intro hnow
      have hne := hearlier hnow
      rw [← List.length_pos_iff, h.pending] at hne
      omega

/-! ### Whole transfers -/

/-- The controller is idle and configured for the transfer `t`, and the command that starts
it without a device trigger has reached it. -/
structure Started (t : Transfer aw) (x : DmaSystem aw) : Prop where
  dmaState : x.dma.dmaState = .idle
  command : x.dma.command 0 = true
  startKey : x.dma.startKey = true
  noTrigger : x.dma.rSData.getLsbD 15 = false
  blk : t.blk = (x.dma.rSData.setWidth 10 + 0x3ff#10).toNat
  incs : t.incs = !x.dma.rSData.getLsbD 29
  incd : t.incd = !x.dma.rSData.getLsbD 28
  raddr : x.dma.cfgRaddr = t.raddr
  waddr : x.dma.cfgWaddr = t.waddr
  len : x.dma.cfgLen.toNat = t.len
  nonzero : x.dma.cfgLenNonzero = true
  pos : 0 < t.len
  mem : x.bus.mem = t.mem
  pending : x.bus.pending = []

theorem Started.step (h : Started t x) (hi : i.Quiet) :
  Waiting t (x.step i) 0 t.mem
  := by
  have hs := h.dmaState
  have hcmd : x.dma.command 0#2 = true := h.command
  have haddr : x.dma.rSAddr = 0 := by
    simp only [Wbdmac.command, Bool.and_eq_true, decide_eq_true_eq] at hcmd
    apply hcmd.2
  have hstart : x.dma.config 0#2 = true := by simp [Wbdmac.config, hs, hcmd]
  have hconfig : x.dma.config 1#2 = false := by simp [Wbdmac.config, Wbdmac.command, haddr]
  have hcyc : x.dma.oMwbCyc = false := by simp [Wbdmac.oMwbCyc, hs]
  constructor
  · constructor
    · simpa [DmaSystem.step, Wbdmac.step, hi.iReset] using hi.noWrite
    · simp [DmaSystem.step, Wbdmac.step, hi.iReset, hs]
    · simp [DmaSystem.step, Wbdmac.step, hs]
    · simpa [DmaSystem.step, Wbdmac.step, hi.iReset, hstart] using h.noTrigger
    · simp [DmaSystem.step, Wbdmac.step, hi.iReset, hstart, h.incs]
    · simp [DmaSystem.step, Wbdmac.step, hi.iReset, hstart, h.incd]
    · rw [h.blk]
      simp [DmaSystem.step, Wbdmac.step, hi.iReset, hstart]
    · simp [DmaSystem.step, Wbdmac.step, hi.iReset, hs]
    · apply h.pos
    · rfl
  · simp [DmaSystem.step, Wbdmac.step, Wbdmac.nextState, hi.iReset, hs, hcmd, h.startKey, h.nonzero]
  · simp [DmaSystem.step, Wbdmac.step, Wbdmac.nextRaddr, Wbdmac.command, hi.iReset, hs, haddr,
      h.raddr, src]
  · simp [DmaSystem.step, Wbdmac.step, Wbdmac.nextWaddr, Wbdmac.command, hi.iReset, hs, haddr,
      h.waddr, dst]
  · simp [DmaSystem.step, Wbdmac.step, hi.iReset, hconfig, hcyc, h.len]
  · simp [DmaSystem.step, Wbdmac.step, hi.iReset, hconfig, hcyc, h.nonzero]
  · simp [DmaSystem.step, Slave.step, DmaSystem.request, Wbdmac.oMwbStb, hs, h.mem]
  · simp [DmaSystem.step, Slave.step, DmaSystem.request, hcyc]
  · intro htrigger
    simp [DmaSystem.step, Wbdmac.step, hi.iReset, hs] at htrigger

section Runs

variable {x₀ : DmaSystem aw} {inp : ℕ → Wbdmac.Input}

/-- The addresses of the reads accepted before clock `n`. -/
def allRead (x₀ : DmaSystem aw) (inp : ℕ → Wbdmac.Input) : ℕ → List (BitVec aw) :=
  log fun n => (run DmaSystem.step x₀ inp n).readAt (inp n)

/-- The addresses of the writes accepted before clock `n`. -/
def allWritten (x₀ : DmaSystem aw) (inp : ℕ → Wbdmac.Input) : ℕ → List (BitVec aw) :=
  log fun n => (run DmaSystem.step x₀ inp n).writtenAt (inp n)

/-- The slaves serve the controller along the run. -/
def Served (x₀ : DmaSystem aw) (inp : ℕ → Wbdmac.Input) : Prop :=
  Serves (fun n => (run DmaSystem.step x₀ inp n).dma.oMwbStb)
    (fun n => (run DmaSystem.step x₀ inp n).bus.pending) (fun n => (inp n).iMwbStall)
    (fun n => (inp n).iMwbAck)

/-- At no clock of the run does something happen that the flags miss. -/
def AllTimely (x₀ : DmaSystem aw) (inp : ℕ → Wbdmac.Input) : Prop :=
  ∀ n, (run DmaSystem.step x₀ inp n).dma.Timely (run DmaSystem.step x₀ inp (n + 1)).dma (inp n)
    (inp (n + 1))

/-- The system is at work at clock `n`, and what was accepted so far are the words in
order. -/
def Working (t : Transfer aw) (x₀ : DmaSystem aw) (inp : ℕ → Wbdmac.Input) (n k : ℕ) : Prop :=
  ∃ R W, AtWork t (run DmaSystem.step x₀ inp n) (inp n) R W k
    ∧ allRead x₀ inp n = window t.src 0 R ∧ allWritten x₀ inp n = window t.dst 0 W

/-- The transfer ends at clock `n`. -/
structure Ends (t : Transfer aw) (x₀ : DmaSystem aw) (inp : ℕ → Wbdmac.Input) (n : ℕ) : Prop where
  finished : Finished t (run DmaSystem.step x₀ inp n)
  interrupt : (run DmaSystem.step x₀ inp n).dma.oInterrupt = true
  read : allRead x₀ inp n = window t.src 0 t.len
  written : allWritten x₀ inp n = window t.dst 0 t.len

/-- A list of words in order grows by the next one. -/
theorem window_grows {A : Type*} {f : ℕ → A} {xs new : List A} {n : ℕ} (h : xs = window f 0 n)
    (hnew : new = [] ∨ new = [f n]) :
  xs ++ new = window f 0 (n + new.length)
  := by
  rcases hnew with rfl | rfl
  · rw [List.append_nil, h, List.length_nil, Nat.add_zero]
  · rw [h, List.length_singleton, window_snoc _ (Nat.zero_le n)]

theorem Working.step {n k : ℕ} (hquiet : ∀ n, (inp n).Quiet) (hserved : Served x₀ inp)
    (htimely : AllTimely x₀ inp) (h : Working t x₀ inp n k) :
  Ends t x₀ inp (n + 1)
    ∨ ∃ k' ≤ k, Working t x₀ inp (n + 1) k' ∧ (Moves (run DmaSystem.step x₀ inp n) (inp n) → k' < k)
  := by
  obtain ⟨R, W, hwork, hread, hwritten⟩ := h
  obtain ⟨hnextRead, hnextWritten⟩ := hwork.accepts
  have hread' := window_grows hread hnextRead
  have hwritten' := window_grows hwritten hnextWritten
  rcases hwork.step (hquiet n) (hserved.earlier n) (hserved.earlier (n + 1)) (htimely n) with
    ⟨k', hle, hnext, hmoves⟩ | ⟨hfinished, hint, hR, hW⟩
  · right
    use k', hle
    refine ⟨⟨_, _, hnext, ?_, ?_⟩, hmoves⟩
    · apply hread'
    · apply hwritten'
  · left
    rw [hR] at hread'
    rw [hW] at hwritten'
    constructor
    · apply hfinished
    · apply hint
    · apply hread'
    · apply hwritten'

/-- A system at work moves sooner or later. -/
theorem Working.moves {n k : ℕ} (hserved : Served x₀ inp) (h : Working t x₀ inp n k) :
  ∃ m, n ≤ m ∧ Moves (run DmaSystem.step x₀ inp m) (inp m)
  := by
  obtain ⟨R, W, hwork, -, -⟩ := h
  have hrequest : (run DmaSystem.step x₀ inp n).dma.oMwbStb = true →
      ∃ m, n ≤ m ∧ Moves (run DmaSystem.step x₀ inp m) (inp m) := by
    intro hstb
    obtain ⟨m, hm, hstb', hstall⟩ := hserved.accepts n hstb
    use m, hm
    left
    apply And.intro hstb' hstall
  have hanswer : (run DmaSystem.step x₀ inp n).bus.pending ≠ [] →
      ∃ m, n ≤ m ∧ Moves (run DmaSystem.step x₀ inp m) (inp m) := by
    intro hpending
    obtain ⟨m, hm, hack⟩ := hserved.answers n hpending
    use m, hm
    right
    left
    apply hack
  cases hwork with
  | waiting h =>
      use n, Nat.le_refl n
      right; right; left
      apply h.dmaState
  | reading h =>
      have hmore := h.more
      rcases h.states with ⟨hs, -⟩ | ⟨hs, rfl⟩
      · apply hrequest
        simp [Wbdmac.oMwbStb, hs]
      · apply hanswer
        rw [h.pending, ← List.length_pos_iff, length_window]
        omega
  | filled h =>
      use n, Nat.le_refl n
      right; right; right
      apply h.dmaState
  | writing h =>
      have hmore := h.more
      rcases h.states with ⟨hs, -⟩ | ⟨hs, rfl⟩
      · apply hrequest
        simp [Wbdmac.oMwbStb, hs]
      · apply hanswer
        rw [← List.length_pos_iff, h.pending]
        omega

/-- After its end a transfer stays as it is. -/
theorem Ends.stays {n : ℕ} (hquiet : ∀ n, (inp n).Quiet) (h : Ends t x₀ inp n) (d : ℕ) :
  Finished t (run DmaSystem.step x₀ inp (n + d))
    ∧ (run DmaSystem.step x₀ inp (n + d + 1)).dma.oInterrupt = false
    ∧ allRead x₀ inp (n + d) = window t.src 0 t.len
    ∧ allWritten x₀ inp (n + d) = window t.dst 0 t.len
  := by
  induction d with
  | zero =>
      refine ⟨h.finished, ?_, h.read, h.written⟩
      apply (h.finished.step (hquiet n)).2
  | succ d ih =>
      obtain ⟨hfinished, -, hread, hwritten⟩ := ih
      have hnext := (hfinished.step (hquiet (n + d))).1
      have hstb : (run DmaSystem.step x₀ inp (n + d)).dma.oMwbStb = false := by
        simp [Wbdmac.oMwbStb, hfinished.dmaState]
      obtain ⟨hnoRead, hnoWrite⟩ := nothing_accepted hstb (inp (n + d))
      refine ⟨hnext, ?_, ?_, ?_⟩
      · apply (hnext.step (hquiet (n + d + 1))).2
      · unfold allRead at hread ⊢
        rw [← Nat.add_assoc, log_succ, hnoRead, List.append_nil, hread]
      · unfold allWritten at hwritten ⊢
        rw [← Nat.add_assoc, log_succ, hnoWrite, List.append_nil, hwritten]

/-- A transfer that is started without a device trigger, over slaves that stall and
acknowledge as they like, comes to its end if nothing happens that the flags miss. From
then on the controller is idle with nothing left to copy, the memory is what the copy in
blocks makes of it, the source words have been read once each, and nothing but their
copies has been written; the interrupt was raised once. -/
theorem transfer_ends (t : Transfer aw) (hstart : Started t x₀) (hquiet : ∀ n, (inp n).Quiet)
    (hserved : Served x₀ inp) (htimely : AllTimely x₀ inp) :
  (∃ m, ∀ n, m ≤ n →
    (run DmaSystem.step x₀ inp n).dma.dmaState = .idle
      ∧ (run DmaSystem.step x₀ inp n).dma.cfgLen = 0
      ∧ (run DmaSystem.step x₀ inp n).bus.mem = t.copied
      ∧ allRead x₀ inp n = (List.range t.len).map t.src
      ∧ allWritten x₀ inp n = (List.range t.len).map t.dst)
    ∧ ∃! n, 0 < n ∧ (run DmaSystem.step x₀ inp n).dma.oInterrupt = true
  := by
  have hrange : ∀ f : ℕ → BitVec aw, window f 0 t.len = (List.range t.len).map f := by
    intro f
    rw [window, Nat.sub_zero, List.range_eq_range']
  have hfirst : ∃ k, Working t x₀ inp 1 k := by
    have hstb : x₀.dma.oMwbStb = false := by simp [Wbdmac.oMwbStb, hstart.dmaState]
    obtain ⟨hnoRead, hnoWrite⟩ := nothing_accepted hstb (inp 0)
    refine ⟨_, 0, 0, .waiting (hstart.step (hquiet 0)), ?_, ?_⟩
    · simp [allRead, log_succ, hnoRead]
    · simp [allWritten, log_succ, hnoWrite]
  obtain ⟨k, hfirst⟩ := hfirst
  obtain ⟨m, hm, hends, hwork⟩ := reaches_of_rank
    (fun n k h => Working.step hquiet hserved htimely h)
    (fun n k h => Working.moves hserved h) hfirst
  constructor
  · use m
    intro n hn
    obtain ⟨d, rfl⟩ := Nat.exists_eq_add_of_le hn
    obtain ⟨hfinished, -, hread, hwritten⟩ := hends.stays hquiet d
    rw [hread, hwritten, hrange, hrange]
    apply And.intro hfinished.dmaState
    apply And.intro hfinished.len
    apply And.intro hfinished.mem
    apply And.intro rfl rfl
  · use m
    refine ⟨⟨by omega, hends.interrupt⟩, ?_⟩
    rintro n ⟨hpos, hint⟩
    rcases Nat.lt_trichotomy n m with hlt | rfl | hgt
    · obtain ⟨k', R, W, hat, -, -⟩ := hwork n hpos hlt
      rw [hat.interrupt] at hint
      cases hint
    · rfl
    · obtain ⟨d, rfl⟩ := Nat.exists_eq_add_of_lt hgt
      rw [(hends.stays hquiet d).2.1] at hint
      cases hint

end Runs

/-! ### Two transfers -/

/-- One word, from address 0 to address 1, in a block of length `blk + 1`. -/
def oneWord (blk : ℕ) : Transfer 30 where
  raddr := 0
  waddr := 1
  len := 1
  blk := blk
  incs := true
  incd := true
  mem := fun _ => 0

/-- Five words, from address 0 to address 16, in blocks of two. -/
def fiveWords : Transfer 30 where
  raddr := 0
  waddr := 16
  len := 5
  blk := 1
  incs := true
  incd := true
  mem := fun a => 0x100 + a.setWidth 32

/-- A system configured for the transfer `t`, which the command `data` has reached. -/
def commanded (t : Transfer 30) (data : BitVec 32) : DmaSystem 30 where
  dma :=
    { rSStb := true, rSWe := true, rSAddr := 0, rSData := data, dmaState := .idle
      cfgLenNonzero := true, cfgWaddr := t.waddr, cfgRaddr := t.raddr
      cfgLen := BitVec.ofNat 30 t.len, cfgBlocklenSubOne := 0
      cfgIncs := false, cfgIncd := false, cfgDevTrigger := 0, cfgOnDevTrigger := false
      dmaMem := fun _ => 0, nread := 0, nwritten := 0, nwacks := 0, nracks := 0
      lastReadRequest := false, lastReadAck := false, lastWriteRequest := false
      lastWriteAck := false, trigger := false, abort := false, userHalt := false
      oMwbAddr := 0, oMwbData := 0, rdaddr := 0, oInterrupt := false }
  bus := { mem := t.mem, pending := [] }

/-- The inputs of a slave that acknowledges at the clocks `acked` and stalls where `stalls` says. -/
def ackedAt (stalls : ℕ → Bool) (acked : List ℕ) (n : ℕ) : Wbdmac.Input where
  iReset := false
  iSwbStb := false
  iSwbWe := false
  iSwbAddr := 0
  iSwbData := 0
  iMwbStall := stalls n
  iMwbAck := acked.elem n
  iMwbData := 0
  iMwbErr := false
  iDevInts := 0

/-- The command starts the transfer if it carries the key, no device trigger, increments
of both addresses, and the length of the blocks. -/
theorem started_commanded {t : Transfer 30} {data : BitVec 32}
    (hkey : (commanded t data).dma.startKey = true) (htrigger : data.getLsbD 15 = false)
    (hincs : t.incs = !data.getLsbD 29) (hincd : t.incd = !data.getLsbD 28)
    (hblk : t.blk = (data.setWidth 10 + 0x3ff#10).toNat) (hpos : 0 < t.len)
    (hlen : t.len < 2 ^ 30) :
  Started t (commanded t data)
  := by
  constructor
  · rfl
  · rfl
  · apply hkey
  · apply htrigger
  · apply hblk
  · apply hincs
  · apply hincd
  · rfl
  · rfl
  · apply Nat.mod_eq_of_lt hlen
  · rfl
  · apply hpos
  · rfl
  · rfl

theorem ackedAt_quiet (stalls : ℕ → Bool) (acked : List ℕ) (n : ℕ) :
  (ackedAt stalls acked n).Quiet
  := by constructor <;> rfl

theorem ackedAt_eq_true {stalls : ℕ → Bool} {acked : List ℕ} {n : ℕ} :
  (ackedAt stalls acked n).iMwbAck = true ↔ n ∈ acked
  := by simp [ackedAt]

/-- Three blocks are copied, the last of one word, over slaves that stall at every fourth clock
and let some acknowledgements wait. -/
theorem transfer_ends_fiveWords :
  let x₀ := commanded fiveWords 0x0fed0002
  let inp := ackedAt (fun n => n % 4 == 3) [5, 7, 10, 11, 15, 17, 21, 22, 27, 31]
  (∃ m, ∀ n, m ≤ n →
    (run DmaSystem.step x₀ inp n).dma.dmaState = .idle
      ∧ (run DmaSystem.step x₀ inp n).dma.cfgLen = 0
      ∧ (run DmaSystem.step x₀ inp n).bus.mem = fiveWords.copied
      ∧ allRead x₀ inp n = (List.range 5).map fiveWords.src
      ∧ allWritten x₀ inp n = (List.range 5).map fiveWords.dst)
    ∧ ∃! n, 0 < n ∧ (run DmaSystem.step x₀ inp n).dma.oInterrupt = true
  := by
  intro x₀ inp
  have hacked : ∀ n, (inp n).iMwbAck = true → n < 32 := by
    intro n hn
    have hall : ∀ k ∈ [5, 7, 10, 11, 15, 17, 21, 22, 27, 31], k < 32 := by decide
    apply hall n (ackedAt_eq_true.mp hn)
  have hlater : ∀ n, 32 ≤ n → (run DmaSystem.step x₀ inp n).dma.dmaState = .idle
      ∧ (run DmaSystem.step x₀ inp n).dma.rSStb = false
      ∧ (run DmaSystem.step x₀ inp n).bus.pending = [] := by
    intro n hn
    induction hn with
    | refl => decide +kernel
    | @step n hn ih =>
        obtain ⟨hs, hstb, -⟩ := ih
        rw [Nat.succ_eq_add_one, run_succ]
        simp [DmaSystem.step, Wbdmac.step, Wbdmac.nextState, Wbdmac.command, Slave.step,
          DmaSystem.request, Wbdmac.oMwbCyc, hs, hstb, inp, ackedAt]
  have hearlier : ∀ n < 32, (inp n).iMwbAck = true →
      (run DmaSystem.step x₀ inp n).bus.pending ≠ [] := by decide +kernel
  have haccepts : ∀ n < 32, (run DmaSystem.step x₀ inp n).dma.oMwbStb = true →
      (inp n).iMwbStall = false ∨ (run DmaSystem.step x₀ inp (n + 1)).dma.oMwbStb = true
        ∧ (inp (n + 1)).iMwbStall = false := by decide +kernel
  have htimely : ∀ n < 31, (run DmaSystem.step x₀ inp n).dma.Timely
      (run DmaSystem.step x₀ inp (n + 1)).dma (inp n) (inp (n + 1)) := by decide +kernel
  have hnone : ∀ n, 31 ≤ n → (inp (n + 1)).iMwbAck = true → False := by
    intro n hn hack
    have hlt := hacked _ hack
    omega
  apply transfer_ends fiveWords
  · apply started_commanded <;> decide
  · apply ackedAt_quiet
  · constructor
    · intro n hn
      apply hearlier n (hacked n hn) hn
    · intro n hn
      have hlt : n < 32 := by
        by_contra hnot
        rw [Wbdmac.oMwbStb, (hlater n (Nat.le_of_not_lt hnot)).1] at hn
        contradiction
      rcases haccepts n hlt hn with hstall | ⟨hstb, hstall⟩
      · exact ⟨n, Nat.le_refl n, hn, hstall⟩
      · exact ⟨n + 1, Nat.le_succ n, hstb, hstall⟩
    · intro n hn
      use 31
      constructor
      · by_contra hlt
        apply hn (hlater n (by omega)).2.2
      · rfl
  · intro n
    rcases Nat.lt_or_ge n 31 with hlt | hge
    · apply htimely n hlt
    · constructor
      · intro _ _ hack
        cases hnone n hge hack
      · intro _ hack
        cases hnone n hge hack

/-- Where the block is longer than the transfer, and its read is acknowledged at the clock
after it is accepted, the transfer never ends. -/
theorem oneWord_never_ends :
  let x₀ := commanded (oneWord 1023) 0x0fed0000
  let inp := ackedAt (fun _ => false) [4]
  Started (oneWord 1023) x₀ ∧ (∀ n, (inp n).Quiet) ∧ Served x₀ inp
    ∧ ∀ n, 5 ≤ n → (run DmaSystem.step x₀ inp n).dma.dmaState ≠ .idle
  := by
  intro x₀ inp
  have hlater : ∀ k, (run DmaSystem.step x₀ inp (5 + k)).dma.dmaState = .readAck
      ∧ (run DmaSystem.step x₀ inp (5 + k)).dma.rSStb = false
      ∧ (run DmaSystem.step x₀ inp (5 + k)).dma.abort = false
      ∧ (run DmaSystem.step x₀ inp (5 + k)).bus.pending = [] := by
    intro k
    induction k with
    | zero => decide
    | succ k ih =>
        obtain ⟨hs, hstb, habort, hpending⟩ := ih
        have hpast : 5 + k ≠ 4 := by omega
        rw [← Nat.add_assoc, run_succ]
        simp [DmaSystem.step, Wbdmac.step, Wbdmac.nextState, Wbdmac.command, Slave.step,
          DmaSystem.request, Wbdmac.oMwbCyc, Wbdmac.oMwbStb, hs, hstb, habort, hpending, inp,
          hpast, ackedAt]
  refine ⟨?_, ackedAt_quiet _ _, ?_, ?_⟩
  · apply started_commanded <;> decide
  · constructor
    · intro n hn
      obtain rfl := List.mem_singleton.mp (ackedAt_eq_true.mp hn)
      decide
    · intro n hn
      use n, Nat.le_refl n, hn
      rfl
    · intro n hn
      use 4
      refine ⟨?_, rfl⟩
      by_contra hlt
      obtain ⟨k, rfl⟩ := Nat.exists_eq_add_of_le (show 5 ≤ n by omega)
      apply hn (hlater k).2.2.2
  · intro n hn
    obtain ⟨k, rfl⟩ := Nat.exists_eq_add_of_le hn
    rw [(hlater k).1]
    decide

end Transfer

end ZBasic
