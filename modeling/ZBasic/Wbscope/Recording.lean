import Mathlib.Data.List.GetD
import ZBasic.Clocked.RunLength
import ZBasic.Wbscope.Wbscopc

/-!
# The record of the compressed scope

The words of the scope are those of a run-length record in which a count of `k` stands for `k + 1`
more of the value before it. The two registers that what is written goes through are the two words
that the recorder has in hand.
-/

namespace ZBasic

open Clocked

/-- The word of a record that a flag and 31 bits stand for. -/
def scopeWord (adr : Bool) (val : BitVec 31) : Word (BitVec 31) :=
  if adr then .count val.toNat else .value val

/-- The word of a record in a word of the memory. -/
def wordOf (x : BitVec 32) : Word (BitVec 31) := scopeWord x.msb (x.extractLsb' 0 31)

theorem isCount_scopeWord (adr : Bool) (val : BitVec 31) :
  (scopeWord adr val).isCount = adr
  := by cases adr <;> rfl

theorem wordOf_append (adr : Bool) (val : BitVec 31) :
  wordOf (BitVec.ofBool adr ++ val) = scopeWord adr val
  := by
  have hmsb : (BitVec.ofBool adr ++ val).msb = adr := by
    rw [BitVec.msb_append]
    cases adr <;> rfl
  have hlow : (BitVec.ofBool adr ++ val).extractLsb' 0 31 = val := by
    apply BitVec.eq_of_getLsbD_eq
    intro i hi
    rw [BitVec.getLsbD_extractLsb', BitVec.getLsbD_append, Nat.zero_add, decide_eq_true hi,
      if_pos hi, Bool.true_and]
  rw [wordOf, hmsb, hlow]

namespace Wbscopc

variable {lg e b st : ℕ}

section Wires

variable (p : Wbscopc lg e b st)

/-- The word in `lst_val`. -/
def lst : Word (BitVec 31) := scopeWord p.lstAdr p.lstVal

/-- The word in `imm_val`. -/
def imm : Word (BitVec 31) := scopeWord p.immAdr p.immVal

/-- The record, of which `ws` has left the two registers. -/
def record (ws : List (Word (BitVec 31))) : List (Word (BitVec 31)) :=
  ws ++ Word.inHand p.lst p.imm

/-- The word that goes to the memory with the next clock. -/
def pending : List (BitVec 32) := if p.recordCe then [p.rData] else []

end Wires

/-- What a count stands for. -/
abbrev repeats (k : ℕ) : ℕ := k + 1

/-- The registers after the samples `samples`, where `ws` has left the two registers. Before the
first sample the scope held `v`. -/
structure Recording (maxStep : BitVec st) (v : BitVec 31) (samples : List (BitVec 31))
    (ws : List (Word (BitVec 31))) (p : Wbscopc lg e b st) : Prop where
  decoded : Word.decode repeats (p.record ws) ++ [p.wData] = v :: samples
  starts : p.record ws = [.count 0] ∨ ∃ rest, p.record ws = .count 0 :: .value v :: rest
  same : p.newData = false → (Word.decode repeats (p.record ws)).getLast? = some p.wData
  counts : p.drForceWrite = false → p.ckAddr.toNat = Word.next (p.record ws)
  le : p.drForceWrite = false → p.ckAddr ≤ maxStep
  full : p.drForceWrite = false → p.ckAddr = maxStep →
    p.drRunTimeout = true ∧ p.drForceInhibit = false

section Step

variable {maxStep : BitVec st} {v : BitVec 31} {samples : List (BitVec 31)}
  {ws : List (Word (BitVec 31))} {p : Wbscopc lg e b st} {i : Input e}

/-- A reset empties the record. -/
theorem recording_of_dwReset (hreset : p.dwReset = true) :
  Recording maxStep (p.step i maxStep).wData [] [] (p.step i maxStep)
  := by
  have hrecord : (p.step i maxStep).record [] = [.count 0] := by
    simp [record, lst, imm, scopeWord, step, hreset, Word.inHand]
  constructor
  case decoded =>
      rw [hrecord]
      rfl
  case starts =>
      left
      apply hrecord
  case same => simp [step, hreset]
  case counts => simp [step, hreset]
  case le => simp [step, hreset]
  case full => simp [step, hreset]

/-- Without a sample the record stays as it is. -/
theorem Recording.idle (h : Recording maxStep v samples ws p) (hreset : p.dwReset = false)
    (hce : i.iCe = false) :
  Recording maxStep v samples ws (p.step i maxStep)
  := by
  have hrecord : (p.step i maxStep).record ws = p.record ws := by
    simp [record, lst, imm, step, hreset, hce]
  have hdata : (p.step i maxStep).wData = p.wData := by simp [wData, step, hce]
  constructor
  case decoded =>
      rw [hrecord, hdata]
      apply h.decoded
  case starts =>
      rw [hrecord]
      apply h.starts
  case same =>
      rw [hrecord, hdata]
      simpa [step, hreset, hce] using h.same
  case counts =>
      rw [hrecord]
      simpa [step, hreset, hce] using h.counts
  case le => simpa [step, hreset, hce] using h.le
  case full => simpa [step, hreset, hce] using h.full

/-- The word that a sample adds to the record. -/
def nextWord (p : Wbscopc lg e b st) : Word (BitVec 31) :=
  if p.writesValue then .value p.wData else .count p.ckAddr.toNat

/-- With a sample the words in hand move on. -/
theorem record_step (hst : st ≤ 31) (hreset : p.dwReset = false) (hce : i.iCe = true) :
  (p.step i maxStep).record (ws ++ Word.written p.lst p.imm) = Word.add (p.record ws) p.nextWord
  := by
  have hlst : (p.step i maxStep).lst = p.imm := by simp [lst, imm, step, hreset, hce]
  have himm : (p.step i maxStep).imm = p.nextWord := by
    rw [imm, nextWord]
    have hck : (p.ckAddr.setWidth 31).toNat = p.ckAddr.toNat := by
      rw [BitVec.toNat_setWidth]
      apply Nat.mod_eq_of_lt
      apply Nat.lt_of_lt_of_le p.ckAddr.isLt
      apply Nat.pow_le_pow_right (by decide) hst
    cases hvalue : p.writesValue with
    | true => simp [step, hreset, hce, hvalue, scopeWord]
    | false =>
        rw [if_neg Bool.false_ne_true, ← hck]
        simp [step, hreset, hce, hvalue, scopeWord]
  rw [record, hlst, himm, Word.written_inHand]
  rfl

/-- The next word adds the sample that is in hand. -/
theorem Recording.decode_add (h : Recording maxStep v samples ws p) :
  Word.decode repeats (Word.add (p.record ws) p.nextWord)
    = Word.decode repeats (p.record ws) ++ [p.wData]
  := by
  rw [nextWord]
  cases hvalue : p.writesValue with
  | true => rw [if_pos rfl, Word.add_value, Word.decode_snoc_value]
  | false =>
      rw [writesValue, Bool.or_eq_false_iff, Bool.or_eq_false_iff] at hvalue
      obtain ⟨⟨hnew, hforce⟩, -⟩ := hvalue
      rw [if_neg Bool.false_ne_true, h.counts hforce]
      apply Word.decode_add_count rfl (fun k => rfl) (h.same hnew)

/-- What the record starts with stays. -/
theorem Recording.starts_add (h : Recording maxStep v samples ws p)
    (hfirst : p.record ws = [.count 0] → p.writesValue = true) :
  ∃ rest, Word.add (p.record ws) p.nextWord = .count 0 :: .value v :: rest
  := by
  rcases h.starts with hzero | ⟨rest, hrest⟩
  · have hv := h.decoded
    rw [hzero] at hv
    have hdata : p.wData = v := (List.cons.inj hv).1
    rw [nextWord, hfirst hzero, if_pos rfl, Word.add_value, hzero, hdata]
    use []
    rfl
  · rw [hrest]
    use Word.add rest p.nextWord
    apply Word.add_append_value [.count 0]

/-- Unless it is followed by a forced write, a count is not the largest one. -/
theorem Recording.lt_maxStep (h : Recording maxStep v samples ws p) (hreset : p.dwReset = false)
    (hce : i.iCe = true) (hvalue : p.writesValue = false)
    (hforce : (p.step i maxStep).drForceWrite = false) :
  p.ckAddr < maxStep
  := by
  rw [writesValue, Bool.or_eq_false_iff, Bool.or_eq_false_iff] at hvalue
  obtain ⟨⟨-, hnow⟩, -⟩ := hvalue
  apply BitVec.lt_of_le_ne (h.le hnow)
  intro hmax
  obtain ⟨htimeout, hinhibit⟩ := h.full hnow hmax
  simp [step, hreset, hce, htimeout, hnow, hinhibit] at hforce

theorem toNat_succ {x y : BitVec st} (h : x < y) :
  (x + 1).toNat = x.toNat + 1
  := by
  have hlt := y.isLt
  rw [BitVec.lt_def] at h
  rw [BitVec.toNat_add, toNat_one_of_lt (by omega), Nat.mod_eq_of_lt (by omega)]

/-- With a sample the record grows by one word. -/
theorem Recording.sample (hst : st ≤ 31) (hmax : maxStep ≠ 0)
    (h : Recording maxStep v samples ws p) (hreset : p.dwReset = false) (hce : i.iCe = true)
    (hfirst : p.record ws = [.count 0] → p.writesValue = true) :
  Recording maxStep v (samples ++ [i.iData.setWidth 31]) (ws ++ Word.written p.lst p.imm)
    (p.step i maxStep)
  := by
  have hrecord := @record_step _ _ _ _ maxStep ws p i hst hreset hce
  have hdecode := h.decode_add
  have hdata : (p.step i maxStep).wData = i.iData.setWidth 31 := by simp [wData, step, hce]
  constructor
  case decoded => rw [hrecord, hdecode, h.decoded, hdata, List.cons_append]
  case starts =>
      right
      rw [hrecord]
      apply h.starts_add hfirst
  case same =>
      intro hnew
      have heq : i.iData = p.qdData := by simpa [step, hreset, hce] using hnew
      rw [hrecord, hdecode, List.getLast?_concat, hdata, heq]
      rfl
  case counts =>
      intro hforce
      rw [hrecord, nextWord]
      cases hvalue : p.writesValue with
      | true =>
          rw [if_pos rfl, Word.next_add_value]
          simp [step, hreset, hce, hvalue]
      | false =>
          have hck : (p.step i maxStep).ckAddr = p.ckAddr + 1 := by
            simp [step, hreset, hce, hvalue]
          rw [if_neg Bool.false_ne_true, Word.next_add_count, hck,
            toNat_succ (h.lt_maxStep hreset hce hvalue hforce)]
  case le =>
      intro hforce
      cases hvalue : p.writesValue with
      | true => simp [step, hreset, hce, hvalue, BitVec.le_def]
      | false =>
          have hck : (p.step i maxStep).ckAddr = p.ckAddr + 1 := by
            simp [step, hreset, hce, hvalue]
          have hlt := h.lt_maxStep hreset hce hvalue hforce
          rw [hck, BitVec.le_def, toNat_succ hlt]
          apply hlt
  case full =>
      intro hforce hmaxed
      cases hvalue : p.writesValue with
      | true =>
          have hck : (p.step i maxStep).ckAddr = 0 := by simp [step, hreset, hce, hvalue]
          rw [hck] at hmaxed
          cases hmax hmaxed.symm
      | false =>
          have hck : (p.step i maxStep).ckAddr = p.ckAddr + 1 := by
            simp [step, hreset, hce, hvalue]
          rw [hck] at hmaxed
          have hnow : p.drForceWrite = false := by
            rw [writesValue, Bool.or_eq_false_iff, Bool.or_eq_false_iff] at hvalue
            apply hvalue.1.2
          have hback : maxStep - BitVec.ofNat st 1 = p.ckAddr := by
            rw [← hmaxed]
            apply add_sub_cancel_right
          simp [step, hreset, hce, hnow, hback, BitVec.le_def]

end Step

/-! ### The memory -/

/-- The words `written` are in the memory, as far back as it reaches. -/
structure Stored (written : List (BitVec 32)) (p : Wbscopc lg e b st) : Prop where
  waddr : p.waddr = BitVec.ofNat lg written.length
  drPrimed : p.drPrimed = decide (2 ^ lg ≤ written.length)
  filled : Filled p.mem p.waddr written

section Step

variable {maxStep : BitVec st} {v : BitVec 31} {samples captured : List (BitVec 31)}
  {written : List (BitVec 32)} {ws : List (Word (BitVec 31))} {p : Wbscopc lg e b st} {i : Input e}

theorem stored_of_dwReset (hreset : p.dwReset = true) :
  Stored [] (p.step i maxStep)
  := by
  constructor
  case waddr => simp [step, hreset]
  case drPrimed => simp [step, hreset]
  case filled => apply Filled.nil

theorem eq_allOnes_iff {n : ℕ} (hn : n < 2 ^ lg) :
  BitVec.ofNat lg n = BitVec.allOnes lg ↔ n + 1 = 2 ^ lg
  := by
  rw [← BitVec.toNat_inj, BitVec.toNat_ofNat, BitVec.toNat_allOnes, Nat.mod_eq_of_lt hn]
  omega

theorem Stored.step (h : Stored written p) (hreset : p.dwReset = false) :
  Stored (written ++ p.pending) (p.step i maxStep)
  := by
  cases hrecord : p.recordCe with
  | false =>
      rw [pending, hrecord, if_neg Bool.false_ne_true, List.append_nil]
      constructor
      case waddr => simpa [Wbscopc.step, hreset, hrecord] using h.waddr
      case drPrimed => simpa [Wbscopc.step, hreset, hrecord] using h.drPrimed
      case filled => simpa [Wbscopc.step, hreset, hrecord] using h.filled
  | true =>
      have hwaddr : (p.step i maxStep).waddr = p.waddr + 1 := by
        simp [Wbscopc.step, hreset, hrecord]
      have hmem : (p.step i maxStep).mem = Function.update p.mem p.waddr p.rData := by
        simp [Wbscopc.step, hrecord]
      have hprimed : (p.step i maxStep).drPrimed
          = (p.drPrimed || p.waddr == BitVec.allOnes lg) := by
        simp [Wbscopc.step, hreset, hrecord]
      rw [pending, hrecord, if_pos rfl]
      constructor
      case waddr =>
          rw [hwaddr, h.waddr, List.length_append, List.length_singleton, BitVec.ofNat_add]
          rfl
      case drPrimed =>
          rw [hprimed, h.drPrimed, h.waddr, List.length_append, List.length_singleton,
            Bool.eq_iff_iff, Bool.or_eq_true, decide_eq_true_eq, decide_eq_true_eq, beq_iff_eq]
          rcases Nat.lt_or_ge written.length (2 ^ lg) with hlt | hge
          · rw [eq_allOnes_iff hlt]
            omega
          · constructor
            · intro _
              omega
            · intro _
              left
              apply hge
      case filled =>
          rw [hwaddr, hmem]
          apply h.filled.snoc

/-! ### Up to the stop -/

/-- The registers while words are recorded: what has left them, after one word at most that is left
over from before the reset, has gone to the memory. -/
structure Recorded (maxStep : BitVec st) (v : BitVec 31) (samples : List (BitVec 31))
    (written : List (BitVec 32)) (ws : List (Word (BitVec 31))) (p : Wbscopc lg e b st) :
    Prop where
  recording : Recording maxStep v samples ws p
  out : ∃ stray : List (Word (BitVec 31)), stray.length ≤ 1
    ∧ (written ++ p.pending).map wordOf = stray ++ ws
  filled : p.drPrimed = true → 2 ^ lg + 1 ≤ (p.record ws).length
  filling : p.drPrimed = false →
    p.drForceWrite = true ∧ (ws = [] ∨ (p.record ws).length = ws.length + 2)

theorem length_pending_le (p : Wbscopc lg e b st) :
  p.pending.length ≤ 1
  := by
  rw [pending]
  split_ifs
  · rfl
  · apply Nat.zero_le

theorem recorded_of_dwReset (hreset : p.dwReset = true) :
  Recorded maxStep (p.step i maxStep).wData [] [] [] (p.step i maxStep)
  := by
  have hprimed : (p.step i maxStep).drPrimed = false := by simp [Wbscopc.step, hreset]
  constructor
  case recording => apply recording_of_dwReset hreset
  case out =>
      use (p.step i maxStep).pending.map wordOf
      rw [List.length_map, List.append_nil]
      exact ⟨length_pending_le _, rfl⟩
  case filled =>
      intro hnot
      rw [hprimed] at hnot
      contradiction
  case filling =>
      intro _
      exact ⟨by simp [Wbscopc.step, hreset], Or.inl rfl⟩

/-- A scope whose memory is not full forces all words to be values. -/
theorem Recorded.writesValue (h : Recorded maxStep v samples written ws p)
    (hfirst : p.record ws = [.count 0]) :
  p.writesValue = true
  := by
  have hforce : p.drForceWrite = true := by
    cases hprimed : p.drPrimed with
    | false => apply (h.filling hprimed).1
    | true =>
        have hlong := h.filled hprimed
        rw [hfirst, List.length_singleton] at hlong
        have := Nat.two_pow_pos lg
        omega
  rw [Wbscopc.writesValue, hforce, Bool.or_true, Bool.true_or]

/-- The words that leave the registers at a clock. -/
def leaving (p : Wbscopc lg e b st) (i : Input e) : List (Word (BitVec 31)) :=
  if i.iCe then Word.written p.lst p.imm else []

/-- The sample of a clock. -/
def sampled (i : Input e) : List (BitVec 31) := if i.iCe then [i.iData.setWidth 31] else []

theorem pending_step (hstop : p.drStopPipe.getLsbD 2 = false) :
  (p.step i maxStep).pending.map wordOf = p.leaving i
  := by
  have hlst : p.lst.isCount = p.lstAdr := isCount_scopeWord _ _
  have himm : p.imm.isCount = p.immAdr := isCount_scopeWord _ _
  rw [leaving, Word.written, hlst, himm]
  cases hce : i.iCe with
  | false => simp [pending, Wbscopc.step, hce]
  | true =>
      cases hboth : p.lstAdr && p.immAdr with
      | true =>
          have hnone : (!p.lstAdr || !p.immAdr) = false := by rw [← Bool.not_and, hboth]; rfl
          simp [pending, Wbscopc.step, hnone]
      | false =>
          have hsome : (!p.lstAdr || !p.immAdr) = true := by rw [← Bool.not_and, hboth]; rfl
          have hdata : (p.step i maxStep).rData = BitVec.ofBool p.lstAdr ++ p.lstVal := by
            simp only [Wbscopc.step, hsome, if_true]
          have hrecord : (p.step i maxStep).recordCe = true := by
            simp only [Wbscopc.step, hsome, hce, hstop, Bool.and_self, Bool.not_false]
          rw [pending, hrecord, if_pos rfl, hdata, List.map_singleton, wordOf_append]
          rfl

theorem record_leaving (hst : st ≤ 31) (hreset : p.dwReset = false) :
  (p.step i maxStep).record (ws ++ p.leaving i)
    = if i.iCe then Word.add (p.record ws) p.nextWord else p.record ws
  := by
  rw [leaving]
  cases hce : i.iCe with
  | true => rw [if_pos rfl, if_pos rfl, record_step hst hreset hce]
  | false =>
      rw [if_neg Bool.false_ne_true, if_neg Bool.false_ne_true, List.append_nil]
      simp [record, lst, imm, Wbscopc.step, hreset, hce]

/-- The record does not get shorter. -/
theorem length_record_le (hst : st ≤ 31) (hreset : p.dwReset = false) :
  (p.record ws).length ≤ ((p.step i maxStep).record (ws ++ p.leaving i)).length
  := by
  rw [record_leaving hst hreset]
  split_ifs
  · apply Word.length_le_add
  · apply Nat.le_refl

theorem Recorded.recording_step (hst : st ≤ 31) (hmax : maxStep ≠ 0)
    (h : Recorded maxStep v samples written ws p) (hreset : p.dwReset = false) :
  Recording maxStep v (samples ++ sampled i) (ws ++ p.leaving i) (p.step i maxStep)
  := by
  rw [sampled, leaving]
  cases hce : i.iCe with
  | true => apply h.recording.sample hst hmax hreset hce h.writesValue
  | false =>
      rw [if_neg Bool.false_ne_true, if_neg Bool.false_ne_true, List.append_nil, List.append_nil]
      apply h.recording.idle hreset hce

/-- When the memory has just been filled, the record is longer than the memory. -/
theorem Recorded.length_of_full (hlg : 1 ≤ lg) (h : Recorded maxStep v samples written ws p)
    (hprimed : p.drPrimed = false) (hfull : 2 ^ lg ≤ (written ++ p.pending).length) :
  2 ^ lg + 1 ≤ (p.record ws).length
  := by
  have htwo : 2 ^ 1 ≤ 2 ^ lg := Nat.pow_le_pow_right (by decide) hlg
  obtain ⟨stray, hstray, hout⟩ := h.out
  have hlength := congrArg List.length hout
  rw [List.length_map, List.length_append] at hlength
  rw [List.length_append] at hfull hlength
  rcases (h.filling hprimed).2 with hnone | htwo'
  · rw [hnone, List.length_nil] at hlength
    omega
  · omega

theorem drPrimed_of_step (hreset : p.dwReset = false)
    (hprimed : (p.step i maxStep).drPrimed = false) :
  p.drPrimed = false
  := by
  simp only [Wbscopc.step, hreset, Bool.false_eq_true, if_false] at hprimed
  split_ifs at hprimed
  · rw [Bool.or_eq_false_iff] at hprimed
    apply hprimed.1
  · apply hprimed

/-- Words are recorded, clock by clock. -/
theorem Recorded.step (hlg : 1 ≤ lg) (hst : st ≤ 31) (hmax : maxStep ≠ 0)
    (h : Recorded maxStep v samples written ws p) (hstored : Stored written p)
    (hreset : p.dwReset = false) (hstop : p.drStopPipe.getLsbD 2 = false) :
  Recorded maxStep v (samples ++ sampled i) (written ++ p.pending) (ws ++ p.leaving i)
      (p.step i maxStep)
  := by
  have hlonger := @length_record_le _ _ _ _ maxStep ws p i hst hreset
  constructor
  case recording => apply h.recording_step hst hmax hreset
  case out =>
      obtain ⟨stray, hstray, hout⟩ := h.out
      use stray, hstray
      rw [List.map_append, pending_step hstop, hout, List.append_assoc]
  case filled =>
      intro hprimed
      cases hbefore : p.drPrimed with
      | true =>
          have hlong := h.filled hbefore
          omega
      | false =>
          have hstored' := @Stored.step _ _ _ _ maxStep _ _ i hstored hreset
          rw [hstored'.drPrimed, decide_eq_true_eq] at hprimed
          have hlong := h.length_of_full hlg hbefore hprimed
          omega
  case filling =>
      intro hprimed
      have hbefore := drPrimed_of_step hreset hprimed
      obtain ⟨hforce, hshape⟩ := h.filling hbefore
      constructor
      · simp [Wbscopc.step, hreset, hbefore, hforce]
      · rw [record_leaving hst hreset, leaving]
        cases hce : i.iCe with
        | false =>
            rw [if_neg Bool.false_ne_true, if_neg Bool.false_ne_true, List.append_nil]
            apply hshape
        | true =>
            have hvalue : p.writesValue = true := by
              rw [Wbscopc.writesValue, hforce, Bool.or_true, Bool.true_or]
            have hhand := Word.length_inHand p.lst p.imm
            rw [if_pos rfl, if_pos rfl, nextWord, hvalue, if_pos rfl, Word.length_add_value]
            rw [record, List.length_append] at hshape ⊢
            rw [List.length_append]
            rcases hshape with rfl | hshape
            · cases hboth : Word.written p.lst p.imm with
              | nil =>
                  left
                  rfl
              | cons w out =>
                  right
                  rw [hboth] at hhand
                  rw [hhand]
                  simp
            · right
              omega

end Step

end Wbscopc

end ZBasic
