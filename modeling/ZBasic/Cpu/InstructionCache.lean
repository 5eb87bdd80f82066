import Mathlib.Data.Nat.Count
import ZBasic.Cpu.LineFill

/-!
# The instruction cache serves the words of memory

A word that is valid and not illegal is the one in memory, and an illegal one is in a line whose
reading has ended in a bus error. The words taken are those at consecutive addresses, but for one
that gets lost: while an aborted line is still being read, words that are in the cache are served;
when that line ends in a bus error, the word of the next clock is not shown, and yet the cache goes
on to the next one if the CPU is ready.
-/

namespace ZBasic

open Clocked Wishbone

namespace Pfcache

variable {t l s : ℕ}

/-- What the registers say of each other and of the memory. -/
structure Inv (mem : BitVec (t + l + s) → BitVec 32) (pending : List (BitVec (t + l + s)))
    (p : Pfcache t l s) : Prop where
  /-- A line that is valid is there. -/
  valid : ∀ line, p.validMask (setOf line) = true → p.cacheTags (setOf line) = tagOf line →
    p.Holds mem line
  /-- The tag that was read is that of the line wanted, if it is valid. -/
  tagval : p.validMask (setOf p.lasttag) = true → p.tagval = p.cacheTags (setOf p.lasttag)
  oPc : p.oPc = p.lastpc
  oInsn : p.fromCache = true → p.oInsn = mem (wordOf p.oPc)
  rNewRequest : p.rNewRequest = true → p.fromCache = false
  oWbStb : p.oWbCyc = false → p.oWbStb = false
  /-- A line whose last word has come is there. -/
  svmask : p.svmask = true → p.oWbCyc = false
    ∧ ∀ line, setOf line = p.saddr → p.cacheTags p.saddr = tagOf line → p.Holds mem line
  fetching : p.oWbCyc = true → ∃ line w r, p.Fetching mem pending line w r

section Step

variable {mem mem' : BitVec (t + l + s) → BitVec 32} {pending : List (BitVec (t + l + s))}
  {p : Pfcache t l s} {i : Input t l s} {line : BitVec (t + l)} {w r : ℕ}

/-! ### Without a reset or a clear -/

theorem oPc_step :
  (p.step i).oPc = (p.step i).lastpc
  := rfl

theorem lastpc_step :
  (p.step i).lastpc = if p.wAdvance i then i.iPc else p.lastpc
  := rfl

/-- A cycle that is going on does not set the valid mask. -/
theorem Inv.svmask_of_oWbCyc (h : p.Inv mem pending) (hcyc : p.oWbCyc = true) :
  p.svmask = false
  := by
  cases hsv : p.svmask with
  | true =>
      rw [(h.svmask hsv).1] at hcyc
      contradiction
  | false => rfl

/-- Where a place stays valid the tag stays as it is. -/
theorem Inv.cacheTags_step (h : p.Inv mem pending) {place : BitVec l}
    (hvalid : (p.step i).validMask place = true) :
  (p.step i).cacheTags place = p.cacheTags place
  := by
  cases hcyc : p.oWbCyc with
  | false => simp [step, hcyc]
  | true =>
      obtain ⟨line, w, r, hfetch⟩ := h.fetching hcyc
      have hnot := hfetch.validMask_step (i := i) hcyc (h.svmask_of_oWbCyc hcyc)
      have hne : place ≠ setOf line := by
        rintro rfl
        rw [hnot] at hvalid
        contradiction
      simp only [step, hcyc, Bool.true_and, hfetch.oWbAddr, lineOf_append]
      split_ifs
      · rw [Function.update_of_ne hne]
      · rfl

/-- A place that becomes valid holds the line whose last word has come. -/
theorem validMask_of_step {place : BitVec l} (hvalid : (p.step i).validMask place = true) :
  p.validMask place = true ∨ p.svmask = true ∧ place = p.saddr
  := by
  simp only [step] at hvalid
  split_ifs at hvalid with hclear hload hset
  · right
    rw [Bool.and_eq_true, beq_iff_eq] at hset
    apply hset
  · left
    apply hvalid

/-- The words of a line stay in its place as long as it is valid. -/
theorem Inv.holds_step (h : p.Inv mem pending) (hholds : p.Holds mem line)
    (hvalid : (p.step i).validMask (setOf line) = true) :
  (p.step i).Holds mem line
  := by
  intro offset
  cases hcyc : p.oWbCyc with
  | false =>
      simp only [step, hcyc, Bool.false_eq_true, if_false]
      apply hholds
  | true =>
      obtain ⟨line', w, r, hfetch⟩ := h.fetching hcyc
      have hnot := hfetch.validMask_step (i := i) hcyc (h.svmask_of_oWbCyc hcyc)
      simp only [step, hcyc, if_true, hfetch.wraddr]
      rw [Function.update_of_ne]
      · apply hholds
      · intro heq
        rw [← set_of_append heq, hvalid] at hnot
        contradiction

theorem Inv.valid_step (h : p.Inv mem pending)
    (hvalid : (p.step i).validMask (setOf line) = true)
    (htag : (p.step i).cacheTags (setOf line) = tagOf line) :
  (p.step i).Holds mem line
  := by
  rw [h.cacheTags_step hvalid] at htag
  rcases validMask_of_step hvalid with hbefore | ⟨hsv, hplace⟩
  · apply h.holds_step (h.valid line hbefore htag) hvalid
  · rw [hplace] at htag
    apply h.holds_step ((h.svmask hsv).2 line hplace htag) hvalid

/-- The tag of the line wanted next is the one that is looked up. -/
theorem tagval_step :
  (p.step i).tagval = p.cacheTags (setOf (p.step i).lasttag)
  := by
  rw [tagval, lasttag, lastpc_step]
  cases hadv : p.wAdvance i with
  | true => simp only [step, hadv, if_true]
  | false => simp only [step, hadv, Bool.false_eq_true, if_false, lasttag]

/-- A word that comes from the cache is the one in memory. -/
theorem Inv.oInsn_step (h : p.Inv mem pending) (hfrom : (p.step i).fromCache = true) :
  (p.step i).oInsn = mem (wordOf (p.step i).oPc)
  := by
  have hword : ∀ a : BitVec (t + l + s), lineOf a = p.lasttag → p.tagval = tagOf (lineOf a) →
      p.validMask (setOf (lineOf a)) = true → p.cache (a.extractLsb' 0 (l + s)) = mem a := by
    intro a hline htag hvalid
    have htags := h.tagval (by rw [← hline]; exact hvalid)
    rw [extract_index, h.valid (lineOf a) hvalid (by rw [hline, ← htags, htag, hline]),
      append_line_offset]
  rw [oPc_step, lastpc_step]
  rw [fromCache] at hfrom
  cases hadv : p.wAdvance i with
  | true =>
      have hinsn : (p.step i).oInsn = p.cache ((wordOf i.iPc).extractLsb' 0 (l + s)) := by
        rw [Pfcache.oInsn]
        simp only [step, hadv, if_true]
      simp only [step, hadv, Bool.or_true, if_true, Bool.and_eq_true] at hfrom
      have hlook := hfrom.1.1
      rw [wVFromPc, Bool.and_eq_true, Bool.and_eq_true, beq_iff_eq, beq_iff_eq] at hlook
      rw [hinsn, if_pos rfl]
      apply hword _ hlook.1.1 hlook.1.2 hlook.2
  | false =>
      have hinsn : (p.step i).oInsn = p.cache ((wordOf p.lastpc).extractLsb' 0 (l + s)) := by
        rw [Pfcache.oInsn]
        simp only [step, hadv, Bool.false_eq_true, if_false]
      have hlook : p.wVFromLast = true := by
        simp only [step, hadv, Bool.or_false] at hfrom
        split_ifs at hfrom with hinv
        · simp [Input.wInvalidateResult, hinv] at hfrom
        · rw [Bool.and_eq_true] at hfrom
          apply hfrom.1
      rw [wVFromLast, Bool.and_eq_true, beq_iff_eq] at hlook
      rw [hinsn, if_neg Bool.false_ne_true]
      apply hword _ rfl hlook.1 hlook.2

theorem rNewRequest_step (hnew : (p.step i).rNewRequest = true) :
  (p.step i).fromCache = false
  := by
  have hinv : i.wInvalidateResult = true := hnew
  rw [fromCache]
  simp only [step, hinv, Bool.not_true, Bool.and_false, Bool.false_and]
  split_ifs <;> rfl

/-! ### The end of a cycle -/

theorem Fetching.oWbStb_of_end (h : p.Fetching mem pending line w r) (hcyc : p.oWbCyc = true)
    (hbus : (p.read i).Answers mem pending) (hnext : (p.step i).oWbCyc = false) :
  (p.step i).oWbStb = false
  := by
  cases hclear : i.iReset || i.iClearCache with
  | true => simp only [step, hclear, if_true]
  | false =>
      cases herr : i.iWbErr with
      | true => simp [step, hclear, hcyc, herr]
      | false =>
          have hdone : i.iWbAck = true ∧ p.lastAck = true := by
            simpa [step, hclear, hcyc, herr] using hnext
          have hlt := (h.data hcyc hbus hdone.1).1
          have hw : w + 1 = 2 ^ s := by
            have hlast := hdone.2
            rw [h.lastAck, decide_eq_true_eq] at hlast
            apply hlast
          have hbound := h.bound
          have hasked : 2 ^ s ≤ r + (p.request i).toNat := by omega
          rw [h.request_toNat] at hasked
          simp only [step, hclear, hcyc, herr, h.oWbStb, h.lastAddr, Bool.false_eq_true, if_false,
            if_true, Bool.not_false, Bool.and_true]
          split_ifs at hasked with hasks
          · simp [hasks.2, hasked]
          · rw [decide_eq_false (by omega), Bool.false_and]

/-- When the last word has come, all words of the line are there. -/
theorem Fetching.holds_of_end (h : p.Fetching mem pending line w r) (hcyc : p.oWbCyc = true)
    (hbus : (p.read i).Answers mem pending) (hack : i.iWbAck = true) (hlast : p.lastAck = true) :
  (p.step i).Holds mem line
  := by
  intro offset
  have hw : w + 1 = 2 ^ s := by
    rw [h.lastAck, decide_eq_true_eq] at hlast
    apply hlast
  have hfilled := h.filled_step hcyc hbus (k := offset.toNat) (by
    rw [hack, Bool.toNat_true, hw]
    apply offset.isLt)
  rw [BitVec.ofNat_toNat, BitVec.setWidth_eq] at hfilled
  apply hfilled

theorem Inv.svmask_step (h : p.Inv mem pending) (hbus : (p.read i).Answers mem pending)
    (hsv : (p.step i).svmask = true) :
  (p.step i).oWbCyc = false ∧ ∀ line, setOf line = (p.step i).saddr →
    (p.step i).cacheTags (p.step i).saddr = tagOf line → (p.step i).Holds mem line
  := by
  cases hclear : i.iReset || i.iClearCache with
  | true => simp [step, hclear] at hsv
  | false =>
      simp only [step, hclear, Bool.false_eq_true, if_false, Bool.and_eq_true] at hsv
      obtain ⟨⟨⟨hcyc, hack⟩, hlast⟩, -⟩ := hsv
      obtain ⟨line, w, r, hfetch⟩ := h.fetching hcyc
      have hsaddr : (p.step i).saddr = setOf line := by
        simp only [step, hcyc, hack, Bool.and_self, if_true, hfetch.wraddr]
        rw [extract_append_high _ _ (Nat.le_refl s), Nat.sub_self, extract_all]
      constructor
      · simp [step, hclear, hcyc, hack, hlast]
      · intro line' hplace htag
        have htag' := hfetch.cacheTags_step (i := i) hcyc (by rw [hack]; simp)
        rw [hsaddr] at hplace htag
        have hline : line' = line := line_ext (by rw [← htag, htag']) hplace
        rw [hline]
        apply hfetch.holds_of_end hcyc hbus hack hlast

/-! ### The start of a cycle -/

/-- Reading begins with the line of the address wanted. -/
theorem Inv.starts (h : p.Inv mem pending) (hs : 0 < s) (hcyc : p.oWbCyc = false)
    (hnext : (p.step i).oWbCyc = true) :
  (p.step i).Fetching mem ((p.read i).next pending) p.lasttag 0 0
  := by
  have htwo : 2 ^ 1 ≤ 2 ^ s := Nat.pow_le_pow_right (by decide) hs
  have hclear : (i.iReset || i.iClearCache) = false := by
    cases hclear : i.iReset || i.iClearCache with
    | true => simp [step, hclear] at hnext
    | false => rfl
  have hload : p.needload = true ∧ i.iNewPc = false := by
    simpa [step, hclear, hcyc] using hnext
  have hquiet : p.request i = false := by rw [request, h.oWbStb hcyc, Bool.false_and]
  constructor
  case lt => omega
  case le => apply Nat.le_refl
  case bound => omega
  case oWbStb => simp [step, hclear, hcyc, hload.1, hload.2]
  case oWbAddr => simp [step, hcyc, hquiet]
  case lastAddr =>
      rw [decide_eq_false (by omega)]
      simp [step, hcyc]
  case wraddr => simp [step, hcyc]
  case lastAck =>
      rw [decide_eq_false (by omega)]
      simp [step, hcyc]
  case pending =>
      have hcyc' : (p.read i).cyc = false := hcyc
      rw [Read.next, hcyc', if_neg Bool.false_ne_true, window_self]
  case filled =>
      intro k hk
      omega
  case cacheTags =>
      intro hw
      omega
  case validMask => simp [step, hclear, hcyc, hload.1]

/-! ### A clock -/

/-- After a reset or a clear nothing in the cache is valid. -/
theorem inv_of_clear (hclear : i.wInvalidateResult = true) :
  (p.step i).Inv mem' ((p.read i).next pending)
  := by
  have hclear' : (i.iReset || i.iClearCache) = true := hclear
  have hnone : ∀ place, (p.step i).validMask place = false := by
    intro place
    simp only [step, hclear', if_true]
  have hfrom : (p.step i).fromCache = false := rNewRequest_step hclear
  constructor
  case valid =>
      intro line hvalid
      rw [hnone] at hvalid
      contradiction
  case tagval =>
      intro hvalid
      rw [hnone] at hvalid
      contradiction
  case oPc => apply oPc_step
  case oInsn =>
      intro hnot
      rw [hfrom] at hnot
      contradiction
  case rNewRequest =>
      intro _
      apply hfrom
  case oWbStb => simp [step, hclear']
  case svmask => simp [step, hclear']
  case fetching => simp [step, hclear']

/-- What the registers say of each other stays true. -/
theorem Inv.step (h : p.Inv mem pending) (hs : 0 < s) (hbus : (p.read i).Answers mem pending)
    (hmem : i.iClearCache = false → mem' = mem) :
  (p.step i).Inv mem' ((p.read i).next pending)
  := by
  cases hclear : i.wInvalidateResult with
  | true => apply inv_of_clear hclear
  | false =>
      have hsame : mem' = mem := by
        apply hmem
        rw [Input.wInvalidateResult, Bool.or_eq_false_iff] at hclear
        apply hclear.2
      subst hsame
      constructor
      case valid =>
          intro line
          apply h.valid_step
      case tagval =>
          intro hvalid
          rw [tagval_step, h.cacheTags_step hvalid]
      case oPc => apply oPc_step
      case oInsn => apply h.oInsn_step
      case rNewRequest => apply rNewRequest_step
      case oWbStb =>
          intro hnext
          cases hcyc : p.oWbCyc with
          | true =>
              obtain ⟨line, w, r, hfetch⟩ := h.fetching hcyc
              apply hfetch.oWbStb_of_end hcyc hbus hnext
          | false =>
              have hclear' : (i.iReset || i.iClearCache) = false := hclear
              have hstb := h.oWbStb hcyc
              simp only [Pfcache.step, hclear', hcyc, Bool.false_eq_true, if_false] at hnext ⊢
              rw [hnext, if_neg Bool.false_ne_true, hstb]
      case svmask => apply h.svmask_step hbus
      case fetching =>
          intro hnext
          cases hcyc : p.oWbCyc with
          | true =>
              obtain ⟨line, w, r, hfetch⟩ := h.fetching hcyc
              exact ⟨_, _, _, hfetch.step_of_oWbCyc hs hcyc (h.svmask_of_oWbCyc hcyc) hbus hnext⟩
          | false => exact ⟨_, _, _, h.starts hs hcyc hnext⟩

/-! ### Illegal lines -/

/-- The lines whose reading has ended in a bus error account for what is illegal. -/
structure Blamed (errored : List (BitVec (t + l))) (p : Pfcache t l s) : Prop where
  illegalCache : p.illegalValid = true → p.illegalCache ∈ errored
  /-- A line that has just ended in an error is not the one served. -/
  prior : p.rPriorIllegal = true → p.fromCache = true → p.illegalCache ≠ p.lasttag
  oIllegal : p.oIllegal = true → lineOf (wordOf p.oPc) ∈ errored

/-- The line that ends in an error at a clock. -/
def failing (p : Pfcache t l s) (i : Input t l s) : List (BitVec (t + l)) :=
  if p.oWbCyc && i.iWbErr then [lineOf p.oWbAddr] else []

/-- A word that comes from the cache is in a line that was valid. -/
theorem validMask_of_fromCache (hfrom : (p.step i).fromCache = true) :
  p.validMask (setOf (p.step i).lasttag) = true
  := by
  rw [lasttag, lastpc_step]
  rw [fromCache] at hfrom
  cases hadv : p.wAdvance i with
  | true =>
      simp only [step, hadv, Bool.or_true, if_true, Bool.and_eq_true] at hfrom
      have hlook := hfrom.1.1
      rw [wVFromPc, Bool.and_eq_true] at hlook
      rw [if_pos rfl]
      apply hlook.2
  | false =>
      rw [if_neg Bool.false_ne_true]
      simp only [step, hadv, Bool.or_false] at hfrom
      split_ifs at hfrom with hinv
      · simp [Input.wInvalidateResult, hinv] at hfrom
      · rw [Bool.and_eq_true, wVFromLast, Bool.and_eq_true] at hfrom
        apply hfrom.1.2

theorem Inv.prior_step (h : p.Inv mem pending) (hprior : (p.step i).rPriorIllegal = true)
    (hfrom : (p.step i).fromCache = true) :
  (p.step i).illegalCache ≠ (p.step i).lasttag
  := by
  have herr : p.oWbCyc = true ∧ i.iWbErr = true := by simpa [Pfcache.step] using hprior
  obtain ⟨line, w, r, hfetch⟩ := h.fetching herr.1
  have hvalid := validMask_of_fromCache hfrom
  have hclear : (i.iReset || i.iClearCache) = false := by
    cases hclear : i.iReset || i.iClearCache with
    | true =>
        have hnew : (p.step i).rNewRequest = true := hclear
        rw [rNewRequest_step hnew] at hfrom
        contradiction
    | false => rfl
  have hillegal : (p.step i).illegalCache = line := by
    simp only [Pfcache.step, hclear, herr.1, herr.2, hfetch.oWbAddr, lineOf_append, Bool.false_eq_true,
      if_false, Bool.and_self, if_true]
  intro hsame
  rw [← hsame, hillegal, hfetch.validMask] at hvalid
  contradiction

/-- The word that is there comes from the cache. -/
theorem Inv.rV_eq (h : p.Inv mem pending) :
  p.rV = p.fromCache
  := by
  rw [rV]
  cases hnew : p.rNewRequest with
  | true => rw [h.rNewRequest hnew, Bool.false_and]
  | false => rw [Bool.not_false, Bool.and_true]

/-- While the CPU does not take a word the cache stays at it, but after an error. -/
theorem Inv.wAdvance_eq_false (h : p.Inv mem pending) (hnew : i.iNewPc = false)
    (hprior : p.rPriorIllegal = true → p.fromCache = true → i.iStallN = false)
    (htaken : (p.oValid i && i.iStallN) = false) :
  p.wAdvance i = false
  := by
  rw [wAdvance, hnew, Bool.false_or, h.rV_eq]
  rw [oValid, hnew] at htaken
  cases hfrom : p.fromCache with
  | false => rw [Bool.false_and]
  | true =>
      cases hillegal : p.rPriorIllegal with
      | true => rw [hprior hillegal hfrom, Bool.and_false]
      | false => simpa [hfrom, hillegal] using htaken

theorem Blamed.step {errored : List (BitVec (t + l))} (h : p.Blamed errored)
    (hinv : p.Inv mem pending) :
  (p.step i).Blamed (if i.wInvalidateResult then [] else errored ++ p.failing i)
  := by
  cases hclear : i.wInvalidateResult with
  | true =>
      have hclear' : (i.iReset || i.iClearCache) = true := hclear
      have hfrom : (p.step i).fromCache = false := rNewRequest_step hclear
      constructor
      case illegalCache => simp [Pfcache.step, hclear']
      case prior =>
          intro _ hnot
          rw [hfrom] at hnot
          contradiction
      case oIllegal => simp [Pfcache.step, hclear']
  | false =>
      have hclear' : (i.iReset || i.iClearCache) = false := hclear
      rw [if_neg Bool.false_ne_true]
      constructor
      case illegalCache =>
          intro hvalid
          rw [failing]
          simp only [Pfcache.step, hclear', Bool.false_eq_true, if_false] at hvalid ⊢
          split_ifs at hvalid ⊢
          · simp
          · rw [List.append_nil]
            apply h.illegalCache hvalid
      case prior => apply hinv.prior_step
      case oIllegal =>
          intro hillegal
          simp only [Pfcache.step, hclear', Bool.false_or] at hillegal
          split_ifs at hillegal with hnew htaken
          rw [Bool.and_eq_true, beq_iff_eq] at hillegal
          rw [Bool.or_eq_true, not_or, Bool.not_eq_true, Bool.not_eq_true] at htaken
          rw [Bool.not_eq_true] at hnew
          have hstays : p.wAdvance i = false := by
            apply hinv.wAdvance_eq_false hnew _ htaken.2
            intro hprior hfrom
            cases h.prior hprior hfrom hillegal.2
          rw [oPc_step, lastpc_step, hstays, if_neg Bool.false_ne_true]
          apply List.mem_append_left
          have hline := h.illegalCache hillegal.1
          rw [hillegal.2] at hline
          apply hline

end Step

/-! ### Runs -/

section Runs

variable (mem : ℕ → BitVec (t + l + s) → BitVec 32) (s₀ : Pfcache t l s) (inp : ℕ → Input t l s)

/-- The registers before the clock `n`. -/
def state (n : ℕ) : Pfcache t l s := run step s₀ inp n

/-- The requests on the bus that are not answered before clock `n`. -/
def pending (n : ℕ) : List (BitVec (t + l + s)) :=
  unanswered (fun k => (state s₀ inp k).read (inp k)) n

/-- The lines whose reading has ended in a bus error since the cache was last cleared. -/
def errored (n : ℕ) : List (BitVec (t + l)) :=
  logSince (fun k => (inp k).wInvalidateResult) (fun k => (state s₀ inp k).failing (inp k)) n

/-- The CPU takes what is shown to it at clock `n`. -/
def taken (n : ℕ) : Bool := (state s₀ inp n).oValid (inp n) && (inp n).iStallN

/-- How often it has done so after clock `m` and before clock `n`. -/
def takenBetween (m n : ℕ) : ℕ := Nat.count (fun k => m < k ∧ taken s₀ inp k = true) n

/-- At clock `n` the word that is there is not shown to a CPU that would take it, as a line has
ended in a bus error at the clock before. -/
def loses (n : ℕ) : Bool :=
  (state s₀ inp n).rPriorIllegal && (state s₀ inp n).fromCache && (inp n).iStallN
    && !(inp n).iNewPc

/-- The memory changes only where the cache is cleared, and the bus answers what it is asked in
order, with the words of the memory or an error. After a request, and after every word it takes,
the CPU gives the address of the next word, and until then the one it gave before. -/
structure Environment : Prop where
  steady : ∀ n, (inp n).iClearCache = false → mem (n + 1) = mem n
  bus : ∀ n, ((state s₀ inp n).read (inp n)).Answers (mem n) (pending s₀ inp n)
  advances : ∀ n, (inp (n + 1)).iNewPc = false →
    ((inp n).iNewPc || taken s₀ inp n) = true →
    wordOf (inp (n + 1)).iPc = wordOf (inp n).iPc + 1
  waits : ∀ n, (inp (n + 1)).iNewPc = false → ((inp n).iNewPc || taken s₀ inp n) = false →
    wordOf (inp (n + 1)).iPc = wordOf (inp n).iPc

/-- What makes the run from `s₀` on `inp` that of an instruction cache. -/
structure Serves : Prop where
  /-- A word that is not illegal is the one in memory. -/
  word : ∀ n, (state s₀ inp n).oValid (inp n) = true → (state s₀ inp n).oIllegal = false →
    (state s₀ inp n).oInsn = mem n (wordOf (state s₀ inp n).oPc)
  /-- Only words in lines whose reading has ended in a bus error are illegal. -/
  illegal : ∀ n, (state s₀ inp n).oIllegal = true →
    lineOf (wordOf (state s₀ inp n).oPc) ∈ errored s₀ inp n
  /-- Unless a word is lost or an illegal one was taken, the words from the requested one on are
  shown, each until it is taken. -/
  order : ∀ m n, (inp m).iNewPc = true → m < n →
    (∀ k, m < k → k < n → (inp k).iNewPc = false ∧ loses s₀ inp k = false
      ∧ (taken s₀ inp k && (state s₀ inp k).oIllegal) = false) →
    wordOf (state s₀ inp n).oPc
      = wordOf (inp m).iPc + BitVec.ofNat (t + l + s) (takenBetween s₀ inp m n)
  /-- Where a word is lost the cache goes on to the next one. -/
  lost : ∀ n, loses s₀ inp n = true → (state s₀ inp n).oValid (inp n) = false
    ∧ (state s₀ inp (n + 1)).oPc = (inp n).iPc

variable {mem s₀ inp}

theorem Initial.inv (h : s₀.Initial) (mem : BitVec (t + l + s) → BitVec 32) :
  s₀.Inv mem []
  := by
  have hfrom : s₀.fromCache = false := by
    rw [fromCache, h.rVFromPc, h.rVFromLast]
    split_ifs <;> rfl
  constructor
  case valid =>
      intro line hvalid
      rw [h.validMask] at hvalid
      contradiction
  case tagval =>
      intro hvalid
      rw [h.validMask] at hvalid
      contradiction
  case oPc =>
      rw [oPc, h.rPc, h.rLastpc, h.lastpc]
      split_ifs <;> rfl
  case oInsn =>
      intro hnot
      rw [hfrom] at hnot
      contradiction
  case rNewRequest =>
      intro _
      apply hfrom
  case oWbStb =>
      intro _
      apply h.oWbStb
  case svmask =>
      intro hsv
      rw [h.svmask] at hsv
      contradiction
  case fetching =>
      intro hcyc
      rw [h.oWbCyc] at hcyc
      contradiction

theorem run_inv (hs : 0 < s) (h₀ : s₀.Initial) (henv : Environment mem s₀ inp) (n : ℕ) :
  (state s₀ inp n).Inv (mem n) (pending s₀ inp n)
  := by
  induction n with
  | zero => apply h₀.inv
  | succ n ih => apply ih.step hs (henv.bus n) (henv.steady n)

theorem run_blamed (hs : 0 < s) (h₀ : s₀.Initial) (henv : Environment mem s₀ inp) (n : ℕ) :
  (state s₀ inp n).Blamed (errored s₀ inp n)
  := by
  induction n with
  | zero =>
      constructor
      case illegalCache =>
          intro hvalid
          have hnot := h₀.illegalValid
          rw [state, run_zero, hnot] at hvalid
          contradiction
      case prior =>
          intro hprior
          have hnot := h₀.rPriorIllegal
          rw [state, run_zero, hnot] at hprior
          contradiction
      case oIllegal =>
          intro hillegal
          have hnot := h₀.oIllegal
          rw [state, run_zero, hnot] at hillegal
          contradiction
  | succ n ih => apply ih.step (run_inv hs h₀ henv n)

/-! ### The order of the words -/

theorem wAdvance_of_iNewPc {n : ℕ} (hnew : (inp n).iNewPc = true) :
  (state s₀ inp n).wAdvance (inp n) = true
  := by rw [wAdvance, hnew, Bool.true_or]

theorem oPc_succ (n : ℕ) :
  (state s₀ inp (n + 1)).oPc
    = if (state s₀ inp n).wAdvance (inp n) then (inp n).iPc else (state s₀ inp n).lastpc
  := rfl

theorem run_oPc (hs : 0 < s) (h₀ : s₀.Initial) (henv : Environment mem s₀ inp) (n : ℕ) :
  (state s₀ inp n).oPc = (state s₀ inp n).lastpc
  := (run_inv hs h₀ henv n).oPc

/-- When a word that is not illegal is taken, the cache goes on to the next one. -/
theorem wAdvance_of_taken (hs : 0 < s) (h₀ : s₀.Initial) (henv : Environment mem s₀ inp) {n : ℕ}
    (htaken : taken s₀ inp n = true) (hlegal : (state s₀ inp n).oIllegal = false) :
  (state s₀ inp n).wAdvance (inp n) = true
  := by
  rw [taken, Bool.and_eq_true, oValid, hlegal, Bool.or_false, Bool.and_eq_true,
    Bool.and_eq_true] at htaken
  rw [wAdvance, (run_inv hs h₀ henv n).rV_eq, htaken.1.1.1, htaken.2, Bool.and_self, Bool.or_true]

/-- Where no word is taken or lost the cache stays at the one it is at. -/
theorem wAdvance_of_not_taken (hs : 0 < s) (h₀ : s₀.Initial) (henv : Environment mem s₀ inp)
    {n : ℕ} (hnew : (inp n).iNewPc = false) (hkept : loses s₀ inp n = false)
    (htaken : taken s₀ inp n = false) :
  (state s₀ inp n).wAdvance (inp n) = false
  := by
  apply (run_inv hs h₀ henv n).wAdvance_eq_false hnew _ htaken
  intro hprior hfrom
  simpa [loses, hprior, hfrom, hnew] using hkept

/-- The words shown since the request at clock `m`, and the word that the CPU asks for. -/
theorem run_order (hs : 0 < s) (h₀ : s₀.Initial) (henv : Environment mem s₀ inp) {m n : ℕ}
    (hnew : (inp m).iNewPc = true) (hlt : m < n)
    (hkept : ∀ k, m < k → k < n → (inp k).iNewPc = false ∧ loses s₀ inp k = false
      ∧ (taken s₀ inp k && (state s₀ inp k).oIllegal) = false) :
  wordOf (state s₀ inp n).oPc
      = wordOf (inp m).iPc + BitVec.ofNat (t + l + s) (takenBetween s₀ inp m n)
    ∧ ((inp n).iNewPc = false → wordOf (inp n).iPc = wordOf (state s₀ inp n).oPc + 1)
  := by
  induction hlt with
  | refl =>
      have hnone : takenBetween s₀ inp m (m + 1) = 0 := by
        rw [takenBetween, Nat.count_iff_forall_not]
        intro k hk htaken
        omega
      rw [hnone, oPc_succ, wAdvance_of_iNewPc hnew, if_pos rfl]
      constructor
      · rw [BitVec.add_zero]
      · intro hnext
        apply henv.advances m hnext
        rw [hnew, Bool.true_or]
  | @step n hlt ih =>
      obtain ⟨horder, hasks⟩ := ih (fun k hk hk' => hkept k hk (Nat.lt_succ_of_lt hk'))
      obtain ⟨hno, hlose, hillegal⟩ := hkept n hlt (Nat.lt_succ_self n)
      rw [oPc_succ, takenBetween, Nat.count_succ, ← takenBetween]
      cases htaken : taken s₀ inp n with
      | true =>
          rw [htaken, Bool.true_and] at hillegal
          rw [wAdvance_of_taken hs h₀ henv htaken hillegal, if_pos rfl, if_pos ⟨hlt, rfl⟩,
            BitVec.ofNat_add, ← BitVec.add_assoc, ← horder]
          constructor
          · apply hasks hno
          · intro hnext
            apply henv.advances n hnext
            rw [htaken, Bool.or_true]
      | false =>
          rw [wAdvance_of_not_taken hs h₀ henv hno hlose htaken, if_neg Bool.false_ne_true,
            if_neg (fun h => Bool.false_ne_true h.2), Nat.add_zero, ← run_oPc hs h₀ henv n,
            ← horder]
          constructor
          · rfl
          · intro hnext
            rw [henv.waits n hnext (by rw [hno, htaken, Bool.or_self])]
            apply hasks hno

theorem run_lost (hs : 0 < s) (h₀ : s₀.Initial) (henv : Environment mem s₀ inp) {n : ℕ}
    (hloses : loses s₀ inp n = true) :
  (state s₀ inp n).oValid (inp n) = false ∧ (state s₀ inp (n + 1)).oPc = (inp n).iPc
  := by
  rw [loses, Bool.and_eq_true, Bool.and_eq_true, Bool.and_eq_true] at hloses
  obtain ⟨⟨⟨hprior, hfrom⟩, hready⟩, -⟩ := hloses
  constructor
  · rw [oValid, hprior, Bool.not_true, Bool.and_false]
  · rw [oPc_succ, wAdvance, (run_inv hs h₀ henv n).rV_eq, hfrom, hready, Bool.and_self,
      Bool.or_true, if_pos rfl]

/-- The cache serves the words of memory, in whatever state it is powered up with. -/
theorem serves (hs : 0 < s) (h₀ : s₀.Initial) (henv : Environment mem s₀ inp) :
  Serves mem s₀ inp
  := by
  constructor
  case word =>
      intro n hvalid hlegal
      rw [oValid, hlegal, Bool.or_false, Bool.and_eq_true, Bool.and_eq_true] at hvalid
      apply (run_inv hs h₀ henv n).oInsn hvalid.1.1
  case illegal =>
      intro n
      apply (run_blamed hs h₀ henv n).oIllegal
  case order =>
      intro m n hnew hlt hkept
      apply (run_order hs h₀ henv hnew hlt hkept).1
  case lost =>
      intro n
      apply run_lost hs h₀ henv

end Runs

/-- The registers with an initial value have it, the others are zero. -/
def powerUp : Pfcache 1 1 2 where
  cache := fun _ => 0
  cacheTags := fun _ => 0
  validMask := fun _ => false
  rVFromPc := false
  rVFromLast := false
  rNewRequest := false
  rvsrc := false
  lastpc := 0
  wraddr := 0
  tagvalipc := 0
  tagvallst := 0
  illegalValid := false
  illegalCache := 0
  rPcCache := 0
  rLastCache := 0
  rPc := 0
  rLastpc := 0
  isrc := false
  delay := 3
  svmask := false
  lastAck := false
  needload := false
  lastAddr := false
  busAbort := false
  saddr := 0
  oWbCyc := false
  oWbStb := false
  oWbAddr := 0
  oIllegal := false
  rPriorIllegal := false

/-- What the memory of the run below holds. -/
def hundreds (a : BitVec (1 + 1 + 2)) : BitVec 32 := 0x100 + a.setWidth 32

/-- The CPU asks for the word at address 20, and takes it when it is there. The bus answers the
requests for the four words of its line at the clocks 7 to 10. -/
def askOnce (n : ℕ) : Input 1 1 2 where
  iReset := false
  iNewPc := n == 0
  iClearCache := false
  iStallN := n == 13
  iPc := if n = 0 then 20 else if n ≤ 13 then 24 else 28
  iWbStall := false
  iWbAck := 7 ≤ n ∧ n ≤ 10
  iWbErr := false
  iWbData := 0x104 + BitVec.ofNat 32 (n - 7)

/-- The word asked for is taken at clock 13, and at the next the word after it is shown. -/
theorem serves_askOnce :
  (state powerUp askOnce 14).oInsn = hundreds (wordOf (state powerUp askOnce 14).oPc)
    ∧ wordOf (t := 1) (l := 1) (s := 2) (state powerUp askOnce 14).oPc
      = 5 + BitVec.ofNat 4 (takenBetween powerUp askOnce 0 14)
  := by
  have h₀ : powerUp.Initial := by
    constructor <;> first | rfl | intro _; rfl
  have hlegal : ∀ n, n ≤ 14 → (state powerUp askOnce n).oIllegal = false
      ∧ (state powerUp askOnce n).rPriorIllegal = false := by decide +kernel
  have htaken : taken powerUp askOnce 13 = true := by decide +kernel
  have hwaits : ∀ n, n ≠ 13 → taken powerUp askOnce n = false := by
    intro n hn
    simp [taken, askOnce, hn]
  have henv : Environment (fun _ => hundreds) powerUp askOnce := by
    constructor
    case steady => simp
    case bus =>
        intro n
        have hanswers : ∀ n, n ≤ 10 → 7 ≤ n →
            (((state powerUp askOnce n).read (askOnce n)).asked
              (pending powerUp askOnce n)).head?.map hundreds = some (askOnce n).iWbData := by
          decide +kernel
        have hack : (askOnce n).iWbAck = true → 7 ≤ n ∧ n ≤ 10 := by simp [askOnce]
        constructor
        case asked =>
            intro hasked hnone
            have hn := hack (by simpa [read, askOnce] using hasked)
            have hword := hanswers n hn.2 hn.1
            rw [hnone] at hword
            contradiction
        case single => simp [read, askOnce]
        case data =>
            intro _ hasked
            have hn := hack hasked
            apply hanswers n hn.2 hn.1
    case advances =>
        intro n _ hasks
        rcases eq_or_ne n 13 with rfl | hn
        · decide
        · rw [hwaits n hn, Bool.or_false] at hasks
          obtain rfl : n = 0 := by simpa [askOnce] using hasks
          decide
    case waits =>
        intro n _ hstays
        rw [Bool.or_eq_false_iff] at hstays
        have hzero : n ≠ 0 := by simpa [askOnce] using hstays.1
        have hn : n ≠ 13 := by
          rintro rfl
          rw [htaken] at hstays
          cases hstays.2
        have hsame : (askOnce (n + 1)).iPc = (askOnce n).iPc := by
          simp only [askOnce, if_neg (Nat.succ_ne_zero n), if_neg hzero]
          split_ifs
          · rfl
          · omega
          · omega
          · rfl
        rw [hsame]
  have hserves := serves (by decide) h₀ henv
  constructor
  · apply hserves.word 14 (by decide +kernel) (hlegal 14 (Nat.le_refl 14)).1
  · apply hserves.order 0 14 rfl (by decide)
    intro k hk hk'
    obtain ⟨hill, hprior⟩ := hlegal k (by omega)
    rw [hill, Bool.and_false, loses, hprior]
    simp [askOnce, hk.ne']

end Pfcache

end ZBasic
