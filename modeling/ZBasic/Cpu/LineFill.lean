import ZBasic.Cpu.Pfcache

/-!
# Reading a line into the instruction cache

While a line is read its words are asked for and come one after the other. Until the last one has
come the place of the line in the cache is not valid.
-/

namespace ZBasic

open Clocked Wishbone

namespace Pfcache

variable {t l s : ℕ}

/-! ### What is in the cache -/

/-- The place in the cache of a line holds the words of that line. -/
def Holds (mem : BitVec (t + l + s) → BitVec 32) (p : Pfcache t l s) (line : BitVec (t + l)) :
    Prop :=
  ∀ offset : BitVec s, p.cache (setOf line ++ offset) = mem (line ++ offset)

/-- The words of a line, by their place in it. -/
def wordsOf (line : BitVec (t + l)) (k : ℕ) : BitVec (t + l + s) := line ++ BitVec.ofNat s k

/-- A line is being read: `w` of its words have come, and `r` have been asked for. -/
structure Fetching (mem : BitVec (t + l + s) → BitVec 32) (pending : List (BitVec (t + l + s)))
    (p : Pfcache t l s) (line : BitVec (t + l)) (w r : ℕ) : Prop where
  lt : w < 2 ^ s
  le : w ≤ r
  bound : r ≤ 2 ^ s
  oWbStb : p.oWbStb = decide (r < 2 ^ s)
  oWbAddr : p.oWbAddr = line ++ BitVec.ofNat s (min r (2 ^ s - 1))
  lastAddr : p.lastAddr = decide (2 ^ s ≤ r + 1)
  wraddr : p.wraddr = setOf line ++ BitVec.ofNat s w
  lastAck : p.lastAck = decide (w + 1 = 2 ^ s)
  pending : pending = window (wordsOf line) w r
  filled : ∀ k < w, p.cache (setOf line ++ BitVec.ofNat s k) = mem (line ++ BitVec.ofNat s k)
  cacheTags : 0 < w → p.cacheTags (setOf line) = tagOf line
  validMask : p.validMask (setOf line) = false

/-! ### Reading a line -/

section Fetch

variable {mem : BitVec (t + l + s) → BitVec 32} {pending : List (BitVec (t + l + s))}
  {p : Pfcache t l s} {i : Input t l s} {line : BitVec (t + l)} {w r : ℕ}

theorem Fetching.request (h : p.Fetching mem pending line w r) :
  p.request i = (decide (r < 2 ^ s) && !i.iWbStall)
  := by rw [Pfcache.request, h.oWbStb]

/-- The requests that can be answered at a clock. -/
theorem Fetching.asked (h : p.Fetching mem pending line w r) :
  (p.read i).asked pending = window (wordsOf line) w (r + (p.request i).toNat)
  := by
  have hrequest : (p.read i).request = if p.request i then some p.oWbAddr else none := rfl
  rw [Read.asked, h.pending, hrequest]
  cases hreq : p.request i with
  | false =>
      rw [if_neg Bool.false_ne_true, Option.toList_none, List.append_nil, Bool.toNat_false,
        Nat.add_zero]
  | true =>
      have hr : r < 2 ^ s := by
        rw [h.request, Bool.and_eq_true, decide_eq_true_eq] at hreq
        apply hreq.1
      have hmin : min r (2 ^ s - 1) = r := by omega
      rw [if_pos rfl, Bool.toNat_true, window_snoc _ h.le, h.oWbAddr, hmin]
      rfl

/-- The word that comes at a clock is the next one of the line. -/
theorem Fetching.data (h : p.Fetching mem pending line w r) (hcyc : p.oWbCyc = true)
    (hbus : (p.read i).Answers mem pending) (hack : i.iWbAck = true) :
  w < r + (p.request i).toNat ∧ i.iWbData = mem (line ++ BitVec.ofNat s w)
  := by
  have hanswer : ((p.read i).ack || (p.read i).err) = true := by
    rw [Bool.or_eq_true]
    left
    apply hack
  have hsome := hbus.asked hanswer
  have hdata := hbus.data hcyc hack
  rw [h.asked] at hsome hdata
  have hlt : w < r + (p.request i).toNat := by
    by_contra hge
    apply hsome
    rw [window, Nat.sub_eq_zero_of_le (Nat.le_of_not_lt hge)]
    rfl
  use hlt
  rw [window_cons _ hlt] at hdata
  apply (Option.some.inj hdata).symm

/-- The words that have come, with the one that comes at this clock. -/
theorem Fetching.filled_step (h : p.Fetching mem pending line w r) (hcyc : p.oWbCyc = true)
    (hbus : (p.read i).Answers mem pending) {k : ℕ} (hk : k < w + i.iWbAck.toNat) :
  (p.step i).cache (setOf line ++ BitVec.ofNat s k) = mem (line ++ BitVec.ofNat s k)
  := by
  have hlt := h.lt
  simp only [step, hcyc, if_true, h.wraddr]
  have hack := Bool.toNat_le i.iWbAck
  rcases Nat.lt_or_ge k w with hbefore | hlast
  · rw [Function.update_of_ne]
    · apply h.filled k hbefore
    · intro heq
      have := append_ofNat_inj (by omega) hlt heq
      omega
  · obtain rfl : k = w := by omega
    have hacked : i.iWbAck = true := by
      by_contra hnot
      rw [Bool.not_eq_true] at hnot
      rw [hnot, Bool.toNat_false] at hk
      omega
    rw [Function.update_self, (h.data hcyc hbus hacked).2]

/-- A cycle goes on at a clock without a reset, an error or the last acknowledgement. -/
theorem goes_on (hcyc : p.oWbCyc = true) (hnext : (p.step i).oWbCyc = true) :
  (i.iReset || i.iClearCache) = false ∧ i.iWbErr = false
    ∧ (i.iWbAck = true → p.lastAck = false)
  := by
  simp only [step, hcyc, if_true] at hnext
  cases hinv : i.iReset || i.iClearCache <;> cases herr : i.iWbErr <;>
    cases hack : i.iWbAck <;> simp_all

theorem Fetching.lt_step (h : p.Fetching mem pending line w r) (hcyc : p.oWbCyc = true)
    (hnext : (p.step i).oWbCyc = true) :
  w + i.iWbAck.toNat < 2 ^ s
  := by
  have hlt := h.lt
  cases hack : i.iWbAck with
  | false => rw [Bool.toNat_false]; omega
  | true =>
      have hmore := (goes_on hcyc hnext).2.2 hack
      rw [h.lastAck, decide_eq_false_iff_not] at hmore
      rw [Bool.toNat_true]
      omega

theorem Fetching.le_step (h : p.Fetching mem pending line w r) (hcyc : p.oWbCyc = true)
    (hbus : (p.read i).Answers mem pending) :
  w + i.iWbAck.toNat ≤ r + (p.request i).toNat
  := by
  have hle := h.le
  cases hack : i.iWbAck with
  | false => rw [Bool.toNat_false]; omega
  | true =>
      have := (h.data hcyc hbus hack).1
      rw [Bool.toNat_true]
      omega

theorem Fetching.request_toNat (h : p.Fetching mem pending line w r) :
  (p.request i).toNat = if r < 2 ^ s ∧ i.iWbStall = false then 1 else 0
  := by
  rw [h.request]
  by_cases hr : r < 2 ^ s <;> cases i.iWbStall <;> simp [hr]

theorem Fetching.bound_step (h : p.Fetching mem pending line w r) :
  r + (p.request i).toNat ≤ 2 ^ s
  := by
  have hbound := h.bound
  rw [h.request_toNat]
  split <;> omega

theorem Fetching.oWbStb_step (h : p.Fetching mem pending line w r) (hcyc : p.oWbCyc = true)
    (hnext : (p.step i).oWbCyc = true) :
  (p.step i).oWbStb = decide (r + (p.request i).toNat < 2 ^ s)
  := by
  obtain ⟨hinv, herr, -⟩ := goes_on hcyc hnext
  simp only [step, hinv, hcyc, if_true, Bool.false_eq_true, if_false, herr, Bool.not_false,
    Bool.and_true, h.oWbStb, h.lastAddr, h.request_toNat]
  cases i.iWbStall <;> grind

theorem Fetching.oWbAddr_step (h : p.Fetching mem pending line w r) (hcyc : p.oWbCyc = true) :
  (p.step i).oWbAddr = line ++ BitVec.ofNat s (min (r + (p.request i).toNat) (2 ^ s - 1))
  := by
  have hpos := Nat.two_pow_pos s
  simp only [step, hcyc, h.lastAddr, Bool.not_true, Bool.false_eq_true, if_false]
  cases hreq : p.request i with
  | false =>
      rw [Bool.false_and, if_neg Bool.false_ne_true, Bool.toNat_false, Nat.add_zero, h.oWbAddr]
  | true =>
      have hr := h.bound_step (i := i)
      rw [hreq, Bool.toNat_true] at hr
      rw [Bool.toNat_true, Bool.true_and]
      rcases Nat.lt_or_ge (r + 1) (2 ^ s) with hmore | hlast
      · have hmin : min r (2 ^ s - 1) = r := by omega
        have hmin' : min (r + 1) (2 ^ s - 1) = r + 1 := by omega
        rw [if_pos (by simpa using hmore), h.oWbAddr, lineOf_append, offsetOf_append, hmin, hmin',
          BitVec.ofNat_add]
        rfl
      · have hmin : min r (2 ^ s - 1) = min (r + 1) (2 ^ s - 1) := by omega
        rw [if_neg (by simpa using hlast), h.oWbAddr, hmin]

theorem Fetching.lastAddr_step (h : p.Fetching mem pending line w r) (hs : 0 < s)
    (hcyc : p.oWbCyc = true) :
  (p.step i).lastAddr = decide (2 ^ s ≤ r + (p.request i).toNat + 1)
  := by
  have hpow : 2 ^ s = 2 * 2 ^ (s - 1) := (mul_pow_sub_one hs.ne' 2).symm
  have hbound := h.bound
  have hmin : min r (2 ^ s - 1) < 2 ^ s := by
    have := Nat.two_pow_pos s
    omega
  simp only [step, hcyc, Bool.not_true, Bool.false_eq_true, if_false, h.oWbAddr, h.lastAddr,
    offsetOf_append, nearEnd_ofNat hs hmin, getLsbD_append_ofNat _ hs, h.request_toNat]
  cases i.iWbStall <;> grind

theorem Fetching.wraddr_step (h : p.Fetching mem pending line w r) (hcyc : p.oWbCyc = true)
    (hnext : (p.step i).oWbCyc = true) :
  (p.step i).wraddr = setOf line ++ BitVec.ofNat s (w + i.iWbAck.toNat)
  := by
  have hlt := h.lt_step hcyc hnext
  have hmore := (goes_on hcyc hnext).2.2
  simp only [step, hcyc, Bool.true_and, Bool.not_true, Bool.false_eq_true, if_false]
  cases hack : i.iWbAck with
  | false => rw [Bool.false_and, if_neg Bool.false_ne_true, h.wraddr, Bool.toNat_false,
      Nat.add_zero]
  | true =>
      rw [hack, Bool.toNat_true] at hlt
      rw [hmore hack, Bool.not_false, Bool.and_true, if_pos rfl, h.wraddr,
        append_ofNat_succ _ hlt, Bool.toNat_true]

theorem Fetching.lastAck_step (h : p.Fetching mem pending line w r) (hs : 0 < s)
    (hcyc : p.oWbCyc = true) (hnext : (p.step i).oWbCyc = true) :
  (p.step i).lastAck = decide (w + i.iWbAck.toNat + 1 = 2 ^ s)
  := by
  have hpow : 2 ^ s = 2 * 2 ^ (s - 1) := (mul_pow_sub_one hs.ne' 2).symm
  have hlt := h.lt_step hcyc hnext
  have hlow : (setOf line ++ BitVec.ofNat s w).extractLsb' 0 s = BitVec.ofNat s w := by
    rw [extract_append_low _ _ (by omega), extract_all]
  simp only [step, hcyc, Bool.true_and, h.wraddr, hlow, nearEnd_ofNat hs h.lt,
    getLsbD_append_ofNat _ hs]
  cases hack : i.iWbAck <;> rw [hack] at hlt <;> grind

theorem Fetching.pending_step (h : p.Fetching mem pending line w r) (hcyc : p.oWbCyc = true)
    (hbus : (p.read i).Answers mem pending) (hnext : (p.step i).oWbCyc = true) :
  (p.read i).next pending
    = window (wordsOf line) (w + i.iWbAck.toNat) (r + (p.request i).toNat)
  := by
  have hcyc' : (p.read i).cyc = true := hcyc
  have hanswered : (p.read i).answered = i.iWbAck := by
    change (p.oWbCyc && (i.iWbAck || i.iWbErr)) = i.iWbAck
    rw [hcyc, (goes_on hcyc hnext).2.1, Bool.or_false, Bool.true_and]
  rw [Read.next, if_pos hcyc', hanswered, h.asked]
  cases hack : i.iWbAck with
  | false => rw [if_neg Bool.false_ne_true, Bool.toNat_false, Nat.add_zero]
  | true =>
      rw [if_pos rfl, window_cons _ (h.data hcyc hbus hack).1]
      rfl

theorem Fetching.cacheTags_step (h : p.Fetching mem pending line w r) (hcyc : p.oWbCyc = true)
    (hw : 0 < w + i.iWbAck.toNat) :
  (p.step i).cacheTags (setOf line) = tagOf line
  := by
  simp only [step, hcyc, Bool.true_and, h.oWbAddr, lineOf_append]
  cases hack : i.iWbAck with
  | false =>
      rw [hack, Bool.toNat_false] at hw
      apply h.cacheTags hw
  | true => rw [if_pos rfl, Function.update_self]

theorem Fetching.validMask_step (h : p.Fetching mem pending line w r) (hcyc : p.oWbCyc = true)
    (hsv : p.svmask = false) :
  (p.step i).validMask (setOf line) = false
  := by simp [step, hcyc, hsv, h.validMask]

/-- One clock of reading a line. -/
theorem Fetching.step_of_oWbCyc (h : p.Fetching mem pending line w r) (hs : 0 < s)
    (hcyc : p.oWbCyc = true) (hsv : p.svmask = false) (hbus : (p.read i).Answers mem pending)
    (hnext : (p.step i).oWbCyc = true) :
  (p.step i).Fetching mem ((p.read i).next pending) line (w + i.iWbAck.toNat)
    (r + (p.request i).toNat)
  where
  lt := h.lt_step hcyc hnext
  le := h.le_step hcyc hbus
  bound := h.bound_step
  oWbStb := h.oWbStb_step hcyc hnext
  oWbAddr := h.oWbAddr_step hcyc
  lastAddr := h.lastAddr_step hs hcyc
  wraddr := h.wraddr_step hcyc hnext
  lastAck := h.lastAck_step hs hcyc hnext
  pending := h.pending_step hcyc hbus hnext
  filled := fun _ hk => h.filled_step hcyc hbus hk
  cacheTags := h.cacheTags_step hcyc
  validMask := h.validMask_step hcyc hsv

end Fetch

end Pfcache

end ZBasic
