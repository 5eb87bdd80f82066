import Mathlib.Data.List.GetD
import Mathlib.Data.List.TakeWhile
import Mathlib.Tactic.IntervalCases
import ZBasic.Clocked.Counter
import ZBasic.Clocked.Run
import ZBasic.Sdspi.Spitxdata

/-!
# Sending a whole block

A block of `2 ^ k` bytes is read from memory and handed over behind its token and before its
checksum, for every block size but the smallest one, of which `spitxdata` reads half the words
only. Then the response of the card is waited for, and the end of its busy time.
-/

namespace ZBasic

open Clocked
open SdBlock

namespace Spitxdata

/-! ### The bytes of a block -/

variable (mem : BitVec 8 → BitVec 32) (f : Bool)

/-- The word `w` of the half of the memory that is selected. -/
def wordAt (w : ℕ) : BitVec 32 := mem (base f + BitVec.ofNat 8 w)

/-- The first `n` bytes of the half of the memory that is selected, the highest byte of each word
first. -/
def payloadOf (n : ℕ) : List (BitVec 8) :=
  (List.range n).map fun i => (wordAt mem f (i / 4)).extractLsb' (8 * (3 - i % 4)) 8

/-- A block of `n` bytes behind its token and before its checksum. -/
def frameOf (n : ℕ) : List (BitVec 8) :=
  0xfe :: payloadOf mem f n ++ [(crc16 (payloadOf mem f n)).extractLsb' 8 8,
    (crc16 (payloadOf mem f n)).extractLsb' 0 8]

@[simp]
theorem length_payloadOf (n : ℕ) :
  (payloadOf mem f n).length = n
  := by simp [payloadOf]

theorem length_frameOf (n : ℕ) :
  (frameOf mem f n).length = n + 3
  := by simp [frameOf]

/-- The bytes of a word stand behind each other. -/
theorem getD_frameOf_word {n w j : ℕ} (hw : 4 * w + j < n) (hj : j < 4) :
  (frameOf mem f n).getD (4 * w + 1 + j) 0 = (wordAt mem f w).extractLsb' (8 * (3 - j)) 8
  := by
  rw [frameOf, List.cons_append, show 4 * w + 1 + j = 4 * w + j + 1 by omega, List.getD_cons_succ,
    List.getD_append _ _ _ _ (by simpa using hw), payloadOf,
    List.getD_eq_getElem _ _ (by simpa using hw), List.getElem_map, List.getElem_range]
  rw [show (4 * w + j) / 4 = w by omega, show (4 * w + j) % 4 = j by omega]

/-- The checksum stands behind the block. -/
theorem getD_frameOf_crc {n j : ℕ} (hj : j < 2) :
  (frameOf mem f n).getD (n + 1 + j) 0 = (crc16 (payloadOf mem f n)).extractLsb' (8 - 8 * j) 8
  := by
  rw [frameOf, List.cons_append, show n + 1 + j = n + j + 1 by omega, List.getD_cons_succ,
    List.getD_append_right _ _ _ _ (by simp), length_payloadOf, Nat.add_sub_cancel_left]
  interval_cases j <;> rfl

/-- A word comes into the checksum with all its bytes. -/
theorem bitsOf_payloadOf (w : ℕ) :
  (payloadOf mem f (4 * (w + 1))).flatMap bitsOf
    = (payloadOf mem f (4 * w)).flatMap bitsOf ++ bitsOf (wordAt mem f w)
  := by
  have hbyte : ∀ j < 4, (bitsOf (wordAt mem f w)).take (8 * j + 8)
      = (bitsOf (wordAt mem f w)).take (8 * j)
        ++ bitsOf ((wordAt mem f w).extractLsb' (8 * (3 - j)) 8) := by
    intro j hj
    rw [take_bitsOf_add (b := 8 * (3 - j)) _ (by omega)]
  have hsplit : bitsOf (wordAt mem f w)
      = bitsOf ((wordAt mem f w).extractLsb' 24 8) ++ bitsOf ((wordAt mem f w).extractLsb' 16 8)
        ++ bitsOf ((wordAt mem f w).extractLsb' 8 8)
        ++ bitsOf ((wordAt mem f w).extractLsb' 0 8) := by
    rw [← take_bitsOf (wordAt mem f w), hbyte 3 (by decide), hbyte 2 (by decide),
      hbyte 1 (by decide), hbyte 0 (by decide)]
    simp
  rw [hsplit, payloadOf, payloadOf, show 4 * (w + 1) = 4 * w + 1 + 1 + 1 + 1 by omega]
  simp only [List.range_succ, List.map_append, List.flatMap_append, List.map_cons, List.map_nil,
    List.flatMap_cons, List.flatMap_nil, List.append_nil, List.append_assoc]
  rw [show 4 * w / 4 = w by omega, show (4 * w + 1) / 4 = w by omega,
    show (4 * w + 1 + 1) / 4 = w by omega, show (4 * w + 1 + 1 + 1) / 4 = w by omega,
    show 4 * w % 4 = 0 by omega, show (4 * w + 1) % 4 = 1 by omega,
    show (4 * w + 1 + 1) % 4 = 2 by omega, show (4 * w + 1 + 1 + 1) % 4 = 3 by omega]

/-! ### Phases of a block -/

/-- What `spitxdata` does: it fetches the word `w`, for `c` clocks; it hands over the word `w`,
`p` bytes since that came; it asks for the checksum; it hands over the checksum, `p` bytes since
that came; or everything has been handed over. -/
inductive Phase
  | fetch (w c : ℕ)
  | out (w p : ℕ)
  | closing
  | check (p : ℕ)
  | sent (first : Bool)

namespace Phase

/-- The bytes that have been handed over, in a block of `W` words. -/
def handed (W : ℕ) : Phase → ℕ
  | fetch w _ => 4 * w
  | out w p => 4 * w + p
  | closing => 4 * W
  | check p => 4 * W + p
  | sent _ => 4 * W + 3

/-- The bytes in the gearbox. -/
def held : Phase → ℕ
  | fetch _ _ => 1
  | out _ p => 5 - p
  | closing => 1
  | check p => 3 - p
  | sent _ => 0

/-- The words whose addresses have been given. -/
def reads (W : ℕ) : Phase → ℕ
  | fetch w c => if c ≤ 1 then w else w + 1
  | out w _ => w + 1
  | _ => W

/-- The words that have come. -/
def loaded (W : ℕ) : Phase → ℕ
  | fetch w _ => w
  | out w _ => w + 1
  | _ => W

/-- The phases that a block of `W` words goes through. -/
def Proper (W : ℕ) : Phase → Prop
  | fetch w c => w < W ∧ c ≤ 3 ∧ (0 < w → 0 < c)
  | out w p => w < W ∧ p < 4
  | closing => True
  | check p => p < 3
  | sent _ => True

/-- The next phase, where a byte is handed over or not. -/
def next (W : ℕ) (hands : Bool) : Phase → Phase
  | fetch w c => if c < 3 then fetch w (c + 1) else out w 0
  | out w p =>
      if !hands then out w p
      else if p < 3 then out w (p + 1)
      else if w + 1 < W then fetch (w + 1) 1
      else closing
  | closing => check 0
  | check p => if !hands then check p else if p < 2 then check (p + 1) else sent true
  | sent _ => sent false

end Phase

/-- The highest bytes of the gearbox are `n` bytes of the block, from byte `l` on. -/
def Holds (fr : List (BitVec 8)) (l n : ℕ) (gearbox : BitVec 40) : Prop :=
  ∀ j < n, gearbox.extractLsb' (32 - 8 * j) 8 = fr.getD (l + j) 0

section Holds

variable {fr : List (BitVec 8)} {l n : ℕ} {gearbox : BitVec 40}

theorem Holds.top (h : Holds fr l (n + 1) gearbox) :
  gearbox.extractLsb' 32 8 = fr.getD l 0
  := h 0 (Nat.succ_pos n)

/-- A byte is handed over. -/
theorem Holds.shift (h : Holds fr l (n + 1) gearbox) (hn : n ≤ 4) :
  Holds fr (l + 1) n (gearbox.extractLsb' 0 32 ++ 0xff#8)
  := by
  intro j hj
  rw [extract_append_high _ _ (by omega), extract_extract _ (by omega),
    show 0 + (32 - 8 * j - 8) = 32 - 8 * (j + 1) by omega, h (j + 1) (by omega)]
  congr 1
  omega

/-- A word comes in. -/
theorem holds_load {a : BitVec 8} {x : BitVec 32} (ha : a = fr.getD l 0)
    (hx : ∀ j < 4, fr.getD (l + 1 + j) 0 = x.extractLsb' (8 * (3 - j)) 8) :
  Holds fr l 5 (a ++ x)
  := by
  intro j hj
  cases j with
  | zero => rw [extract_append_high _ _ (by decide), extract_all, ha, Nat.add_zero]
  | succ j =>
      rw [extract_append_low _ _ (by omega), ← Nat.add_assoc, Nat.add_right_comm, hx j (by omega)]
      congr 1
      omega

/-- The checksum comes in. -/
theorem holds_check {a : BitVec 8} {c x : BitVec 16} (ha : a = fr.getD l 0)
    (hc : ∀ j < 2, fr.getD (l + 1 + j) 0 = c.extractLsb' (8 - 8 * j) 8) :
  Holds fr l 3 (a ++ c ++ x)
  := by
  intro j hj
  cases j with
  | zero =>
      rw [extract_append_high _ _ (by decide), extract_append_high _ _ (by decide), extract_all, ha,
        Nat.add_zero]
  | succ j =>
      rw [extract_append_high _ _ (by omega), extract_append_low _ _ (by omega), ← Nat.add_assoc,
        Nat.add_right_comm, hc j (by omega)]
      congr 1
      omega

end Holds

/-- The registers that say what is done next. -/
structure Control where
  oRead : Bool
  rdvalid : BitVec 2
  fill : BitVec 5
  oLlStb : Bool
  crcStb : Bool
  crcFlag : Bool
  dataSent : Bool

/-- These registers of `spitxdata`. -/
def control (s : Spitxdata) : Control where
  oRead := s.oRead
  rdvalid := s.rdvalid
  fill := s.fill
  oLlStb := s.oLlStb
  crcStb := s.crcStb
  crcFlag := s.crcFlag
  dataSent := s.dataSent

/-- These registers in a phase. -/
def Phase.control : Phase → Control
  | fetch w c =>
      ⟨c = 1, if c = 2 then 1 else if c = 3 then 2 else 0, 0x10, 0 < w, false, false, false⟩
  | out _ p => ⟨false, 0, 0x1f <<< p, true, false, false, false⟩
  | closing => ⟨false, 0, 0x10, true, true, false, false⟩
  | check p => ⟨false, 0, 0x1c <<< p, true, false, true, false⟩
  | sent first => ⟨false, 0, 0, first, false, true, true⟩

/-- The registers in a phase of a block of `words k` words. -/
structure At (k : ℕ) (ph : Phase) (s : Spitxdata) : Prop where
  control : s.control = ph.control
  gearbox : Holds (frameOf mem f (4 * words k)) (ph.handed (words k)) ph.held s.gearbox
  oAddr : s.oAddr = base f + BitVec.ofNat 8 (min (ph.reads (words k)) (words k - 1))
  lastaddr : s.lastaddr = decide (words k ≤ ph.reads (words k) + 1)
  allMemRead : s.allMemRead = decide (words k ≤ ph.reads (words k))
  rLgblkszM3 : s.rLgblkszM3 = BitVec.ofNat 3 (k - 3)

section Step

variable {mem f} {k : ℕ} {ph : Phase} {s : Spitxdata} {i : Input}

/-- A byte is handed over. -/
def Control.hands (c : Control) (llBusy : Bool) : Bool := c.oLlStb && !llBusy

/-- There is room in the gearbox, and nothing on its way to it. -/
def Control.wants (c : Control) (llBusy : Bool) : Bool :=
  (!c.fill.getLsbD 3 || (!c.fill.getLsbD 2 && (!c.oLlStb || !llBusy)))
    && !c.oRead && c.rdvalid = 0 && !c.crcFlag

/-- What a clock makes of these registers. -/
def Control.next (c : Control) (allMemRead llBusy : Bool) : Control where
  oRead := c.wants llBusy && !allMemRead
  rdvalid := c.rdvalid.extractLsb' 0 1 ++ BitVec.ofBool c.oRead
  fill :=
    if c.rdvalid.getLsbD 1 then 0x1f
    else if c.crcStb then c.fill.extractLsb' 4 1 ++ 0xc#4
    else if c.hands llBusy then c.fill <<< 1
    else c.fill
  oLlStb :=
    if c.rdvalid.getLsbD 1 then true
    else if c.crcFlag && !c.fill.getLsbD 4 then false
    else c.oLlStb
  crcStb := c.wants llBusy && allMemRead && !c.crcFlag && !c.crcStb
  crcFlag := if c.crcStb then true else c.crcFlag
  dataSent := if c.crcFlag && !c.fill.getLsbD 3 && c.hands llBusy then true else c.dataSent

theorem control_busy (hbusy : s.oBusy = true) (hreset : i.iReset = false) :
  (s.step i).control = s.control.next s.allMemRead i.iLlBusy
  := by
  simp only [Spitxdata.control, step, hbusy, hreset, Bool.false_or, Bool.not_true,
    Bool.false_eq_true, if_false]
  rfl

/-- The control registers go through the phases. -/
theorem At.control_step (h : s.At mem f k ph) (hbusy : s.oBusy = true) (hreset : i.iReset = false)
    (hproper : ph.Proper (words k))
    (hquiet : (∃ w c, ph = .fetch w c) ∨ ph = .closing ∨ ph = .sent true → s.hands i = false) :
  (s.step i).control = (ph.next (words k) (s.hands i)).control
  := by
  have hall := h.allMemRead
  have hhands : s.hands i = ph.control.hands i.iLlBusy := by
    rw [← h.control]
    rfl
  rw [control_busy hbusy hreset, h.control]
  rw [hhands] at hquiet ⊢
  cases ph with
  | fetch w c =>
      have hh := hquiet (.inl ⟨w, c, rfl⟩)
      obtain ⟨hw, hc, hfirst⟩ := hproper
      rw [hh, Phase.next]
      interval_cases c
      · obtain rfl : w = 0 := by omega
        have hmore : s.allMemRead = false := by
          rw [hall, decide_eq_false_iff_not]
          apply Nat.not_le_of_lt hw
        simp [Control.next, Control.wants, Control.hands, Phase.control, hmore]
      · rw [Control.next, hh]
        simp [Control.wants, Phase.control]
      · rw [Control.next, hh]
        simp [Control.wants, Phase.control]
      · rw [Control.next, hh]
        simp [Control.wants, Phase.control]
  | out w p =>
      obtain ⟨hw, hp⟩ := hproper
      have hall' : s.allMemRead = decide (words k ≤ w + 1) := hall
      rw [Phase.next, hall']
      cases i.iLlBusy with
      | true =>
          interval_cases p <;> simp [Control.next, Control.wants, Control.hands, Phase.control]
      | false =>
          rw [if_neg (by simp [Control.hands, Phase.control])]
          split_ifs with hlast hmore
          · interval_cases p <;> simp [Control.next, Control.wants, Control.hands, Phase.control]
          · obtain rfl : p = 3 := by omega
            simp [Control.next, Control.wants, Control.hands, Phase.control, Nat.not_le_of_lt hmore]
          · obtain rfl : p = 3 := by omega
            simp [Control.next, Control.wants, Control.hands, Phase.control, Nat.le_of_not_lt hmore]
  | closing =>
      have hend : s.allMemRead = true := by
        rw [hall, decide_eq_true_eq]
        apply Nat.le_refl
      have hh := hquiet (.inr (.inl rfl))
      rw [hh, Control.next, hh, hend]
      simp [Control.wants, Phase.control, Phase.next]
  | check p =>
      have hp : p < 3 := hproper
      rw [Phase.next]
      cases i.iLlBusy <;> interval_cases p <;>
        simp [Control.next, Control.wants, Control.hands, Phase.control]
  | sent first =>
      have hh : (Phase.sent first).control.hands i.iLlBusy = false := by
        cases first with
        | true => apply hquiet (.inr (.inr rfl))
        | false => rfl
      rw [hh, Control.next, hh]
      simp [Control.wants, Phase.control, Phase.next]

/-- The address counts on in its half of the memory. -/
theorem base_succ (f : Bool) {r : ℕ} (hr : r < 127) :
  (base f + BitVec.ofNat 8 r).extractLsb' 7 1 ++ ((base f + BitVec.ofNat 8 r).extractLsb' 0 7 + 1)
    = base f + BitVec.ofNat 8 (r + 1)
  := by
  revert f r
  decide +kernel

/-- The last address is known one word before. -/
theorem At.nearlyLast (h : s.At mem f k ph) (hk : 3 < k) (hk' : k ≤ 9)
    (hr : ph.reads (words k) + 1 < words k) :
  s.nearlyLast = decide (words k ≤ ph.reads (words k) + 2)
  := by
  have haddr : s.oAddr = base f + BitVec.ofNat 8 (ph.reads (words k)) := by
    rw [h.oAddr, Nat.min_eq_left (by omega)]
  have hwords : words k = 2 ^ (k - 2) := if_neg (by omega)
  have hcase := h.rLgblkszM3
  rw [hwords] at hr haddr ⊢
  replace hr := Nat.lt_sub_of_add_lt hr
  rw [Spitxdata.nearlyLast, haddr, hcase]
  clear haddr h hcase
  generalize ph.reads (2 ^ (k - 2)) = r at hr ⊢
  generalize s.lastaddr = lastaddr
  revert f r lastaddr
  interval_cases k <;> decide +kernel

/-- The address is that of the next word to be read. -/
theorem At.addr_step (h : s.At mem f k ph) (hbusy : s.oBusy = true) (hreset : i.iReset = false)
    (hk : 3 ≤ k) (hk' : k ≤ 9) {r : ℕ}
    (hr : r = ph.reads (words k) + if s.oRead then 1 else 0) :
  (s.step i).oAddr = base f + BitVec.ofNat 8 (min r (words k - 1))
    ∧ (s.step i).lastaddr = decide (words k ≤ r + 1)
    ∧ (s.step i).allMemRead = decide (words k ≤ r)
  := by
  have haddr : (s.step i).oAddr = if s.oRead && !s.lastaddr then
      s.oAddr.extractLsb' 7 1 ++ (s.oAddr.extractLsb' 0 7 + 1) else s.oAddr := by
    simp [step, hbusy]
  have hlast : (s.step i).lastaddr
      = if s.oRead && !s.lastaddr then s.nearlyLast else s.lastaddr := by
    simp [step, hbusy]
  have hall : (s.step i).allMemRead = if s.oRead && s.lastaddr then true else s.allMemRead := by
    simp [step, hbusy, hreset]
  rw [haddr, hlast, hall, h.oAddr]
  cases hread : s.oRead with
  | false =>
      rw [hread, if_neg Bool.false_ne_true, Nat.add_zero] at hr
      rw [hr]
      exact ⟨rfl, h.lastaddr, h.allMemRead⟩
  | true =>
      rw [hread, if_pos rfl] at hr
      by_cases hmore : ph.reads (words k) + 1 < words k
      · have hno : s.lastaddr = false := by
          rw [h.lastaddr, decide_eq_false_iff_not]
          omega
        have hbig : 3 < k := by
          by_contra hsmall
          have : words k = 1 := if_pos (by omega)
          omega
        have hsize : words k ≤ 128 := by
          rw [words, if_neg (by omega)]
          apply Nat.le_trans (Nat.pow_le_pow_right (by decide) (by omega : k - 2 ≤ 7))
          decide
        rw [hno, Nat.min_eq_left (by omega), h.nearlyLast hbig hk' hmore]
        refine ⟨?_, ?_, ?_⟩
        · rw [Nat.min_eq_left (by omega), hr]
          apply base_succ f (by omega)
        · rw [hr]
          rfl
        · simp [h.allMemRead]
          omega
      · have hyes : s.lastaddr = true := by
          rw [h.lastaddr, decide_eq_true_eq]
          omega
        rw [hyes]
        refine ⟨?_, ?_, ?_⟩
        · rw [Nat.min_eq_right (by omega), Nat.min_eq_right (by omega)]
          rfl
        · simp
          omega
        · simp
          omega

/-- The next phase reads on from where this one does. -/
theorem Phase.reads_next {W : ℕ} (take : Bool) (hproper : ph.Proper W) :
  (ph.next W take).reads W = ph.reads W + if ph.control.oRead then 1 else 0
  := by
  cases ph with
  | fetch w c =>
      obtain ⟨hw, hc, -⟩ := hproper
      interval_cases c <;> simp [Phase.next, Phase.reads, Phase.control]
  | out w p =>
      obtain ⟨hw, hp⟩ := hproper
      rw [Phase.control, if_neg Bool.false_ne_true, Nat.add_zero, Phase.next]
      split_ifs <;> simp only [Phase.reads]
      · simp
      · omega
  | closing => simp [Phase.next, Phase.reads, Phase.control]
  | check p =>
      rw [Phase.control, if_neg Bool.false_ne_true, Nat.add_zero, Phase.next]
      split_ifs <;> rfl
  | sent first => simp [Phase.next, Phase.reads, Phase.control]

theorem Phase.proper_next {W : ℕ} (take : Bool) (hproper : ph.Proper W) :
  (ph.next W take).Proper W
  := by
  cases ph with
  | fetch w c =>
      obtain ⟨hw, hc, hfirst⟩ := hproper
      rw [Phase.next]
      split_ifs <;> simp [Phase.Proper, hw]
      omega
  | out w p =>
      obtain ⟨hw, hp⟩ := hproper
      rw [Phase.next]
      split_ifs with htake hp' hmore <;> simp [Phase.Proper, hw, hp]
      · omega
      · omega
  | closing => simp [Phase.next, Phase.Proper]
  | check p =>
      have hp : p < 3 := hproper
      rw [Phase.next]
      split_ifs <;> simp [Phase.Proper, hp]
      omega
  | sent first => trivial

/-- The clocks at which a word comes. -/
def Phase.loads : Phase → Bool
  | fetch _ c => c = 3
  | _ => false

theorem Phase.loaded_next {W : ℕ} {take : Bool} (hproper : ph.Proper W) :
  (ph.next W take).loaded W = ph.loaded W + if ph.loads then 1 else 0
  := by
  cases ph with
  | fetch w c =>
      obtain ⟨hw, hc, -⟩ := hproper
      interval_cases c <;> rfl
  | out w p =>
      obtain ⟨hw, hp⟩ := hproper
      have hno : (Phase.out w p).loads = false := rfl
      rw [hno, if_neg Bool.false_ne_true, Nat.add_zero, Phase.next]
      split_ifs <;> simp only [Phase.loaded]
      omega
  | closing => rfl
  | check p =>
      have hno : (Phase.check p).loads = false := rfl
      rw [hno, if_neg Bool.false_ne_true, Nat.add_zero, Phase.next]
      split_ifs <;> rfl
  | sent first => rfl

theorem Phase.handed_next {W : ℕ} {take : Bool} (hproper : ph.Proper W)
    (hquiet : ph.control.oLlStb = false ∨ (∃ w c, ph = .fetch w c) ∨ ph = .closing
      ∨ ph = .sent true → take = false) :
  (ph.next W take).handed W = ph.handed W + if take then 1 else 0
  := by
  cases ph with
  | fetch w c =>
      rw [hquiet (.inr (.inl ⟨w, c, rfl⟩)), if_neg Bool.false_ne_true, Nat.add_zero, Phase.next]
      split_ifs <;> rfl
  | out w p =>
      obtain ⟨hw, hp⟩ := hproper
      rw [Phase.next]
      split_ifs <;> simp only [Phase.handed] <;> grind
  | closing =>
      rw [hquiet (.inr (.inr (.inl rfl)))]
      rfl
  | check p =>
      have hp : p < 3 := hproper
      rw [Phase.next]
      split_ifs <;> simp only [Phase.handed] <;> grind
  | sent first =>
      have htake : take = false := by
        cases first with
        | true => apply hquiet (.inr (.inr (.inr rfl)))
        | false => apply hquiet (.inl rfl)
      rw [htake]
      rfl

/-- All is handed over where `data_sent` is set. -/
theorem Phase.dataSent_eq {W : ℕ} (hproper : ph.Proper W) :
  ph.control.dataSent = decide (ph.handed W = 4 * W + 3)
  := by
  cases ph with
  | fetch w c =>
      obtain ⟨hw, -, -⟩ := hproper
      apply (decide_eq_false _).symm
      simp only [Phase.handed]
      omega
  | out w p =>
      obtain ⟨hw, hp⟩ := hproper
      apply (decide_eq_false _).symm
      simp only [Phase.handed]
      omega
  | closing => simp [Phase.control, Phase.handed]
  | check p =>
      have hp : p < 3 := hproper
      apply (decide_eq_false _).symm
      simp only [Phase.handed]
      omega
  | sent first => simp [Phase.control, Phase.handed]

theorem Phase.handed_le {W : ℕ} (hproper : ph.Proper W) :
  ph.handed W ≤ 4 * W + 3
  := by
  cases ph with
  | fetch w c =>
      obtain ⟨hw, -, -⟩ := hproper
      simp only [Phase.handed]
      omega
  | out w p =>
      obtain ⟨hw, hp⟩ := hproper
      simp only [Phase.handed]
      omega
  | closing => simp [Phase.handed]
  | check p =>
      have hp : p < 3 := hproper
      simp only [Phase.handed]
      omega
  | sent first => simp [Phase.handed]

/-- A bound on the clocks and bytes that are left. -/
def Phase.rank (W : ℕ) : Phase → ℕ
  | fetch w c => 8 * (4 * W + 3 - 4 * w) + (4 - c)
  | out w p => 8 * (4 * W + 3 - (4 * w + p))
  | closing => 25
  | check p => 8 * (3 - p)
  | sent _ => 0

/-- Each clock brings the end of the block nearer, but for those at which a byte waits to be
taken. -/
theorem Phase.rank_next {W : ℕ} (take : Bool) (hproper : ph.Proper W)
    (hnot : ∀ first, ph ≠ .sent first) :
  (ph.next W take).rank W ≤ ph.rank W
    ∧ (((∃ w p, ph = .out w p) ∨ (∃ p, ph = .check p) → take = true) →
      (ph.next W take).rank W < ph.rank W)
  := by
  cases ph with
  | fetch w c =>
      obtain ⟨hw, hc, -⟩ := hproper
      rw [Phase.next]
      split_ifs <;> simp only [Phase.rank]
      · exact ⟨by omega, fun _ => by omega⟩
      · exact ⟨by omega, fun _ => by omega⟩
  | out w p =>
      obtain ⟨hw, hp⟩ := hproper
      rw [Phase.next]
      split_ifs with htake hp' hmore <;> simp only [Phase.rank]
      · refine ⟨Nat.le_refl _, fun hall => ?_⟩
        rw [hall (.inl ⟨w, p, rfl⟩)] at htake
        cases htake
      · exact ⟨by omega, fun _ => by omega⟩
      · exact ⟨by omega, fun _ => by omega⟩
      · exact ⟨by omega, fun _ => by omega⟩
  | closing => exact ⟨by simp [Phase.next, Phase.rank], fun _ => by simp [Phase.next, Phase.rank]⟩
  | check p =>
      have hp : p < 3 := hproper
      rw [Phase.next]
      split_ifs with htake hp' <;> simp only [Phase.rank]
      · refine ⟨Nat.le_refl _, fun hall => ?_⟩
        rw [hall (.inr ⟨p, rfl⟩)] at htake
        cases htake
      · exact ⟨by omega, fun _ => by omega⟩
      · exact ⟨by omega, fun _ => by omega⟩
  | sent first => cases hnot first rfl

/-! ### The gearbox -/

/-- A word comes in at the end of a fetch. -/
theorem At.loads (h : s.At mem f k ph) (hproper : ph.Proper (words k)) :
  s.loads = ph.loads
  := by
  have hrdvalid : s.rdvalid = ph.control.rdvalid := congrArg Control.rdvalid h.control
  rw [Spitxdata.loads, hrdvalid]
  cases ph with
  | fetch w c =>
      obtain ⟨-, hc, -⟩ := hproper
      interval_cases c <;> simp [Phase.control, Phase.loads]
  | _ => simp [Phase.control, Phase.loads]

theorem nextGearbox_load (hload : s.loads = true) :
  s.nextGearbox i = (if s.oLlStb then s.gearbox.extractLsb' 32 8 else 0xfe#8) ++ i.iData
  := by
  rw [nextGearbox, hload, Bool.and_true, if_pos rfl]
  cases s.oLlStb <;> rfl

theorem nextGearbox_check (hload : s.loads = false) (hstb : s.crcStb = true) :
  s.nextGearbox i = s.gearbox.extractLsb' 32 8 ++ s.crcData ++ 0x00ff#16
  := by simp [nextGearbox, hload, hstb]

theorem nextGearbox_other (hload : s.loads = false) (hstb : s.crcStb = false) :
  s.nextGearbox i = if s.hands i then s.gearbox.extractLsb' 0 32 ++ 0xff#8 else s.gearbox
  := by simp [nextGearbox, hload, hstb]

/-- What is handed over leaves the gearbox. -/
theorem Phase.held_next {W : ℕ} (hproper : ph.Proper W)
    (hwaits : (∃ w p, ph = .out w p) ∨ ∃ p, ph = .check p) :
  ph.held = (ph.next W true).held + 1 ∧ (ph.next W true).held ≤ 4
  := by
  rcases hwaits with ⟨w, p, rfl⟩ | ⟨p, rfl⟩
  · obtain ⟨-, hp⟩ := hproper
    rw [Phase.next, if_neg (by decide)]
    split_ifs <;> simp only [Phase.held] <;> omega
  · have hp : p < 3 := hproper
    rw [Phase.next, if_neg (by decide)]
    split_ifs <;> simp only [Phase.held] <;> omega

/-- The gearbox holds what it held, or a byte less. -/
theorem At.gearbox_waits (h : s.At mem f k ph) (hproper : ph.Proper (words k))
    (hwaits : (∃ w p, ph = .out w p) ∨ ∃ p, ph = .check p) :
  Holds (frameOf mem f (4 * words k)) ((ph.next (words k) (s.hands i)).handed (words k))
    (ph.next (words k) (s.hands i)).held (s.nextGearbox i)
  := by
  have hgearbox := h.gearbox
  have hload : s.loads = false := by
    rw [h.loads hproper]
    rcases hwaits with ⟨w, p, rfl⟩ | ⟨p, rfl⟩ <;> rfl
  have hstb : s.crcStb = false := by
    have hcrcStb : s.crcStb = ph.control.crcStb := congrArg Control.crcStb h.control
    rw [hcrcStb]
    rcases hwaits with ⟨w, p, rfl⟩ | ⟨p, rfl⟩ <;> rfl
  rw [nextGearbox_other hload hstb]
  cases s.hands i with
  | false =>
      rw [if_neg Bool.false_ne_true]
      rcases hwaits with ⟨w, p, rfl⟩ | ⟨p, rfl⟩ <;> apply hgearbox
  | true =>
      obtain ⟨hheld, hle⟩ := Phase.held_next hproper hwaits
      have hhanded : (ph.next (words k) true).handed (words k) = ph.handed (words k) + 1 := by
        rw [Phase.handed_next hproper, if_pos rfl]
        rcases hwaits with ⟨w, p, rfl⟩ | ⟨p, rfl⟩ <;> simp [Phase.control]
      rw [hheld] at hgearbox
      rw [if_pos rfl, hhanded]
      apply hgearbox.shift hle

/-- A word is waited for, and comes in behind the byte before it. -/
theorem At.gearbox_fetch {w c : ℕ} (h : s.At mem f k (.fetch w c))
    (hproper : (Phase.fetch w c).Proper (words k)) (hh : s.hands i = false)
    (hdata : c = 3 → i.iData = wordAt mem f w) :
  Holds (frameOf mem f (4 * words k)) (((Phase.fetch w c).next (words k) false).handed (words k))
    ((Phase.fetch w c).next (words k) false).held (s.nextGearbox i)
  := by
  have hgearbox := h.gearbox
  have hload := h.loads hproper
  have hcrcStb : s.crcStb = false := congrArg Control.crcStb h.control
  have hstb : s.oLlStb = decide (0 < w) := congrArg Control.oLlStb h.control
  obtain ⟨hw, hc, -⟩ := hproper
  rw [Phase.next]
  split_ifs with hlt
  · have hno : s.loads = false := by
      rw [hload, Phase.loads, decide_eq_false_iff_not]
      omega
    rw [nextGearbox_other hno hcrcStb, hh, if_neg Bool.false_ne_true]
    apply hgearbox
  · obtain rfl : c = 3 := by omega
    rw [nextGearbox_load hload, hdata rfl, hstb]
    apply holds_load
    · cases w with
      | zero => rfl
      | succ w => apply hgearbox.top
    · intro j hj
      apply getD_frameOf_word mem f (by omega) hj

/-- The checksum comes in behind the last byte. -/
theorem At.gearbox_closing (h : s.At mem f k .closing)
    (hcrc : s.crcData = crc16 (payloadOf mem f (4 * words k))) :
  Holds (frameOf mem f (4 * words k)) (4 * words k) 3 (s.nextGearbox i)
  := by
  have hcrcStb : s.crcStb = true := congrArg Control.crcStb h.control
  rw [nextGearbox_check (h.loads trivial) hcrcStb, hcrc]
  apply holds_check h.gearbox.top
  intro j hj
  apply getD_frameOf_crc mem f hj

/-- The bytes of the block move through the gearbox. -/
theorem At.gearbox_step (h : s.At mem f k ph) (hbusy : s.oBusy = true)
    (hproper : ph.Proper (words k))
    (hquiet : (∃ w c, ph = .fetch w c) ∨ ph = .closing ∨ ph = .sent true → s.hands i = false)
    (hdata : ∀ w, ph = .fetch w 3 → i.iData = wordAt mem f w)
    (hcrc : ph = .closing → s.crcData = crc16 (payloadOf mem f (4 * words k))) :
  Holds (frameOf mem f (4 * words k)) ((ph.next (words k) (s.hands i)).handed (words k))
    (ph.next (words k) (s.hands i)).held (s.step i).gearbox
  := by
  have hnext : (s.step i).gearbox = s.nextGearbox i := by simp [step, hbusy]
  rw [hnext]
  cases ph with
  | fetch w c =>
      have hh : s.hands i = false := hquiet (.inl ⟨w, c, rfl⟩)
      rw [hh]
      apply h.gearbox_fetch hproper hh
      rintro rfl
      apply hdata w rfl
  | out w p => apply h.gearbox_waits hproper (.inl ⟨w, p, rfl⟩)
  | closing => apply h.gearbox_closing (hcrc rfl)
  | check p => apply h.gearbox_waits hproper (.inr ⟨p, rfl⟩)
  | sent first =>
      intro j hj
      cases hj

/-- The registers follow the phases. -/
theorem At.step (h : s.At mem f k ph) (hbusy : s.oBusy = true) (hreset : i.iReset = false)
    (hk : 3 ≤ k) (hk' : k ≤ 9) (hproper : ph.Proper (words k))
    (hquiet : (∃ w c, ph = .fetch w c) ∨ ph = .closing ∨ ph = .sent true → s.hands i = false)
    (hdata : ∀ w, ph = .fetch w 3 → i.iData = wordAt mem f w)
    (hcrc : ph = .closing → s.crcData = crc16 (payloadOf mem f (4 * words k))) :
  (s.step i).At mem f k (ph.next (words k) (s.hands i))
  := by
  have hread : s.oRead = ph.control.oRead := by
    rw [← h.control]
    rfl
  have hreads := Phase.reads_next (s.hands i) hproper
  rw [← hread] at hreads
  obtain ⟨haddr, hlast, hall⟩ := h.addr_step hbusy hreset hk hk' (i := i) hreads
  constructor
  · apply h.control_step hbusy hreset hproper hquiet
  · apply h.gearbox_step hbusy hproper hquiet hdata hcrc
  · apply haddr
  · apply hlast
  · apply hall
  · simpa [Spitxdata.step, hbusy] using h.rLgblkszM3

/-- A start is followed by the first fetch. -/
theorem at_start (hk : 3 ≤ k) (hk' : k ≤ 9) (hbusy : s.oBusy = false) (hreset : i.iReset = false)
    (hstart : i.iStart = true) (hsize : i.iLgblksz = BitVec.ofNat 4 k) :
  (s.step i).At mem i.iFifo k (.fetch 0 0)
  := by
  have hpos := words_pos k
  constructor
  · simp [Spitxdata.control, Phase.control, Spitxdata.step, hbusy, hreset, hstart]
  · intro j hj
    have hzero : j = 0 := Nat.lt_one_iff.mp hj
    have hnext : (s.step i).gearbox = 0xfe#8 ++ (s.nextGearbox i).extractLsb' 0 32 := by
      simp [Spitxdata.step, hbusy]
    rw [hnext, hzero, extract_append_high _ _ (by decide), extract_all]
    rfl
  · simp [Spitxdata.step, hbusy, Phase.reads, base]
  · have hsmall : decide (BitVec.ofNat 4 k < 4#4) = decide (words k ≤ 1) := by
      interval_cases k <;> rfl
    simpa [Spitxdata.step, hbusy, hsize, Phase.reads] using hsmall
  · simp [Spitxdata.step, hbusy, Phase.reads]
    omega
  · have hcase : (BitVec.ofNat 4 k - 3#4).setWidth 3 = BitVec.ofNat 3 (k - 3) := by
      interval_cases k <;> rfl
    simpa [Spitxdata.step, hbusy, hsize] using hcase

end Step

/-! ### The checksum -/

/-- What the checksum has taken of the first `w` words, `d` clocks after the last one came. -/
inductive Digesting (w d : ℕ) (s : Spitxdata) : Prop
  | resting : s.crcActive = false → s.crcFill = 0 → s.crcData = crc16 (payloadOf mem f (4 * w)) →
      Digesting w d s
  | working (v : ℕ) : w = v + 1 → 0 < d → d < 17 → s.crcActive = true → s.crcFill.toNat + d = 17 →
      s.crcGearbox = wordAt mem f v <<< (2 * (d - 1)) →
      s.crcData = crcOf crcPolynomial ((payloadOf mem f (4 * v)).flatMap bitsOf
        ++ (bitsOf (wordAt mem f v)).take (2 * (d - 1))) →
      Digesting w d s

theorem nextCrcData_eq (crc : BitVec 16) (hi lo : Bool) :
  nextCrcData crc hi lo = crcBit crcPolynomial (crcBit crcPolynomial crc hi) lo
  := by
  have hmsb : ∀ v : BitVec 16, v.getLsbD 15 = v.msb := fun v => (BitVec.msb_eq_getLsbD_last v).symm
  simp only [nextCrcData, hmsb]
  rfl

theorem extract_shift (x : BitVec 32) :
  x.extractLsb' 0 30 ++ 0#2 = x <<< 2
  := by
  ext j hj
  simp only [← BitVec.getLsbD_eq_getElem, BitVec.getLsbD_append, BitVec.getLsbD_extractLsb',
    BitVec.getLsbD_shiftLeft]
  grind

section Digesting

variable {mem f} {w d : ℕ} {s : Spitxdata} {i : Input}

/-- The checksum takes two bits of the last word at each clock. -/
theorem Digesting.silent (h : s.Digesting mem f w d) (hbusy : s.oBusy = true)
    (hreset : i.iReset = false) (hloads : s.loads = false) :
  (s.step i).Digesting mem f w (d + 1)
  := by
  cases h with
  | resting hactive hfill hdata =>
      apply Digesting.resting
      · simp [step, hactive, hloads]
      · simp [step, hactive, hloads, hfill]
      · simp [step, hbusy, hactive, hdata]
  | working v hw hd hd' hactive hfill hgearbox hdata =>
      have hbit : ∀ j < 2,
          s.crcGearbox.getLsbD (31 - j) = (wordAt mem f v).getMsbD (2 * (d - 1) + j) := by
        intro j hj
        rw [hgearbox, BitVec.getLsbD_shiftLeft, BitVec.getMsbD]
        simp only [show 31 - j < 32 by omega, show ¬ 31 - j < 2 * (d - 1) by omega,
          show 2 * (d - 1) + j < 32 by omega, decide_true, decide_false, Bool.not_false,
          Bool.true_and, show 31 - j - 2 * (d - 1) = 32 - 1 - (2 * (d - 1) + j) by omega]
      have hnext : (s.step i).crcData
          = crcOf crcPolynomial ((payloadOf mem f (4 * v)).flatMap bitsOf
            ++ (bitsOf (wordAt mem f v)).take (2 * d)) := by
        have htwo := crcOf_take_two crcPolynomial (wordAt mem f v)
          ((payloadOf mem f (4 * v)).flatMap bitsOf) (k := 2 * (d - 1)) (by omega)
        rw [show 2 * (d - 1) + 2 = 2 * d by omega] at htwo
        rw [htwo, ← hbit 1 (by decide), ← Nat.add_zero (2 * (d - 1)), ← hbit 0 (by decide),
          Nat.add_zero, ← hdata, ← nextCrcData_eq]
        simp [step, hbusy, hactive]
      have hcount : (s.step i).crcFill.toNat + (d + 1) = 17 := by
        have hfill' : (s.step i).crcFill = s.crcFill - 1 := by
          simp [step, hbusy, hreset, hactive, hloads]
        rw [hfill', toNat_pred (by omega)]
        omega
      by_cases hlast : d = 16
      · apply Digesting.resting
        · simp [step, hbusy, hreset, hactive, hloads, BitVec.lt_def]
          omega
        · rw [← BitVec.toNat_inj]
          change _ = 0
          omega
        · rw [hnext, hlast, show 2 * 16 = 32 from rfl, take_bitsOf, hw, crc16, crcOfBytes,
            bitsOf_payloadOf]
      · apply Digesting.working v hw (Nat.succ_pos d) (by omega)
        · simp [step, hbusy, hreset, hactive, hloads, BitVec.lt_def]
          omega
        · apply hcount
        · have hshift : (s.step i).crcGearbox = s.crcGearbox <<< 2 := by
            rw [← extract_shift]
            simp [step, hactive]
          rw [hshift, hgearbox, ← BitVec.shiftLeft_add]
          congr 1
          omega
        · rw [hnext, Nat.succ_sub_one]

/-- The next word comes when the checksum has taken the one before. -/
theorem Digesting.load (h : s.Digesting mem f w d) (hbusy : s.oBusy = true)
    (hreset : i.iReset = false) (hloads : s.loads = true) (hd : 16 < d)
    (hdata : i.iData = wordAt mem f w) :
  (s.step i).Digesting mem f (w + 1) 1
  := by
  cases h with
  | working v hw hd' hd'' => omega
  | resting hactive hfill hcrc =>
      apply Digesting.working w rfl Nat.one_pos (by decide)
      · simp [step, hbusy, hreset, hloads]
      · simp [step, hbusy, hreset, hactive, hloads, hfill]
      · simp [step, hactive, hdata]
      · simp [step, hbusy, hactive, hcrc, crc16, crcOfBytes]

theorem Digesting.done (h : s.Digesting mem f w d) (hd : 16 < d) :
  s.crcData = crc16 (payloadOf mem f (4 * w))
  := by
  cases h with
  | working v hw hd' hd'' => omega
  | resting hactive hfill hcrc => apply hcrc

end Digesting

/-! ### The response -/

/-- The bytes after the response. -/
def afterResponse (rs : List (BitVec 8)) : List (BitVec 8) :=
  (rs.dropWhile fun b => !isResponse b).tail

/-- The card is idle again: two bytes of ones have come after the response. -/
def idleAgain (rs : List (BitVec 8)) : Bool := 2 ≤ (afterResponse rs).count 0xff

theorem afterResponse_snoc (rs : List (BitVec 8)) (b : BitVec 8) :
  afterResponse (rs ++ [b]) = if (rs.find? isResponse).isSome then afterResponse rs ++ [b] else []
  := by
  induction rs with
  | nil => cases hb : isResponse b <;> simp [afterResponse, hb]
  | cons b' rs ih =>
      cases hb' : isResponse b' with
      | true => simp [afterResponse, hb']
      | false => simpa [afterResponse, hb'] using ih

theorem afterResponse_eq_nil {rs : List (BitVec 8)} (h : rs.find? isResponse = none) :
  afterResponse rs = []
  := by
  have hall : ∀ b ∈ rs, (!isResponse b) = true := by simpa using h
  rw [afterResponse, List.dropWhile_eq_nil_iff.mpr hall, List.tail_nil]

theorem find_snoc (rs : List (BitVec 8)) (b : BitVec 8) :
  (rs ++ [b]).find? isResponse
    = if (rs.find? isResponse).isSome then rs.find? isResponse
      else if isResponse b then some b else none
  := by
  rw [List.find?_append]
  cases rs.find? isResponse with
  | some b' => rfl
  | none => cases hb : isResponse b <;> simp [hb]

/-- What `spitxdata` knows of the bytes `rs` that have come in since the block was sent. -/
structure Answered (rs : List (BitVec 8)) (s : Spitxdata) : Prop where
  receivedToken : s.receivedToken = (rs.find? isResponse).isSome
  allIdle : s.allIdle = decide (0 < (afterResponse rs).count 0xff)
  few : idleAgain rs = false

/-- The byte that comes in since the block was sent. -/
def heard (s : Spitxdata) (i : Input) : List (BitVec 8) :=
  if s.dataSent && i.iLlStb then [i.iLlByte] else []

section Answered

variable {rs : List (BitVec 8)} {s : Spitxdata} {i : Input} (h : s.Answered rs)
  (hbusy : s.oBusy = true) (hreset : i.iReset = false) (hsent : s.dataSent = false → rs = [])
include h hbusy hreset hsent

/-- The response is shown when it comes, and `o_busy` drops with the second byte of ones. -/
theorem Answered.step :
  (s.step i).receivedToken = ((rs ++ s.heard i).find? isResponse).isSome
    ∧ (s.step i).allIdle = decide (0 < (afterResponse (rs ++ s.heard i)).count 0xff)
    ∧ (s.step i).oBusy = !idleAgain (rs ++ s.heard i)
    ∧ (s.step i).oRxvalid
      = (!(rs.find? isResponse).isSome && ((rs ++ s.heard i).find? isResponse).isSome)
    ∧ ((s.step i).oRxvalid = true →
      (rs ++ s.heard i).find? isResponse = some (s.step i).oResponse)
  := by
  have htok := h.receivedToken
  have hidle := h.allIdle
  have hfew : (afterResponse rs).count 0xff < 2 := by simpa [idleAgain] using h.few
  by_cases hnow : (s.dataSent && i.iLlStb) = true
  · have hheard : s.heard i = [i.iLlByte] := if_pos hnow
    obtain ⟨hdata, hstb⟩ := Bool.and_eq_true_iff.mp hnow
    have htoken : s.token i = isResponse i.iLlByte := by simp [token, hdata, hstb]
    rw [hheard, idleAgain, afterResponse_snoc, find_snoc]
    cases hfind : rs.find? isResponse with
    | some t =>
        rw [hfind] at htok
        have htok' : s.receivedToken = true := htok
        simp only [Option.isSome_some, if_true, List.count_append, List.count_singleton]
        refine ⟨?_, ?_, ?_, ?_, ?_⟩
        · simp [Spitxdata.step, hreset, hbusy, htok']
        · simp [Spitxdata.step, hreset, hbusy, htok', hstb, hidle]
          grind
        · simp [Spitxdata.step, hreset, hbusy, hstb, hidle]
          grind
        · simp [Spitxdata.step, htok']
        · intro hvalid
          simp [Spitxdata.step, htok'] at hvalid
    | none =>
        rw [hfind] at htok
        have htok' : s.receivedToken = false := htok
        have hidle' : s.allIdle = false := by
          rw [hidle, afterResponse_eq_nil hfind]
          rfl
        simp only [Option.isSome_none, Bool.false_eq_true, if_false]
        refine ⟨?_, ?_, ?_, ?_, ?_⟩
        · cases hb : isResponse i.iLlByte <;>
            simp [Spitxdata.step, hreset, hbusy, htok', htoken, hb]
        · simp [Spitxdata.step, hreset, hbusy, htok', hidle']
        · simp [Spitxdata.step, hreset, hbusy, hidle']
        · cases hb : isResponse i.iLlByte <;>
            simp [Spitxdata.step, hreset, hbusy, htok', htoken, hb]
        · intro hvalid
          have hb : isResponse i.iLlByte = true := by
            simpa [Spitxdata.step, hreset, hbusy, htok', htoken] using hvalid
          simp [Spitxdata.step, htoken, hb]
  · have hheard : s.heard i = [] := if_neg hnow
    have htoken : s.token i = false := by
      rw [token, (Bool.not_eq_true _).mp hnow, Bool.false_and]
    have hnone : i.iLlStb = true → s.receivedToken = false ∧ s.allIdle = false := by
      intro hstb
      rw [hstb, Bool.and_true, Bool.not_eq_true] at hnow
      rw [htok, hidle, hsent hnow]
      exact ⟨rfl, rfl⟩
    rw [hheard, List.append_nil]
    refine ⟨?_, ?_, ?_, ?_, ?_⟩
    · simp [Spitxdata.step, hreset, hbusy, htoken, htok]
    · rw [← hidle]
      cases hstb : i.iLlStb with
      | false => simp [Spitxdata.step, hreset, hbusy, hstb]
      | true => simp [Spitxdata.step, hreset, hbusy, (hnone hstb).1]
    · rw [h.few]
      cases hstb : i.iLlStb with
      | false => simp [Spitxdata.step, hreset, hbusy, hstb]
      | true => simp [Spitxdata.step, hreset, hbusy, (hnone hstb).2]
    · simp [Spitxdata.step, htoken]
    · intro hvalid
      simp [Spitxdata.step, htoken] at hvalid

end Answered

/-! ### A whole block -/

section Runs

variable (s₀ : Spitxdata) (inp : ℕ → Input) (m : ℕ)

/-- A byte is handed over at a clock. -/
def handsAt (n : ℕ) : Bool := (run step s₀ inp n).hands (inp n)

/-- The bytes that have been handed over before clock `n` since the start at clock `m`. -/
def handedBy : ℕ → List (BitVec 8) :=
  log fun j => if m < j && handsAt s₀ inp j then [(run step s₀ inp j).oLlByte] else []

/-- The bytes that have come in before clock `n` since a block of `l` bytes was handed over with
its token and its checksum. -/
def answered (l : ℕ) : ℕ → List (BitVec 8) :=
  log fun j => if (handedBy s₀ inp m j).length = l + 3 && (inp j).iLlStb then [(inp j).iLlByte]
    else []

/-- An idle `spitxdata` is started at clock `m` for a block of `2 ^ k` bytes. Words come from
memory two clocks after their addresses; bytes are taken again and again, at least eight clocks
apart. -/
structure Started (k : ℕ) : Prop where
  small : 3 ≤ k
  large : k ≤ 9
  idle : (run step s₀ inp m).oBusy = false
  start : (inp m).iStart = true
  size : (inp m).iLgblksz = BitVec.ofNat 4 k
  fifo : (inp m).iFifo = f
  noReset : ∀ n, m ≤ n → (inp n).iReset = false
  reads : ∀ n, m < n → (inp (n + 2)).iData = mem (run step s₀ inp n).oAddr
  spaced : ∀ n n', m < n → n < n' → handsAt s₀ inp n = true → handsAt s₀ inp n' = true → n + 8 ≤ n'
  ready : ∀ n, ∃ n', n ≤ n' ∧ (inp n').iLlBusy = false

theorem handedBy_succ (n : ℕ) :
  handedBy s₀ inp m (n + 1) = handedBy s₀ inp m n
    ++ if m < n && handsAt s₀ inp n then [(run step s₀ inp n).oLlByte] else []
  := rfl

theorem answered_succ (l n : ℕ) :
  answered s₀ inp m l (n + 1) = answered s₀ inp m l n
    ++ if (handedBy s₀ inp m n).length = l + 3 && (inp n).iLlStb then [(inp n).iLlByte] else []
  := rfl

/-- When the last byte was handed over and the last word came. -/
def Timed (ph : Phase) (d n : ℕ) : Prop :=
  match ph with
  | .fetch w c => 16 < d ∧ (0 < w → m + c < n ∧ handsAt s₀ inp (n - c) = true)
      ∧ (2 ≤ c → m + c ≤ n ∧ (run step s₀ inp (n + 1 - c)).oAddr = base f + BitVec.ofNat 8 w)
  | .out _ p => 0 < d ∧ (0 < p → ∃ l, m < l ∧ l < n ∧ handsAt s₀ inp l = true
      ∧ n + 8 * (p - 1) + 1 ≤ l + d)
  | .closing => 16 < d ∧ m + 1 < n ∧ handsAt s₀ inp (n - 1) = true
  | .check _ => 16 < d
  | .sent first => 16 < d ∧ (first = true → m + 1 < n ∧ handsAt s₀ inp (n - 1) = true)

/-- The registers and what has been handed over and received, while `o_busy`. -/
structure Sending (k : ℕ) (ph : Phase) (d n : ℕ) : Prop where
  proper : ph.Proper (words k)
  registers : (run step s₀ inp n).At mem f k ph
  digesting : (run step s₀ inp n).Digesting mem f (ph.loaded (words k)) d
  timed : Timed f s₀ inp m ph d n
  handed : handedBy s₀ inp m n = (frameOf mem f (4 * words k)).take (ph.handed (words k))
  response : (run step s₀ inp n).Answered (answered s₀ inp m (4 * words k) n)
  unanswered : (∀ b, ph ≠ .sent b) → answered s₀ inp m (4 * words k) n = []

/-- Bytes of the block are left to be handed over. -/
def Underway (k : ℕ) (n r : ℕ) : Prop :=
  m < n ∧ (run step s₀ inp n).oBusy = true
    ∧ ∃ ph d, Sending mem f s₀ inp m k ph d n ∧ (∀ first, ph ≠ .sent first) ∧ ph.rank (words k) = r

/-- All bytes have been handed over. -/
def AllSent (k : ℕ) (n : ℕ) : Prop :=
  (run step s₀ inp n).oBusy = true ∧ ∃ first d, Sending mem f s₀ inp m k (.sent first) d n

end Runs

section Steps

variable {mem f} {s₀ : Spitxdata} {inp : ℕ → Input} {m k : ℕ} {ph : Phase} {d n : ℕ}
  (hS : Started mem f s₀ inp m k) (h : Sending mem f s₀ inp m k ph d n)
include hS h

/-- No byte is handed over while a word is fetched or while the checksum is asked for, for it is
too early for the next one. -/
theorem Sending.quiet :
  (∃ w c, ph = .fetch w c) ∨ ph = .closing ∨ ph = .sent true → handsAt s₀ inp n = false
  := by
  have hearly : ∀ l, m < l → l < n → n < l + 8 → handsAt s₀ inp l = true →
      handsAt s₀ inp n = false := by
    intro l hml hln hnl hl
    rw [← Bool.not_eq_true]
    intro hnow
    have := hS.spaced l n hml hln hl hnow
    omega
  have htimed := h.timed
  rintro (⟨w, c, rfl⟩ | rfl | rfl)
  · obtain ⟨-, hc, hfirst⟩ := h.proper
    obtain ⟨-, hlast, -⟩ := htimed
    by_cases hw : 0 < w
    · have hc' := hfirst hw
      obtain ⟨hm, hl⟩ := hlast hw
      apply hearly (n - c) (by omega) (by omega) (by omega) hl
    · have hstb : (run step s₀ inp n).oLlStb = false := by
        have hcontrol := congrArg Control.oLlStb h.registers.control
        simpa [Spitxdata.control, Phase.control, hw] using hcontrol
      rw [handsAt, hands, hstb, Bool.false_and]
  · obtain ⟨-, hm, hl⟩ := htimed
    apply hearly (n - 1) (by omega) (by omega) (by omega) hl
  · obtain ⟨-, hlast⟩ := htimed
    obtain ⟨hm, hl⟩ := hlast rfl
    apply hearly (n - 1) (by omega) (by omega) (by omega) hl

/-- The times go on with the phases. -/
theorem Sending.timed_next (hn : m < n) :
  Timed f s₀ inp m (ph.next (words k) (handsAt s₀ inp n)) (if ph.loads then 1 else d + 1) (n + 1)
  := by
  have htimed := h.timed
  have hnot : (∃ w c, ph = .fetch w c) ∨ ph = .closing ∨ ph = .sent true →
      handsAt s₀ inp n = false := h.quiet hS
  cases ph with
  | fetch w c =>
      obtain ⟨hw, hc, hfirst⟩ := h.proper
      obtain ⟨hd, hlast, haddr⟩ := htimed
      rw [hnot (.inl ⟨w, c, rfl⟩), Phase.next]
      split_ifs with hlt hload
      · simp [Phase.loads] at hload
        omega
      · refine ⟨by omega, ?_, ?_⟩
        · intro hw'
          obtain ⟨hm, hl⟩ := hlast hw'
          rw [Nat.add_sub_add_right]
          exact ⟨by omega, hl⟩
        · intro hc'
          by_cases hone : c = 1
          · have hr := h.registers.oAddr
            rw [hone] at hr ⊢
            refine ⟨by omega, ?_⟩
            simpa [Phase.reads, Nat.min_eq_left (Nat.le_sub_one_of_lt hw)] using hr
          · obtain ⟨hm, hl⟩ := haddr (by omega)
            rw [Nat.add_sub_add_right]
            exact ⟨by omega, hl⟩
      · exact ⟨Nat.one_pos, fun hp => absurd hp (Nat.lt_irrefl 0)⟩
      · simp [Phase.loads] at *
        omega
  | out w p =>
      obtain ⟨hw, hp⟩ := h.proper
      obtain ⟨hd, hlast⟩ := htimed
      have hno : (Phase.out w p).loads = false := rfl
      rw [hno, if_neg Bool.false_ne_true]
      cases hh : handsAt s₀ inp n with
      | false =>
          refine ⟨Nat.succ_pos d, ?_⟩
          intro hp'
          obtain ⟨l, hml, hln, hl, hld⟩ := hlast hp'
          use l
          refine ⟨hml, by omega, hl, by omega⟩
      | true =>
          have hnow : n + 8 * p + 1 ≤ n + d := by
            by_cases hp' : 0 < p
            · obtain ⟨l, hml, hln, hl, hld⟩ := hlast hp'
              have := hS.spaced l n hml hln hl hh
              omega
            · omega
          rw [Phase.next, if_neg (by simp)]
          split_ifs with hp' hmore
          · refine ⟨Nat.succ_pos d, ?_⟩
            intro _
            use n
            refine ⟨hn, Nat.lt_succ_self n, hh, by omega⟩
          · refine ⟨by omega, ?_, ?_⟩
            · intro _
              exact ⟨by omega, hh⟩
            · intro hc
              omega
          · exact ⟨by omega, by omega, hh⟩
  | closing =>
      obtain ⟨hd, -, -⟩ := htimed
      exact Nat.lt_succ_of_lt hd
  | check p =>
      have hd : 16 < d := htimed
      have hno : (Phase.check p).loads = false := rfl
      rw [hno, if_neg Bool.false_ne_true, Phase.next]
      split_ifs with hh hp
      · exact Nat.lt_succ_of_lt hd
      · exact Nat.lt_succ_of_lt hd
      · refine ⟨Nat.lt_succ_of_lt hd, ?_⟩
        intro _
        exact ⟨by omega, by simpa using hh⟩
  | sent first =>
      obtain ⟨hd, -⟩ := htimed
      refine ⟨Nat.lt_succ_of_lt hd, ?_⟩
      intro hfalse
      cases hfalse

/-- The next byte of the block is handed over. -/
theorem Sending.handed_next (hn : m < n) :
  handedBy s₀ inp m (n + 1)
    = (frameOf mem f (4 * words k)).take ((ph.next (words k) (handsAt s₀ inp n)).handed (words k))
  := by
  have hstb : (run step s₀ inp n).oLlStb = ph.control.oLlStb :=
    congrArg Control.oLlStb h.registers.control
  have hnext : (ph.next (words k) (handsAt s₀ inp n)).handed (words k)
      = ph.handed (words k) + if handsAt s₀ inp n then 1 else 0 := by
    apply Phase.handed_next h.proper
    rintro (hno | hno)
    · rw [handsAt, hands, hstb, hno, Bool.false_and]
    · apply h.quiet hS hno
  rw [hnext, handedBy_succ, h.handed, decide_eq_true hn, Bool.true_and]
  cases hh : handsAt s₀ inp n with
  | false => simp
  | true =>
      have hheld : ph.held = ph.held - 1 + 1 := by
        have hon : ph.control.oLlStb = true := by
          rw [handsAt, hands, hstb, Bool.and_eq_true] at hh
          apply hh.1
        have hproper := h.proper
        cases ph with
        | fetch w c => rfl
        | out w p =>
            have hp : p < 4 := hproper.2
            simp only [Phase.held]
            omega
        | closing => rfl
        | check p =>
            have hp : p < 3 := hproper
            simp only [Phase.held]
            omega
        | sent first =>
            have hfirst : first = true := hon
            rw [h.quiet hS (.inr (.inr (by rw [hfirst])))] at hh
            cases hh
      have hlt : ph.handed (words k) < (frameOf mem f (4 * words k)).length := by
        rw [length_frameOf]
        have := Phase.handed_le (Phase.proper_next (handsAt s₀ inp n) h.proper)
        rw [hnext, hh, if_pos rfl] at this
        apply this
      have htop := h.registers.gearbox
      rw [hheld] at htop
      rw [if_pos rfl, if_pos rfl, List.take_add_one, oLlByte, htop.top,
        List.getD_eq_getElem _ _ hlt, List.getElem?_eq_getElem hlt, Option.toList_some]

omit hS in
/-- What is received since the block was handed over is received since `data_sent` was set. -/
theorem Sending.answered_next :
  answered s₀ inp m (4 * words k) (n + 1)
    = answered s₀ inp m (4 * words k) n ++ (run step s₀ inp n).heard (inp n)
  := by
  have hsent : (run step s₀ inp n).dataSent = ph.control.dataSent :=
    congrArg Control.dataSent h.registers.control
  have hlen : (handedBy s₀ inp m n).length = ph.handed (words k) := by
    rw [h.handed, List.length_take, length_frameOf, Nat.min_eq_left (Phase.handed_le h.proper)]
  rw [answered_succ, hlen, ← Phase.dataSent_eq h.proper, ← hsent]
  rfl

omit hS in
/-- Nothing is received before `data_sent` is set. -/
theorem Sending.unheard (hsent : (run step s₀ inp n).dataSent = false) :
  answered s₀ inp m (4 * words k) n = []
  := by
  apply h.unanswered
  rintro b rfl
  have hcontrol : (run step s₀ inp n).dataSent = true :=
    congrArg Control.dataSent h.registers.control
  rw [hcontrol] at hsent
  cases hsent

/-- The word that comes is the one whose address was given two clocks before. -/
theorem Sending.data {w : ℕ} (hph : ph = .fetch w 3) :
  (inp n).iData = wordAt mem f w
  := by
  have htimed := h.timed
  rw [hph] at htimed
  obtain ⟨hm, haddr⟩ := htimed.2.2 (by decide)
  have hread := hS.reads (n + 1 - 3) (by omega)
  rw [haddr, show n + 1 - 3 + 2 = n by omega] at hread
  apply hread

/-- The bits of the checksum go on with the phases. -/
theorem Sending.digesting_next (hn : m < n) (hbusy : (run step s₀ inp n).oBusy = true) :
  (run step s₀ inp (n + 1)).Digesting mem f
    ((ph.next (words k) (handsAt s₀ inp n)).loaded (words k)) (if ph.loads then 1 else d + 1)
  := by
  have hreset := hS.noReset n (Nat.le_of_lt hn)
  have hloads := h.registers.loads h.proper
  rw [Phase.loaded_next h.proper, run_succ]
  cases hl : ph.loads with
  | false => apply h.digesting.silent hbusy hreset (by rw [hloads, hl])
  | true =>
      cases ph with
      | fetch w c =>
          have hc : c = 3 := of_decide_eq_true hl
          apply h.digesting.load hbusy hreset (by rw [hloads, hl]) h.timed.1
          apply h.data hS
          rw [hc]
          rfl
      | out w p => cases hl
      | closing => cases hl
      | check p => cases hl
      | sent first => cases hl

omit hS in
/-- Before all is handed over nothing is received. -/
theorem Sending.unsent (hnot : ∀ first, ph ≠ .sent first) :
  answered s₀ inp m (4 * words k) (n + 1) = []
  := by
  have hsent : (run step s₀ inp n).dataSent = false := by
    have hcontrol : (run step s₀ inp n).dataSent = ph.control.dataSent :=
      congrArg Control.dataSent h.registers.control
    rw [hcontrol]
    cases ph with
    | sent first => cases hnot first rfl
    | _ => rfl
  rw [h.answered_next, h.unheard hsent, heard, hsent]
  rfl

/-- While `o_busy` stays, the phases go on. -/
theorem Sending.advance (hn : m < n) (hbusy : (run step s₀ inp n).oBusy = true)
    (hfew : idleAgain (answered s₀ inp m (4 * words k) (n + 1)) = false) :
  Sending mem f s₀ inp m k (ph.next (words k) (handsAt s₀ inp n))
    (if ph.loads then 1 else d + 1) (n + 1)
  := by
  have hreset := hS.noReset n (Nat.le_of_lt hn)
  constructor
  case proper => apply Phase.proper_next _ h.proper
  case registers =>
    apply h.registers.step hbusy hreset hS.small hS.large h.proper
    · apply h.quiet hS
    · intro w hph
      apply h.data hS hph
    · rintro rfl
      apply h.digesting.done h.timed.1
  case digesting => apply h.digesting_next hS hn hbusy
  case timed => apply h.timed_next hS hn
  case handed => apply h.handed_next hS hn
  case response =>
    have hstep := h.response.step hbusy hreset h.unheard
    rw [← h.answered_next] at hstep
    exact ⟨hstep.1, hstep.2.1, hfew⟩
  case unanswered =>
    intro hnot
    apply h.unsent
    rintro first rfl
    cases hnot false rfl

/-- `o_busy` drops when the card is idle again, and the response is shown when it comes. -/
theorem Sending.shows (hn : m < n) (hbusy : (run step s₀ inp n).oBusy = true) :
  (run step s₀ inp (n + 1)).oBusy = !idleAgain (answered s₀ inp m (4 * words k) (n + 1))
    ∧ (run step s₀ inp (n + 1)).oRxvalid
      = (!((answered s₀ inp m (4 * words k) n).find? isResponse).isSome
        && ((answered s₀ inp m (4 * words k) (n + 1)).find? isResponse).isSome)
    ∧ ((run step s₀ inp (n + 1)).oRxvalid = true →
      (answered s₀ inp m (4 * words k) (n + 1)).find? isResponse
        = some (run step s₀ inp (n + 1)).oResponse)
  := by
  have hstep := h.response.step hbusy (hS.noReset n (Nat.le_of_lt hn)) h.unheard
  rw [← h.answered_next] at hstep
  exact hstep.2.2

end Steps

section Whole

variable {mem f} {s₀ : Spitxdata} {inp : ℕ → Input} {m k : ℕ} (hS : Started mem f s₀ inp m k)
include hS

omit hS in
theorem handedBy_start :
  handedBy s₀ inp m (m + 1) = []
  := by
  rw [handedBy, log_eq_of_silent (Nat.zero_le (m + 1)), log_zero]
  intro j _ hj
  simp [Nat.not_lt.mpr (Nat.lt_succ_iff.mp hj)]

omit hS in
theorem answered_start (l : ℕ) :
  answered s₀ inp m l (m + 1) = []
  := by
  rw [answered, log_eq_of_silent (Nat.zero_le (m + 1)), log_zero]
  intro j _ hj
  have hnone : handedBy s₀ inp m j = [] := by
    rw [← List.prefix_nil, ← handedBy_start]
    apply log_mono _ (Nat.le_of_lt hj)
  simp [hnone]

theorem sending_start :
  (run step s₀ inp (m + 1)).oBusy = true ∧ Sending mem f s₀ inp m k (.fetch 0 0) 17 (m + 1)
  := by
  have hreset := hS.noReset m (Nat.le_refl m)
  have hidle := hS.idle
  have hstart := hS.start
  refine ⟨?_, ?_⟩
  · simp [run_succ, step, hreset, hidle, hstart]
  · constructor
    case proper => exact ⟨words_pos k, Nat.zero_le 3, fun h => absurd h (Nat.lt_irrefl 0)⟩
    case registers =>
      rw [← hS.fifo]
      apply at_start hS.small hS.large hidle hreset hstart hS.size
    case digesting =>
      apply Digesting.resting
      · simp [run_succ, step, hidle]
      · simp [run_succ, step, hidle]
      · simp only [run_succ, step, hidle]
        rfl
    case timed =>
      refine ⟨by decide, fun h => absurd h (Nat.lt_irrefl 0), ?_⟩
      intro hc
      cases hc
    case handed =>
      rw [handedBy_start]
      rfl
    case response =>
      rw [answered_start]
      refine ⟨?_, ?_, rfl⟩
      · simp [run_succ, step, hidle]
      · simp [run_succ, step, hidle, afterResponse]
    case unanswered =>
      intro _
      apply answered_start

/-- While `o_busy` is set, the block is under way. -/
theorem run_sending {n : ℕ} (hn : m < n)
    (hbusy : ∀ j, m < j → j ≤ n → (run step s₀ inp j).oBusy = true) :
  ∃ ph d, Sending mem f s₀ inp m k ph d n
  := by
  induction hn with
  | refl => exact ⟨_, _, (sending_start hS).2⟩
  | @step n hn ih =>
      obtain ⟨ph, d, h⟩ := ih fun j hj hjn => hbusy j hj (Nat.le_succ_of_le hjn)
      have hnow := hbusy n hn (Nat.le_succ n)
      refine ⟨_, _, h.advance hS hn hnow ?_⟩
      rw [← Bool.not_eq_true', ← (h.shows hS hn hnow).1]
      apply hbusy (n + 1) (Nat.lt_succ_of_lt hn) (Nat.le_refl _)

/-- Where bytes are left, the end of the block comes nearer. -/
theorem Underway.step {n r : ℕ} (h : Underway mem f s₀ inp m k n r) :
  AllSent mem f s₀ inp m k (n + 1)
    ∨ ∃ r' ≤ r, Underway mem f s₀ inp m k (n + 1) r' ∧ ((inp n).iLlBusy = false → r' < r)
  := by
  obtain ⟨hn, hbusy, ph, d, hsending, hnot, rfl⟩ := h
  have hfew : idleAgain (answered s₀ inp m (4 * words k) (n + 1)) = false := by
    rw [hsending.unsent hnot]
    rfl
  have hbusy' : (run Spitxdata.step s₀ inp (n + 1)).oBusy = true := by
    rw [(hsending.shows hS hn hbusy).1, hfew]
    rfl
  have hnext := hsending.advance hS hn hbusy hfew
  obtain ⟨hle, hlt⟩ := Phase.rank_next (handsAt s₀ inp n) hsending.proper hnot
  by_cases hsent : ∃ first, ph.next (words k) (handsAt s₀ inp n) = .sent first
  · obtain ⟨first, hfirst⟩ := hsent
    left
    rw [hfirst] at hnext
    exact ⟨hbusy', first, _, hnext⟩
  · right
    use (ph.next (words k) (handsAt s₀ inp n)).rank (words k), hle
    refine ⟨⟨Nat.lt_succ_of_lt hn, hbusy', _, _, hnext, fun first hf => hsent ⟨first, hf⟩, rfl⟩, ?_⟩
    intro hready
    apply hlt
    intro hwaits
    have hstb : (run Spitxdata.step s₀ inp n).oLlStb = true := by
      have hcontrol : (run Spitxdata.step s₀ inp n).oLlStb = ph.control.oLlStb :=
        congrArg Control.oLlStb hsending.registers.control
      rw [hcontrol]
      rcases hwaits with ⟨w, p, rfl⟩ | ⟨p, rfl⟩ <;> rfl
    rw [handsAt, hands, hstb, hready]
    rfl

/-- Sooner or later all is handed over, and `o_busy` is set until then. -/
theorem reaches_sent :
  ∃ n, m < n ∧ handedBy s₀ inp m n = frameOf mem f (4 * words k)
    ∧ ∀ j, m < j → j ≤ n → (run step s₀ inp j).oBusy = true
  := by
  obtain ⟨hbusy, hstart⟩ := sending_start hS
  obtain ⟨n, hn, ⟨hnbusy, first, d, h⟩, hwork⟩ := reaches_of_rank
    (fun n r => Underway.step hS) (fun n _ _ => hS.ready n)
    ⟨Nat.lt_succ_self m, hbusy, _, _, hstart, fun first hsent => (by cases hsent), rfl⟩
  use n, by omega
  refine ⟨?_, ?_⟩
  · rw [h.handed, List.take_of_length_le]
    apply Nat.le_of_eq (length_frameOf mem f _)
  · intro j hj hjn
    rcases Nat.eq_or_lt_of_le hjn with rfl | hlt
    · apply hnbusy
    · obtain ⟨r, -, hjbusy, -⟩ := hwork j hj hlt
      apply hjbusy

end Whole

section Blocks

variable (s₀ : Spitxdata) (inp : ℕ → Input) (m : ℕ)

/-- A block of `2 ^ k` bytes is handed over, byte after byte, behind its token and before its
checksum; then `o_busy` stays until the card is idle again, and the first response is shown. -/
structure Transmits (k : ℕ) : Prop where
  all : ∃ n, m < n ∧ handedBy s₀ inp m n = frameOf mem f (2 ^ k)
    ∧ ∀ j, m < j → j ≤ n → (run step s₀ inp j).oBusy = true
  nothingElse : ∀ n, m < n → (∀ j, m < j → j ≤ n → (run step s₀ inp j).oBusy = true) →
    handedBy s₀ inp m n <+: frameOf mem f (2 ^ k)
  waits : ∀ n, m < n → (∀ j, m < j → j ≤ n → (run step s₀ inp j).oBusy = true) →
    (run step s₀ inp (n + 1)).oBusy = !idleAgain (answered s₀ inp m (2 ^ k) (n + 1))
  shows : ∀ n, m < n → (∀ j, m < j → j ≤ n → (run step s₀ inp j).oBusy = true) →
    ((run step s₀ inp (n + 1)).oRxvalid = true
      ↔ (answered s₀ inp m (2 ^ k) n).find? isResponse = none
        ∧ (answered s₀ inp m (2 ^ k) (n + 1)).find? isResponse
          = some (run step s₀ inp (n + 1)).oResponse)

end Blocks

section Blocks

variable {mem f} {s₀ : Spitxdata} {inp : ℕ → Input} {m k : ℕ} (hS : Started mem f s₀ inp m k)
include hS

theorem transmits_of_ne (hk : k ≠ 3) :
  Transmits mem f s₀ inp m k
  := by
  have hsize := words_of_ne hS.small hk
  constructor
  case all =>
    rw [← hsize]
    apply reaches_sent hS
  case nothingElse =>
    intro n hn hbusy
    obtain ⟨ph, d, h⟩ := run_sending hS hn hbusy
    rw [← hsize, h.handed]
    apply List.take_prefix
  case waits =>
    intro n hn hbusy
    obtain ⟨ph, d, h⟩ := run_sending hS hn hbusy
    rw [← hsize]
    apply (h.shows hS hn (hbusy n hn (Nat.le_refl n))).1
  case shows =>
    intro n hn hbusy
    obtain ⟨ph, d, h⟩ := run_sending hS hn hbusy
    obtain ⟨-, hvalid, hresponse⟩ := h.shows hS hn (hbusy n hn (Nat.le_refl n))
    rw [← hsize]
    constructor
    · intro hshown
      refine ⟨?_, hresponse hshown⟩
      rw [hvalid, Bool.and_eq_true, Bool.not_eq_true', ← Bool.not_eq_true,
        Option.isSome_iff_ne_none, not_not] at hshown
      apply hshown.1
    · rintro ⟨hbefore, hnow⟩
      rw [hvalid, hbefore, hnow]
      rfl

/-- Of a block of eight bytes one word is handed over. -/
theorem handed_short (hk : k = 3) {n : ℕ} (hn : m < n)
    (hbusy : ∀ j, m < j → j ≤ n → (run step s₀ inp j).oBusy = true) :
  (handedBy s₀ inp m n).length < 2 ^ k + 3
  := by
  obtain ⟨ph, d, h⟩ := run_sending hS hn hbusy
  have hwords : words k = 1 := if_pos hk
  have hle := Phase.handed_le h.proper
  rw [hwords] at hle
  rw [h.handed, List.length_take, hwords, hk]
  omega

/-- A block is transmitted unless it is one of eight bytes. -/
theorem transmits_iff :
  Transmits mem f s₀ inp m k ↔ k ≠ 3
  := by
  constructor
  · intro h hk
    obtain ⟨n, hn, hall, hbusy⟩ := h.all
    have hshort := handed_short hS hk hn hbusy
    rw [hall, length_frameOf] at hshort
    cases Nat.lt_irrefl _ hshort
  · intro hk
    apply transmits_of_ne hS hk

end Blocks

/-- A memory of zeros is sent, of which a byte is taken every eight clocks. -/
def zeros (k n : ℕ) : Input :=
  ⟨false, n == 0, BitVec.ofNat 4 k, false, 0, n % 8 != 0, false, 0⟩

theorem zeros_started (k : ℕ) (hk : 3 ≤ k) (hk' : k ≤ 9) :
  Started (fun _ => 0) false ⟨false, false, false, false, 0, 0, false, 0, 0, false, false, 0, false,
    false, false, false, 0, 0, false, 0, 0⟩ (zeros k) 0 k
  := by
  constructor
  case small => apply hk
  case large => apply hk'
  case noReset =>
    intro n _
    rfl
  case reads =>
    intro n _
    rfl
  case spaced =>
    intro n n' _ hlt hn hn'
    simp only [handsAt, hands, zeros, Bool.and_eq_true, Bool.not_eq_true', bne_eq_false_iff_eq]
      at hn hn'
    omega
  case ready =>
    intro n
    use 8 * n, by omega
    simp [zeros]
  all_goals rfl

/-- A block of sixteen bytes. -/
theorem transmits_iff_sixteen :
  Transmits (fun _ => 0) false ⟨false, false, false, false, 0, 0, false, 0, 0, false, false, 0,
      false, false, false, false, 0, 0, false, 0, 0⟩ (zeros 4) 0 4
    ↔ 4 ≠ 3
  := transmits_iff (zeros_started 4 (by decide) (by decide))

/-- A block of eight bytes is not transmitted. -/
theorem not_transmits_eight :
  ¬ ∀ (mem : BitVec 8 → BitVec 32) (f : Bool) (s₀ : Spitxdata) (inp : ℕ → Input) (m k : ℕ),
    Started mem f s₀ inp m k → Transmits mem f s₀ inp m k
  := by
  intro hall
  have hstarted := zeros_started 3 (by decide) (by decide)
  obtain ⟨n, hn, hframe, hbusy⟩ := (hall _ _ _ _ _ _ hstarted).all
  have hshort := handed_short hstarted rfl hn hbusy
  rw [hframe, length_frameOf] at hshort
  cases Nat.lt_irrefl _ hshort

end Spitxdata

end ZBasic
