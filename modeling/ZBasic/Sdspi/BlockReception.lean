import Mathlib.Data.List.GetD
import Mathlib.Tactic.IntervalCases
import ZBasic.Clocked.Counter
import ZBasic.Clocked.Run
import ZBasic.Sdspi.SdBlock
import ZBasic.Sdspi.Spirxdata

/-!
# Receiving a whole block

A block of `2 ^ k` bytes is written to memory and its checksum is compared, for every block size
but the smallest one, of which `spirxdata` takes half the words only.
-/

namespace ZBasic

open Clocked
open SdBlock

namespace Spirxdata

/-- The word `j` of a block, the first byte highest. -/
def wordOf (bs : List (BitVec 8)) (j : ℕ) : BitVec 32 :=
  bs.getD (4 * j) 0 ++ bs.getD (4 * j + 1) 0 ++ bs.getD (4 * j + 2) 0 ++ bs.getD (4 * j + 3) 0

theorem nextCrcData_eq (crc : BitVec 16) (hi lo : Bool) :
  nextCrcData crc hi lo = crcBit crcPolynomial (crcBit crcPolynomial crc hi) lo
  := by
  have hmsb : ∀ v : BitVec 16, v.getLsbD 15 = v.msb := fun v => (BitVec.msb_eq_getLsbD_last v).symm
  simp only [nextCrcData, hmsb]
  rfl

/-! ### The registers while a block is received -/

/-- `fill` once `l` bytes of the block have come in. -/
def fillOf (l : ℕ) : BitVec 3 := if l % 4 = 0 then 0 else if l % 4 = 1 then 1
  else if l % 4 = 2 then 3 else 7

/-- The words that have been written `d` clocks after the last one of `l` bytes came in. -/
def passed (l d : ℕ) : ℕ := if d = 1 ∧ l % 4 = 0 then l / 4 - 1 else l / 4

/-- What has gone to memory of the bytes `ds`, `d` clocks after the last one came in. -/
structure Storing (k : ℕ) (f : Bool) (ds : List (BitVec 8)) (d : ℕ) (s : Spirxdata) : Prop where
  fill : s.fill = fillOf ds.length
  gearbox : ∀ j < 3, j < ds.length →
    s.gearbox.extractLsb' (8 * j) 8 = ds.getD (ds.length - 1 - j) 0
  oWrite : s.oWrite = decide (d = 1 ∧ ds.length % 4 = 0 ∧ 0 < ds.length)
  oData : s.oWrite = true → s.oData = wordOf ds (ds.length / 4 - 1)
  oAddr : s.oAddr = base f + BitVec.ofNat 8 (min (passed ds.length d) (words k - 1))
  lastaddr : s.lastaddr = decide (words k ≤ passed ds.length d + 1)
  allMemWritten : s.allMemWritten = decide (words k ≤ passed ds.length d)
  lastdata : s.lastdata = decide (4 * words k ≤ ds.length + if 2 ≤ d then 1 else 0)
  crcByte : s.crcByte.toNat = ds.length - (4 * words k - 1)
  rLgblkszM3 : s.rLgblkszM3 = BitVec.ofNat 3 (k - 3)

/-- What the checksum has taken of the bytes `ds`, `d` clocks after the last one came in. -/
inductive Digesting (k : ℕ) (ds : List (BitVec 8)) (d : ℕ) (s : Spirxdata) : Prop
  | resting : s.crcActive = false → s.crcFill = 0 → s.crcData = crc16 (ds.take (4 * words k)) →
      Digesting k ds d s
  | working (pre : List (BitVec 8)) (x : BitVec 8) : ds = pre ++ [x] → ds.length ≤ 4 * words k →
      0 < d → d < 5 → s.crcActive = true → s.crcFill.toNat + d = 5 →
      s.crcGearbox = x <<< (2 * (d - 1)) →
      s.crcData = crcOf crcPolynomial (pre.flatMap bitsOf ++ (bitsOf x).take (2 * (d - 1))) →
      Digesting k ds d s

/-- The registers `d` clocks after the last one of the bytes `ds` came in, or before the token. -/
structure Receiving (k : ℕ) (f token : Bool) (ds : List (BitVec 8)) (d : ℕ) (s : Spirxdata) :
    Prop where
  oBusy : s.oBusy = true
  oRxvalid : s.oRxvalid = false
  receivedToken : s.receivedToken = token
  storing : s.Storing k f ds d
  digesting : s.Digesting k ds d
  crcErr : s.crcErr = decide (4 * words k < ds.length
    ∧ (crc16 (ds.take (4 * words k))).extractLsb' 8 8 ≠ ds.getD (4 * words k) 0)

section Step

variable {k : ℕ} {f token : Bool} {ds : List (BitVec 8)} {d : ℕ} {s : Spirxdata} {i : Input}

/-- The last address is known one word before. -/
theorem Storing.nearlyLast (h : s.Storing k f ds d) (hk : 3 < k) (hk' : k ≤ 9)
    (hp : passed ds.length d + 1 < words k) :
  s.nearlyLast = decide (words k ≤ passed ds.length d + 2)
  := by
  have haddr : s.oAddr = base f + BitVec.ofNat 8 (passed ds.length d) := by
    rw [h.oAddr, Nat.min_eq_left (by omega)]
  have hwords : words k = 2 ^ (k - 2) := if_neg (by omega)
  rw [hwords] at hp ⊢
  replace hp := Nat.lt_sub_of_add_lt hp
  rw [Spirxdata.nearlyLast, haddr, h.rLgblkszM3]
  clear haddr h
  generalize passed ds.length d = p at hp ⊢
  revert f p
  interval_cases k <;> decide +kernel

/-- A block is waited for from the clock after the start. -/
theorem receiving_start (hk : 3 ≤ k) (hk' : k ≤ 9) (hbusy : s.oBusy = false)
    (hreset : i.iReset = false) (hstart : i.iStart = true) (hsize : i.iLgblksz = BitVec.ofNat 4 k) :
  (s.step i).Receiving k i.iFifo false [] 1
  := by
  have hpos := words_pos k
  constructor
  · simp [step, hbusy, hreset, hstart]
  · simp [step, hbusy]
  · simp [step, hbusy]
  · constructor
    · simp [step, hbusy, fillOf]
    · intro j _ hj
      cases hj
    · simp [step, hbusy]
    · simp [step, hbusy]
    · simp [step, hbusy, passed, base]
    · have hsmall : decide (BitVec.ofNat 4 k < 4#4) = decide (words k ≤ 1) := by
        interval_cases k <;> rfl
      simpa [step, hbusy, hsize, passed] using hsmall
    · simp [step, hbusy, passed]
      omega
    · simp [step, hbusy]
      omega
    · simp [step, hbusy]
    · have hcase : (BitVec.ofNat 4 k - 3#4).setWidth 3 = BitVec.ofNat 3 (k - 3) := by
        interval_cases k <;> rfl
      simpa [step, hbusy, hsize] using hcase
  · apply Digesting.resting
    · simp [step, hbusy]
    · simp [step, hbusy]
    · simp [step, hbusy, crc16, crcOfBytes, crcOf]
  · simp [step, hbusy]

theorem passed_succ (l : ℕ) {d : ℕ} (hd : 0 < d) :
  passed l (d + 1) = passed l d + if d = 1 ∧ l % 4 = 0 ∧ 0 < l then 1 else 0
  := by
  rw [passed, passed]
  split_ifs <;> omega

/-- A byte does not count as one more word before it has been written. -/
theorem passed_byte (l : ℕ) {d : ℕ} (hd : 1 < d) :
  passed (l + 1) 1 = passed l d
  := by
  rw [passed, passed]
  split_ifs <;> omega

/-- The address counts on after a word is written, and stays at the last one. -/
theorem Storing.addr_step (h : s.Storing k f ds d) (hbusy : s.oBusy = true) (hk : 3 ≤ k)
    (hk' : k ≤ 9) {p : ℕ} (hp : p = passed ds.length d + if s.oWrite then 1 else 0) :
  (s.step i).oAddr = base f + BitVec.ofNat 8 (min p (words k - 1))
    ∧ (s.step i).lastaddr = decide (words k ≤ p + 1)
  := by
  have haddr : (s.step i).oAddr = if s.oWrite && !s.lastaddr then s.oAddr + 1 else s.oAddr := by
    simp [step, hbusy]
  have hlast : (s.step i).lastaddr
      = if s.oWrite && !s.lastaddr then s.nearlyLast else s.lastaddr := by
    simp [step, hbusy]
  rw [haddr, hlast, h.oAddr]
  by_cases hnow : (s.oWrite && !s.lastaddr) = true
  · obtain ⟨hwrite, hmore⟩ := Bool.and_eq_true_iff.mp hnow
    rw [h.lastaddr, Bool.not_eq_true', decide_eq_false_iff_not, Nat.not_le] at hmore
    have hbig : 3 < k := by
      by_contra hsmall
      have : words k = 1 := if_pos (by omega)
      omega
    rw [if_pos hwrite] at hp
    rw [if_pos hnow, if_pos hnow, h.nearlyLast hbig hk' hmore, hp]
    constructor
    · rw [Nat.min_eq_left (by omega), Nat.min_eq_left (by omega), BitVec.ofNat_add,
        BitVec.add_assoc]
      rfl
    · rfl
  · rw [if_neg hnow, if_neg hnow, h.lastaddr]
    cases hwrite : s.oWrite with
    | false =>
        rw [hp, hwrite]
        exact ⟨rfl, rfl⟩
    | true =>
        rw [hwrite, Bool.true_and, h.lastaddr, Bool.not_eq_true', decide_eq_false_iff_not,
          not_not] at hnow
        rw [hwrite, if_pos rfl] at hp
        constructor
        · rw [Nat.min_eq_right (by omega), Nat.min_eq_right (by omega)]
        · rw [decide_eq_decide]
          omega

theorem Storing.fill_eq (h : s.Storing k f ds d) :
  s.fill = 7 ↔ ds.length % 4 = 3
  := by
  rw [h.fill, fillOf]
  split_ifs <;> simp <;> omega

/-- The last word is known to be complete but for its last byte before that one comes. -/
theorem Storing.lastdata_step (h : s.Storing k f ds d) (hbusy : s.oBusy = true) :
  (s.step i).lastdata = decide (4 * words k ≤ ds.length + 1)
  := by
  have hpos := words_pos k
  have hpassed : ds.length % 4 = 3 → passed ds.length d = ds.length / 4 := by
    intro hthree
    rw [passed, if_neg (by omega)]
  have hnext : (s.step i).lastdata
      = if !s.lastdata then s.lastaddr && decide (s.fill = 7) else s.lastdata := by
    simp [step, hbusy]
  rw [hnext, h.lastdata, h.lastaddr, Bool.eq_iff_iff]
  simp only [h.fill_eq]
  grind

/-- No byte comes in. -/
theorem Storing.silent (h : s.Storing k f ds d) (hbusy : s.oBusy = true)
    (hreset : i.iReset = false) (htoken : s.receivedToken = false → ds = []) (hd : 0 < d)
    (hk : 3 ≤ k) (hk' : k ≤ 9) (hstb : i.iLlStb = false) :
  (s.step i).Storing k f ds (d + 1)
  := by
  have hpassed : passed ds.length (d + 1) = passed ds.length d + if s.oWrite then 1 else 0 := by
    rw [passed_succ _ hd, h.oWrite]
    simp only [decide_eq_true_eq]
  obtain ⟨haddr, hlast⟩ := h.addr_step hbusy hk hk' (i := i) hpassed
  have hpos := words_pos k
  constructor
  · cases ht : s.receivedToken with
    | true => simp [step, hbusy, ht, hstb, h.fill]
    | false => simp [step, hbusy, ht, htoken ht, fillOf]
  · simpa [step, hstb] using h.gearbox
  · rw [decide_eq_false (by omega)]
    simp [step, hbusy, hreset, hstb]
  · simp [step, hbusy, hreset, hstb]
  · apply haddr
  · apply hlast
  · simp only [step, hbusy, hreset, h.allMemWritten, hpassed, h.lastaddr]
    grind
  · rw [h.lastdata_step hbusy, if_pos (by omega)]
  · simpa [step, hbusy, hreset, hstb] using h.crcByte
  · simpa [step, hbusy] using h.rLgblkszM3

/-- A byte of the block or of its checksum comes in. -/
theorem Storing.byte (h : s.Storing k f ds d) (hbusy : s.oBusy = true)
    (hreset : i.iReset = false) (htoken : s.receivedToken = true) (hd : 1 < d)
    (hlen : ds.length ≤ 4 * words k) (hk : 3 ≤ k) (hk' : k ≤ 9) (hstb : i.iLlStb = true) :
  (s.step i).Storing k f (ds ++ [i.iLlByte]) 1
  := by
  have hwrite : s.oWrite = false := by
    rw [h.oWrite, decide_eq_false_iff_not]
    omega
  have hpassed : passed (ds.length + 1) 1 = passed ds.length d + if s.oWrite then 1 else 0 := by
    rw [passed_byte _ hd, hwrite, if_neg Bool.false_ne_true, Nat.add_zero]
  have hnow : passed ds.length d = ds.length / 4 := by
    rw [passed, if_neg (by omega)]
  obtain ⟨haddr, hlast⟩ := h.addr_step hbusy hk hk' (i := i) hpassed
  have hpos := words_pos k
  have hlen' : (ds ++ [i.iLlByte]).length = ds.length + 1 := by simp
  have hgearbox : ∀ j < 4, j < ds.length + 1 →
      (s.gearbox ++ i.iLlByte).extractLsb' (8 * j) 8
        = (ds ++ [i.iLlByte]).getD (ds.length - j) 0 := by
    intro j hj hjl
    rcases Nat.eq_zero_or_pos j with rfl | hpos
    · rw [extract_append_low _ _ (by decide), extract_all]
      simp
    · rw [extract_append_high _ _ (by omega), List.getD_append _ _ _ _ (by omega)]
      rw [show 8 * j - 8 = 8 * (j - 1) by omega, h.gearbox (j - 1) (by omega) (by omega),
        show ds.length - 1 - (j - 1) = ds.length - j by omega]
  constructor
  · rw [hlen']
    simp only [step, hbusy, htoken, hstb, h.fill_eq]
    rw [h.fill, fillOf, fillOf]
    have hmod : ds.length % 4 < 4 := Nat.mod_lt _ (by decide)
    rcases (by omega : ds.length % 4 = 0 ∨ ds.length % 4 = 1 ∨ ds.length % 4 = 2
      ∨ ds.length % 4 = 3) with hmod | hmod | hmod | hmod
    all_goals
      rw [Nat.add_mod, hmod]
      rfl
  · intro j hj hjl
    have hnext : (s.step i).gearbox.extractLsb' (8 * j) 8
        = (s.gearbox ++ i.iLlByte).extractLsb' (8 * j) 8 := by
      simp only [step, hstb, if_true]
      rcases Nat.eq_zero_or_pos j with rfl | hpos
      · rw [extract_append_low _ _ (by decide), extract_append_low _ _ (by decide)]
      · rw [extract_append_high _ _ (by omega), extract_append_high _ _ (by omega),
          extract_extract _ (by omega), Nat.zero_add]
    rw [hnext, hgearbox j (by omega) (by omega), hlen', Nat.add_sub_cancel]
  · rw [hlen']
    simp only [step, hbusy, hreset, htoken, hstb, h.fill_eq, h.allMemWritten, hnow]
    grind
  · intro hnext
    have hword : s.fill = 7 ∧ s.allMemWritten = false := by
      simp only [step, hbusy, hreset, htoken, hstb] at hnext
      grind
    have hthree := h.fill_eq.mp hword.1
    have hdata : (s.step i).oData = s.gearbox ++ i.iLlByte := by
      simp [step, htoken, hword.2]
    rw [hdata, hlen', wordOf, show 4 * ((ds.length + 1) / 4 - 1) = ds.length - 3 by omega,
      show ds.length - 3 + 1 = ds.length - 2 by omega,
      show ds.length - 3 + 2 = ds.length - 1 by omega,
      show ds.length - 3 + 3 = ds.length - 0 by omega, ← hgearbox 3 (by decide) (by omega),
      ← hgearbox 2 (by decide) (by omega), ← hgearbox 1 (by decide) (by omega),
      ← hgearbox 0 (by decide) (by omega)]
    apply eq_bytes
  · rw [hlen']
    apply haddr
  · rw [hlen']
    apply hlast
  · rw [hlen', passed_byte _ hd]
    simp [step, hbusy, hreset, hwrite, h.allMemWritten]
  · rw [hlen', h.lastdata_step hbusy]
    simp
  · have hlastdata : s.lastdata = decide (4 * words k ≤ ds.length + 1) := by
      rw [h.lastdata, if_pos (by omega)]
    have hlastaddr : s.lastaddr = decide (words k ≤ ds.length / 4 + 1) := by rw [h.lastaddr, hnow]
    have hcount := h.crcByte
    have hnext : (s.step i).crcByte
        = if s.lastaddr && s.lastdata then s.crcByte + 1 else s.crcByte := by
      simp [step, hbusy, hreset, hstb]
    rw [hlen', hnext, hlastaddr, hlastdata]
    split_ifs with hend
    · rw [toNat_succ (by omega), hcount]
      simp only [Bool.and_eq_true, decide_eq_true_eq] at hend
      omega
    · simp only [Bool.and_eq_true, decide_eq_true_eq] at hend
      omega
  · simpa [step, hbusy] using h.rLgblkszM3

theorem take_words (hlen : ds.length ≤ 4 * words k) :
  ds.take (4 * words k) = ds
  := List.take_of_length_le hlen

theorem crcOf_working (pre : List (BitVec 8)) (x : BitVec 8) :
  crcOf crcPolynomial (pre.flatMap bitsOf ++ (bitsOf x).take (2 * 4)) = crc16 (pre ++ [x])
  := by
  rw [show 2 * 4 = 8 from rfl, take_bitsOf, crc16, crcOfBytes, List.flatMap_append]
  simp

theorem extract_shift (x : BitVec 8) :
  x.extractLsb' 0 6 ++ 0#2 = x <<< 2
  := by
  ext j hj
  simp only [← BitVec.getLsbD_eq_getElem, BitVec.getLsbD_append, BitVec.getLsbD_extractLsb',
    BitVec.getLsbD_shiftLeft]
  grind

/-- The checksum takes two bits of the last byte at each clock. -/
theorem Digesting.silent (h : s.Digesting k ds d) (hbusy : s.oBusy = true)
    (hreset : i.iReset = false) (htoken : s.receivedToken = false → ds = [])
    (hstb : i.iLlStb = false) :
  (s.step i).Digesting k ds (d + 1)
  := by
  have hnew : s.newDataByte i = false := by simp [newDataByte, hstb]
  cases h with
  | resting hactive hfill hdata =>
      apply Digesting.resting
      · simp [step, hactive, hnew]
      · simp [step, hactive, hnew, hfill]
      · simp [step, hbusy, hactive, hdata]
  | working pre x hds hlen hd hd' hactive hfill hgearbox hdata =>
      have htok : s.receivedToken = true := by
        rw [← Bool.not_eq_false]
        intro htok
        rw [htoken htok] at hds
        simp at hds
      have hbit : ∀ j < 2, s.crcGearbox.getLsbD (7 - j) = x.getMsbD (2 * (d - 1) + j) := by
        intro j hj
        rw [hgearbox, BitVec.getLsbD_shiftLeft, BitVec.getMsbD]
        simp only [show 7 - j < 8 by omega, show ¬ 7 - j < 2 * (d - 1) by omega,
          show 2 * (d - 1) + j < 8 by omega, decide_true, decide_false, Bool.not_false,
          Bool.true_and, show 7 - j - 2 * (d - 1) = 8 - 1 - (2 * (d - 1) + j) by omega]
      have hnext : (s.step i).crcData
          = crcOf crcPolynomial (pre.flatMap bitsOf ++ (bitsOf x).take (2 * d)) := by
        have htwo := crcOf_take_two crcPolynomial x (pre.flatMap bitsOf) (k := 2 * (d - 1))
          (by omega)
        rw [show 2 * (d - 1) + 2 = 2 * d by omega] at htwo
        rw [htwo, ← hbit 1 (by decide), ← Nat.add_zero (2 * (d - 1)), ← hbit 0 (by decide),
          Nat.add_zero, ← hdata, ← nextCrcData_eq]
        simp [step, hbusy, hactive]
      have hcount : (s.step i).crcFill.toNat + (d + 1) = 5 := by
        have hfill' : (s.step i).crcFill = s.crcFill - 1 := by
          simp [step, hbusy, hreset, htok, hactive, hnew]
        rw [hfill', toNat_pred (by omega)]
        omega
      by_cases hlast : d = 4
      · apply Digesting.resting
        · simp [step, hbusy, hreset, htok, hactive, hnew, BitVec.lt_def]
          omega
        · rw [← BitVec.toNat_inj]
          change _ = 0
          omega
        · rw [hnext, hlast, crcOf_working, ← hds, take_words hlen]
      · apply Digesting.working pre x hds hlen (Nat.succ_pos d) (by omega)
        · simp [step, hbusy, hreset, htok, hactive, hnew, BitVec.lt_def]
          omega
        · apply hcount
        · have hshift : (s.step i).crcGearbox = s.crcGearbox <<< 2 := by
            rw [← extract_shift]
            simp [step, hactive]
          rw [hshift, hgearbox, ← BitVec.shiftLeft_add]
          congr 1
          omega
        · rw [hnext, Nat.succ_sub_one]

/-- The checksum takes the bytes of the block and no other. -/
theorem Digesting.byte (h : s.Digesting k ds d) (hbusy : s.oBusy = true)
    (hreset : i.iReset = false) (htoken : s.receivedToken = true) (hd : 4 < d)
    (hlen : ds.length ≤ 4 * words k) (hall : s.allMemWritten = decide (words k ≤ ds.length / 4))
    (hstb : i.iLlStb = true) :
  (s.step i).Digesting k (ds ++ [i.iLlByte]) 1
  := by
  cases h with
  | working pre x hds hlen hd₀ hd' hactive hfill hgearbox hdata => omega
  | resting hactive hfill hdata =>
      have hsame : (s.step i).crcData = s.crcData := by simp [step, hbusy, hactive]
      by_cases hmore : ds.length < 4 * words k
      · have hnew : s.newDataByte i = true := by
          rw [newDataByte, hstb, hall, decide_eq_false (by omega)]
          rfl
        apply Digesting.working ds i.iLlByte rfl
        · simp
          omega
        · decide
        · decide
        · simp [step, hbusy, hreset, htoken, hnew]
        · simp [step, hbusy, hreset, htoken, hnew, hactive, hfill]
        · simp [step, hactive]
        · rw [hsame, hdata, take_words hlen]
          simp [crc16, crcOfBytes]
      · have hnew : s.newDataByte i = false := by
          rw [newDataByte, hstb, hall, decide_eq_true (by omega)]
          rfl
        apply Digesting.resting
        · simp [step, hactive, hnew]
        · simp [step, hactive, hnew, hfill]
        · rw [hsame, hdata, List.take_append_of_le_length (by omega)]

/-- No byte comes in. -/
theorem Receiving.silent (h : s.Receiving k f token ds d) (hreset : i.iReset = false)
    (htoken : token = false → ds = []) (hd : 0 < d) (hk : 3 ≤ k) (hk' : k ≤ 9)
    (hstb : i.iLlStb = false) :
  (s.step i).Receiving k f token ds (d + 1)
  := by
  have hbusy := h.oBusy
  have htok : s.receivedToken = false → ds = [] := by
    intro htok
    rw [h.receivedToken] at htok
    apply htoken htok
  have hdone : s.done i = false := by simp [done, hstb]
  have herror : s.errorToken i = false := by simp [errorToken, hstb]
  have hstart : s.startToken i = false := by simp [startToken, hstb]
  constructor
  · simp [step, hreset, hbusy, hdone, herror]
  · simp [step, hdone, herror, h.oRxvalid]
  · simp [step, hreset, hbusy, hstart, herror, h.receivedToken]
  · apply h.storing.silent hbusy hreset htok hd hk hk' hstb
  · apply h.digesting.silent hbusy hreset htok hstb
  · simp [step, hreset, hbusy, hstb, h.crcErr]

/-- A byte of the block, or the first one of its checksum, comes in. -/
theorem Receiving.byte (h : s.Receiving k f true ds d) (hreset : i.iReset = false) (hd : 4 < d)
    (hlen : ds.length ≤ 4 * words k) (hk : 3 ≤ k) (hk' : k ≤ 9) (hstb : i.iLlStb = true) :
  (s.step i).Receiving k f true (ds ++ [i.iLlByte]) 1
  := by
  have hbusy := h.oBusy
  have htok := h.receivedToken
  have hpos := words_pos k
  have hcount := h.storing.crcByte
  have hdone : s.done i = false := by
    simp [done, hstb, BitVec.lt_def]
    omega
  have herror : s.errorToken i = false := by simp [errorToken, htok]
  have hall : s.allMemWritten = decide (words k ≤ ds.length / 4) := by
    rw [h.storing.allMemWritten, passed, if_neg (by omega)]
  have hdata : s.crcData = crc16 (ds.take (4 * words k)) := by
    cases h.digesting with
    | resting _ _ hdata => apply hdata
    | working => omega
  constructor
  · simp [step, hreset, hbusy, hdone, herror]
  · simp [step, hdone, herror, h.oRxvalid]
  · simp [step, hreset, hbusy, herror, htok]
  · apply h.storing.byte hbusy hreset htok (by omega) hlen hk hk' hstb
  · apply h.digesting.byte hbusy hreset htok hd hlen hall hstb
  · have hone : s.crcByte = 1 ↔ ds.length = 4 * words k := by
      rw [← BitVec.toNat_inj]
      change _ = 1 ↔ _
      omega
    have herr := h.crcErr
    rw [decide_eq_false (by omega)] at herr
    have hnext : (s.step i).crcErr
        = if s.crcByte = 1 then decide (s.crcData.extractLsb' 8 8 ≠ i.iLlByte) else s.crcErr := by
      simp [step, hreset, hbusy, hstb]
    rw [hnext, List.length_append, List.length_singleton]
    by_cases hend : ds.length = 4 * words k
    · rw [if_pos (hone.mpr hend), hdata, ← hend, List.take_left, List.take_length]
      simp
    · rw [if_neg (hone.not.mpr hend), herr, eq_comm, decide_eq_false_iff_not]
      omega

/-- The last byte of the checksum ends the block. -/
theorem Receiving.last (h : s.Receiving k f true ds d) (hreset : i.iReset = false) (hd : 4 < d)
    (hlen : ds.length = 4 * words k + 1) (hstb : i.iLlStb = true) :
  (s.step i).oBusy = false ∧ (s.step i).oRxvalid = true ∧ (s.step i).oWrite = false
    ∧ ((s.step i).oResponse = 0 ↔ crc16 (ds.take (4 * words k))
      = ds.getD (4 * words k) 0 ++ i.iLlByte)
  := by
  have hbusy := h.oBusy
  have htok := h.receivedToken
  have hpos := words_pos k
  have hcount := h.storing.crcByte
  have hdone : s.done i = true := by
    simp [done, hstb, BitVec.lt_def]
    omega
  have herror : s.errorToken i = false := by simp [errorToken, htok]
  have hdata : s.crcData = crc16 (ds.take (4 * words k)) := by
    cases h.digesting with
    | resting _ _ hdata => apply hdata
    | working => omega
  have herr := h.crcErr
  refine ⟨?_, ?_, ?_, ?_⟩
  · simp [step, hbusy, hdone]
  · simp [step, hreset, hbusy, hdone]
  · have hall : s.allMemWritten = true := by
      rw [h.storing.allMemWritten, passed, if_neg (by omega), decide_eq_true_eq]
      omega
    simp [step, hall]
  · have hresponse : (s.step i).oResponse
        = if s.crcErr || s.crcData.extractLsb' 0 8 ≠ i.iLlByte then 0x10 else 0 := by
      simp [step, hreset, hbusy, hdone, herror]
    rw [hresponse, h.crcErr, hdata, eq_append_iff]
    grind

/-- Until the token comes `spirxdata` waits. -/
theorem Receiving.wait (h : s.Receiving k f false [] d) (hreset : i.iReset = false)
    (herror : s.errorToken i = false) :
  (s.step i).Receiving k f (s.startToken i) [] 1
  := by
  have hbusy := h.oBusy
  have htok := h.receivedToken
  have hpos := words_pos k
  have hdone : s.done i = false := by simp [done, BitVec.lt_def, h.storing.crcByte]
  have hnone : ∀ d, passed ([] : List (BitVec 8)).length d = 0 := by
    intro d
    rw [passed]
    split_ifs <;> rfl
  have hwrite : s.oWrite = false := by simp [h.storing.oWrite]
  have hlastdata : s.lastdata = false := by
    rw [h.storing.lastdata, decide_eq_false_iff_not]
    simp only [List.length_nil]
    split_ifs <;> omega
  constructor
  · simp [step, hreset, hbusy, hdone, herror]
  · simp [step, hdone, herror, h.oRxvalid]
  · simp [step, hreset, hbusy, htok, herror]
  · constructor
    · simp [step, htok, fillOf]
    · intro j _ hj
      cases hj
    · simp [step, htok]
    · simp [step, htok]
    · have haddr := h.storing.oAddr
      rw [hnone] at haddr ⊢
      simpa [step, hbusy, hwrite] using haddr
    · have hlast := h.storing.lastaddr
      rw [hnone] at hlast ⊢
      simpa [step, hbusy, hwrite] using hlast
    · have hall := h.storing.allMemWritten
      rw [hnone] at hall ⊢
      simpa [step, hreset, hbusy, hwrite] using hall
    · rw [h.storing.lastdata_step hbusy]
      simp
      omega
    · simpa [step, hreset, hbusy, hlastdata] using h.storing.crcByte
    · simpa [step, hbusy] using h.storing.rLgblkszM3
  · cases h.digesting with
    | resting hactive hfill hdata =>
        apply Digesting.resting
        · simp [step, htok]
        · simp [step, htok]
        · simp [step, hbusy, hactive, hdata]
    | working pre x hds => simp at hds
  · have hnoerr : s.crcErr = false := by simp [h.crcErr]
    have hzero : s.crcByte ≠ 1#2 := by
      rw [← BitVec.toNat_inj.ne, h.storing.crcByte]
      simp
    simp [step, hreset, hbusy, hzero, hnoerr]

end Step

/-! ### A whole block -/

section Runs

variable (s₀ : Spirxdata) (inp : ℕ → Input) (m : ℕ)

/-- The bytes that have come in before clock `n` since the start at clock `m`. -/
def received : ℕ → List (BitVec 8) :=
  log fun j => if m < j && (inp j).iLlStb then [(inp j).iLlByte] else []

/-- The words, with their addresses, that have been written before clock `n`. -/
def written : ℕ → List (BitVec 8 × BitVec 32) :=
  log fun j => if m < j && (run step s₀ inp j).oWrite
    then [((run step s₀ inp j).oAddr, (run step s₀ inp j).oData)] else []

/-- The first `w` words of the bytes `ds`, at consecutive addresses. -/
def wordsOf (f : Bool) (ds : List (BitVec 8)) (w : ℕ) : List (BitVec 8 × BitVec 32) :=
  (List.range w).map fun j => (base f + BitVec.ofNat 8 j, wordOf ds j)

/-- An idle `spirxdata` is started at clock `m` for a block of `2 ^ k` bytes. Until clock `b`
there is no reset, and bytes come in at least five clocks apart. -/
structure Started (k : ℕ) (f : Bool) (b : ℕ) : Prop where
  small : 3 ≤ k
  large : k ≤ 9
  idle : (run step s₀ inp m).oBusy = false
  start : (inp m).iStart = true
  size : (inp m).iLgblksz = BitVec.ofNat 4 k
  fifo : (inp m).iFifo = f
  noReset : ∀ n, m ≤ n → n < b → (inp n).iReset = false
  spaced : ∀ n n', m < n → n < n' → n' < b → (inp n).iLlStb = true → (inp n').iLlStb = true →
    n + 5 ≤ n'

theorem received_succ (n : ℕ) :
  received inp m (n + 1)
    = received inp m n ++ if m < n && (inp n).iLlStb then [(inp n).iLlByte] else []
  := rfl

theorem written_succ (n : ℕ) :
  written s₀ inp m (n + 1) = written s₀ inp m n ++ if m < n && (run step s₀ inp n).oWrite
    then [((run step s₀ inp n).oAddr, (run step s₀ inp n).oData)] else []
  := rfl

theorem received_start :
  received inp m (m + 1) = []
  := by
  rw [received, log_eq_of_silent (Nat.zero_le _), log_zero]
  intro j _ hj
  simp
  omega

theorem written_start :
  written s₀ inp m (m + 1) = []
  := by
  rw [written, log_eq_of_silent (Nat.zero_le _), log_zero]
  intro j _ hj
  simp
  omega

/-- Words that are complete stay what they are. -/
theorem wordsOf_append (f : Bool) {ds : List (BitVec 8)} {w : ℕ} (hw : 4 * w ≤ ds.length)
    (x : BitVec 8) :
  wordsOf f (ds ++ [x]) w = wordsOf f ds w
  := by
  apply List.map_congr_left
  intro j hj
  rw [List.mem_range] at hj
  rw [wordOf, wordOf]
  simp only [List.getD_append _ _ _ _ (show 4 * j < ds.length by omega),
    List.getD_append _ _ _ _ (show 4 * j + 1 < ds.length by omega),
    List.getD_append _ _ _ _ (show 4 * j + 2 < ds.length by omega),
    List.getD_append _ _ _ _ (show 4 * j + 3 < ds.length by omega)]

variable {s₀ inp m} {k b : ℕ} {f : Bool} (S : Started s₀ inp m k f b)
include S

/-- Before the token nothing happens. -/
theorem run_waiting {n c : ℕ} (hmn : m < n) (hnb : n ≤ b)
    (hbytes : received inp m n = List.replicate c 0xff) :
  (run step s₀ inp n).Receiving k f false [] 1 ∧ written s₀ inp m n = []
  := by
  obtain ⟨t, rfl⟩ := Nat.exists_eq_add_of_lt hmn
  clear hmn
  induction t generalizing c with
  | zero =>
      have hstart := receiving_start S.small S.large S.idle (S.noReset m (Nat.le_refl m) hnb)
        S.start S.size
      rw [S.fifo] at hstart
      exact ⟨hstart, written_start s₀ inp m⟩
  | succ t ih =>
      rw [← Nat.add_assoc m t 1] at hbytes ⊢
      rw [received_succ, List.append_eq_replicate_iff] at hbytes
      obtain ⟨-, hbefore, hnow⟩ := hbytes
      obtain ⟨hwait, hwritten⟩ := ih (by omega) hbefore
      have hreset := S.noReset (m + t + 1) (by omega) hnb
      have hones : (inp (m + t + 1)).iLlStb = true → (inp (m + t + 1)).iLlByte = 0xff := by
        intro hstb
        simpa [hstb, show m < m + t + 1 by omega] using hnow
      have herror : (run step s₀ inp (m + t + 1)).errorToken (inp (m + t + 1)) = false := by
        cases hstb : (inp (m + t + 1)).iLlStb with
        | false => simp [errorToken, hstb]
        | true => simp [errorToken, isErrorToken, hones hstb]
      have htoken : (run step s₀ inp (m + t + 1)).startToken (inp (m + t + 1)) = false := by
        cases hstb : (inp (m + t + 1)).iLlStb with
        | false => simp [startToken, hstb]
        | true => simp [startToken, isStartToken, hones hstb]
      have hnext := hwait.wait hreset herror
      rw [htoken] at hnext
      have hsilent : (run step s₀ inp (m + t + 1)).oWrite = false := by
        simp [hwait.storing.oWrite]
      constructor
      · apply hnext
      · rw [written_succ, hwritten, hsilent]
        simp

/-- After the token, the bytes of the block and the first one of its checksum are taken. -/
theorem run_receiving {n c : ℕ} {ds : List (BitVec 8)} (hmn : m < n) (hnb : n ≤ b)
    (hbytes : received inp m n = List.replicate c 0xff ++ 0xfe :: ds)
    (hlen : ds.length ≤ 4 * words k + 1) :
  ∃ d, 0 < d ∧ m + d < n ∧ (inp (n - d)).iLlStb = true
    ∧ (run step s₀ inp n).Receiving k f true ds d
    ∧ written s₀ inp m n = wordsOf f ds (passed ds.length d)
  := by
  obtain ⟨t, rfl⟩ := Nat.exists_eq_add_of_lt hmn
  clear hmn
  induction t generalizing c ds with
  | zero =>
      rw [Nat.add_zero, received_start] at hbytes
      simp at hbytes
  | succ t ih =>
      rw [← Nat.add_assoc m t 1] at hbytes ⊢
      rw [received_succ] at hbytes
      have hreset := S.noReset (m + t + 1) (by omega) hnb
      by_cases hstb : (inp (m + t + 1)).iLlStb = true
      · rw [hstb, Bool.and_true, if_pos (decide_eq_true (by omega))] at hbytes
        rcases List.eq_nil_or_concat' ds with rfl | ⟨pre, x, rfl⟩
        · obtain ⟨hbefore, hnow⟩ := List.append_inj' hbytes rfl
          obtain ⟨hwait, hwritten⟩ := run_waiting S (by omega) (by omega) hbefore
          replace hnow := List.singleton_inj.mp hnow
          have herror : (run step s₀ inp (m + t + 1)).errorToken (inp (m + t + 1)) = false := by
            simp [errorToken, isErrorToken, hnow]
          have htoken : (run step s₀ inp (m + t + 1)).startToken (inp (m + t + 1)) = true := by
            simp [startToken, isStartToken, hnow, hstb, hwait.receivedToken]
          have hnext := hwait.wait hreset herror
          rw [htoken] at hnext
          have hsilent : (run step s₀ inp (m + t + 1)).oWrite = false := by
            simp [hwait.storing.oWrite]
          use 1, Nat.one_pos, by omega, hstb, hnext
          rw [written_succ, hwritten, hsilent]
          simp [wordsOf, passed]
        · rw [← List.cons_append, ← List.append_assoc] at hbytes
          obtain ⟨hbefore, hnow⟩ := List.append_inj' hbytes rfl
          replace hnow := List.singleton_inj.mp hnow
          rw [List.length_append, List.length_singleton] at hlen
          obtain ⟨d, hd, hdn, hlast, hreceive, hwritten⟩ := ih (by omega) (by omega) hbefore
          have hfar := S.spaced (m + t + 1 - d) (m + t + 1) (by omega) (by omega) hnb hlast hstb
          have hsilent : (run step s₀ inp (m + t + 1)).oWrite = false := by
            rw [hreceive.storing.oWrite, decide_eq_false_iff_not]
            omega
          have hnext := hreceive.byte hreset (by omega) (by omega) S.small S.large hstb
          rw [hnow] at hnext
          use 1, Nat.one_pos, by omega, hstb, hnext
          rw [written_succ, hwritten, hsilent, List.length_append, List.length_singleton,
            passed_byte _ (show 1 < d by omega), wordsOf_append]
          · simp
          · rw [passed]
            split_ifs <;> omega
      · rw [Bool.not_eq_true] at hstb
        rw [hstb, Bool.and_false, if_neg Bool.false_ne_true, List.append_nil] at hbytes
        obtain ⟨d, hd, hdn, hlast, hreceive, hwritten⟩ := ih hlen (by omega) hbytes
        use d + 1, Nat.succ_pos d, by omega
        rw [show m + t + 1 + 1 - (d + 1) = m + t + 1 - d by omega]
        use hlast, hreceive.silent hreset (by simp) hd S.small S.large hstb
        rw [written_succ, hwritten, passed_succ _ hd]
        by_cases hwrite : d = 1 ∧ ds.length % 4 = 0 ∧ 0 < ds.length
        · have honce : (run step s₀ inp (m + t + 1)).oWrite = true := by
            rw [hreceive.storing.oWrite, decide_eq_true hwrite]
          have hword : passed ds.length d = ds.length / 4 - 1 := by
            rw [passed, if_pos ⟨hwrite.1, hwrite.2.1⟩]
          have haddr := hreceive.storing.oAddr
          rw [Nat.min_eq_left (by omega)] at haddr
          rw [if_pos hwrite, honce, haddr, hreceive.storing.oData honce, wordsOf, wordsOf,
            List.range_succ, List.map_append, hword,
            decide_eq_true (show m < m + t + 1 by omega)]
          rfl
        · have hsilent : (run step s₀ inp (m + t + 1)).oWrite = false := by
            rw [hreceive.storing.oWrite, decide_eq_false hwrite]
          rw [if_neg hwrite, hsilent]
          simp

omit S in
/-- Before any of the bytes that have come in there is a clock that ends with it. -/
theorem exists_received {n : ℕ} {bs bs' : List (BitVec 8)} {x : BitVec 8}
    (h : received inp m n = bs ++ x :: bs') :
  ∃ j < n, m < j ∧ (inp j).iLlStb = true ∧ (inp j).iLlByte = x ∧ received inp m j = bs
    ∧ (bs' ≠ [] → j + 1 < n)
  := by
  induction n generalizing bs' with
  | zero => simp [received] at h
  | succ n ih =>
      rw [received_succ] at h
      split_ifs at h with hnow
      · rcases List.eq_nil_or_concat' bs' with rfl | ⟨pre, y, rfl⟩
        · obtain ⟨hbefore, hlast⟩ := List.append_inj' h rfl
          rw [Bool.and_eq_true, decide_eq_true_eq] at hnow
          use n, Nat.lt_succ_self n, hnow.1, hnow.2, List.singleton_inj.mp hlast, hbefore
          intro hne
          cases hne rfl
        · rw [← List.cons_append, ← List.append_assoc] at h
          obtain ⟨hbefore, -⟩ := List.append_inj' h rfl
          obtain ⟨j, hj, hmj, hstb, hx, hbytes, -⟩ := ih hbefore
          use j, Nat.lt_succ_of_lt hj, hmj, hstb, hx, hbytes
          intro _
          omega
      · rw [List.append_nil] at h
        obtain ⟨j, hj, hmj, hstb, hx, hbytes, -⟩ := ih h
        use j, Nat.lt_succ_of_lt hj, hmj, hstb, hx, hbytes
        intro _
        omega

/-- The block, as `spirxdata` takes it, ends with the second byte after its last word. -/
theorem run_last {e c : ℕ} {ds : List (BitVec 8)} {c₁ : BitVec 8} (hme : m < e) (heb : e < b)
    (hbytes : received inp m e = List.replicate c 0xff ++ 0xfe :: (ds ++ [c₁]))
    (hlen : ds.length = 4 * words k) (hstb : (inp e).iLlStb = true) :
  (run step s₀ inp e).oBusy = true ∧ (run step s₀ inp (e + 1)).oBusy = false
    ∧ (run step s₀ inp (e + 1)).oRxvalid = true ∧ (run step s₀ inp (e + 1)).oWrite = false
    ∧ ((run step s₀ inp (e + 1)).oResponse = 0 ↔ crc16 ds = c₁ ++ (inp e).iLlByte)
    ∧ written s₀ inp m (e + 1) = wordsOf f ds (words k)
  := by
  have hpos := words_pos k
  have hlen' : (ds ++ [c₁]).length = 4 * words k + 1 := by
    rw [List.length_append, List.length_singleton, hlen]
  obtain ⟨d, hd, hdn, hlast, hreceive, hwritten⟩ := run_receiving S hme (Nat.le_of_lt heb) hbytes
    (Nat.le_of_eq hlen')
  have hfar := S.spaced (e - d) e (by omega) (by omega) heb hlast hstb
  have hreset := S.noReset e (Nat.le_of_lt hme) heb
  obtain ⟨hbusy, hvalid, hwrite, hresponse⟩ := hreceive.last hreset (by omega) hlen' hstb
  have hpassed : passed (ds ++ [c₁]).length d = words k := by
    rw [hlen', passed]
    split_ifs <;> omega
  have hsilent : (run step s₀ inp e).oWrite = false := by
    rw [hreceive.storing.oWrite, decide_eq_false_iff_not]
    omega
  rw [← hlen, List.take_left] at hresponse
  refine ⟨hreceive.oBusy, hbusy, hvalid, hwrite, ?_, ?_⟩
  · rw [run_succ, hresponse]
    simp
  · rw [written_succ, hwritten, hsilent, hpassed, wordsOf_append f (by omega)]
    simp

end Runs

/-- A prefix of some bytes, of a mark and of more bytes ends before the mark or behind it. -/
theorem prefix_cases {α : Type} {l ds : List α} {a x : α} {c : ℕ}
    (h : l <+: List.replicate c a ++ x :: ds) :
  (∃ c', l = List.replicate c' a) ∨ ∃ ds', l = List.replicate c a ++ x :: ds' ∧ ds' <+: ds
  := by
  rw [List.prefix_iff_eq_take] at h
  rcases Nat.lt_or_ge c l.length with hlt | hle
  · right
    obtain ⟨r, hr⟩ := Nat.exists_eq_add_of_lt hlt
    use ds.take r
    rw [h, hr, Nat.add_assoc, List.take_append, List.length_replicate, Nat.add_sub_cancel_left,
      List.take_succ_cons, List.take_of_length_le (by simp)]
    exact ⟨rfl, List.take_prefix r ds⟩
  · left
    use l.length
    rw [List.take_append_of_le_length (by simpa using hle), List.take_replicate] at h
    rwa [Nat.min_eq_left hle] at h

/-- A block of `2 ^ k` bytes comes in, after `c` bytes of ones and the token, and then the two
bytes of its checksum, the last one at clock `e`. Until clock `b` there is no other start. -/
structure Block (s₀ : Spirxdata) (inp : ℕ → Input) (m e b k : ℕ) (f : Bool) (c : ℕ)
    (payload : List (BitVec 8)) (c₁ c₂ : BitVec 8) : Prop where
  started : Started s₀ inp m k f (e + 1)
  after : m < e
  before : e < b
  length : payload.length = 2 ^ k
  bytes : received inp m e = List.replicate c 0xff ++ 0xfe :: (payload ++ [c₁])
  lastStb : (inp e).iLlStb = true
  lastByte : (inp e).iLlByte = c₂
  noReset : ∀ n, e < n → n < b → (inp n).iReset = false
  noStart : ∀ n, e < n → n < b → (inp n).iStart = false

/-- The block is written to memory, and the response tells whether its checksum was right. -/
structure Delivers (s₀ : Spirxdata) (inp : ℕ → Input) (m e b k : ℕ) (f : Bool)
    (payload : List (BitVec 8)) (c₁ c₂ : BitVec 8) : Prop where
  busy : ∀ n, m < n → n ≤ b → ((run step s₀ inp n).oBusy = true ↔ n ≤ e)
  valid : ∀ n, m < n → n ≤ b → ((run step s₀ inp n).oRxvalid = true ↔ n = e + 1)
  words : ∀ n, e < n → n ≤ b → written s₀ inp m n = wordsOf f payload (2 ^ k / 4)
  response : (run step s₀ inp (e + 1)).oResponse = 0 ↔ crc16 payload = c₁ ++ c₂

section Blocks

variable {s₀ : Spirxdata} {inp : ℕ → Input} {m e b k : ℕ} {f : Bool} {c : ℕ}
  {payload : List (BitVec 8)} {c₁ c₂ : BitVec 8} (B : Block s₀ inp m e b k f c payload c₁ c₂)
include B

/-- After the last byte `spirxdata` is idle and writes nothing. -/
theorem run_idle (hend : (run step s₀ inp (e + 1)).oBusy = false)
    (hwrite : (run step s₀ inp (e + 1)).oWrite = false) {n : ℕ} (hen : e < n) (hnb : n ≤ b) :
  (run step s₀ inp n).oBusy = false ∧ (run step s₀ inp n).oWrite = false
    ∧ written s₀ inp m n = written s₀ inp m (e + 1)
    ∧ (e + 1 < n → (run step s₀ inp n).oRxvalid = false)
  := by
  obtain ⟨t, rfl⟩ := Nat.exists_eq_add_of_lt hen
  clear hen
  induction t with
  | zero => exact ⟨hend, hwrite, rfl, fun h => absurd h (Nat.lt_irrefl _)⟩
  | succ t ih =>
      obtain ⟨hbusy, hwrite', hwritten, -⟩ := ih (by omega)
      have hstart := B.noStart (e + t + 1) (by omega) (by omega)
      rw [← Nat.add_assoc e t 1]
      refine ⟨?_, ?_, ?_, fun _ => ?_⟩
      · rw [run_succ]
        simp [step, hbusy, hstart]
      · rw [run_succ]
        simp [step, hbusy]
      · rw [written_succ, hwritten, hwrite']
        simp
      · rw [run_succ]
        simp [step, hbusy]

/-- Of a block of eight bytes the first word only is taken. -/
theorem ends_early (hk : k = 3) :
  ∃ n, m < n ∧ n ≤ e ∧ (run step s₀ inp n).oBusy = false
  := by
  have hlen := B.length
  have hbytes := B.bytes
  rw [hk] at hlen
  match payload, hlen, hbytes with
  | [x₀, x₁, x₂, x₃, x₄, x₅, x₆, x₇], _, hbytes =>
      have hsplit : received inp m e
          = (List.replicate c 0xff ++ 0xfe :: ([x₀, x₁, x₂, x₃] ++ [x₄]))
            ++ x₅ :: [x₆, x₇, c₁] := by
        simp [hbytes]
      obtain ⟨j, hje, hmj, hstb, -, hbefore, -⟩ := exists_received hsplit
      have hword : words k = 1 := if_pos hk
      obtain ⟨-, hend, -⟩ := run_last B.started hmj (by omega) hbefore (by rw [hword]; rfl) hstb
      use j + 1, by omega, hje

/-- A larger block is taken as a whole. -/
theorem delivers_of_ne (hk : k ≠ 3) :
  Delivers s₀ inp m e b k f payload c₁ c₂
  := by
  have hsize : 2 ^ k = 4 * words k := (words_of_ne B.started.small hk).symm
  obtain ⟨-, hend, hvalid, hwrite, hresponse, hwritten⟩ := run_last B.started B.after
    (Nat.lt_succ_self e) B.bytes (by rw [B.length, hsize]) B.lastStb
  rw [B.lastByte] at hresponse
  have hbusy : ∀ n, m < n → n ≤ e →
      (run step s₀ inp n).oBusy = true ∧ (run step s₀ inp n).oRxvalid = false := by
    intro n hmn hne
    have hprefix : received inp m n <+: received inp m e := log_mono _ hne
    rw [B.bytes] at hprefix
    rcases prefix_cases hprefix with ⟨c', hones⟩ | ⟨ds, htoken, hds⟩
    · obtain ⟨hwait, -⟩ := run_waiting B.started hmn (by omega) hones
      exact ⟨hwait.oBusy, hwait.oRxvalid⟩
    · have hle := hds.length_le
      rw [List.length_append, B.length, List.length_singleton, hsize] at hle
      obtain ⟨d, -, -, -, hreceive, -⟩ := run_receiving B.started hmn (by omega) htoken hle
      exact ⟨hreceive.oBusy, hreceive.oRxvalid⟩
  constructor
  case busy =>
    intro n hmn hnb
    constructor
    · intro hb
      by_contra hen
      rw [(run_idle B hend hwrite (Nat.not_le.mp hen) hnb).1] at hb
      cases hb
    · intro hne
      apply (hbusy n hmn hne).1
  case valid =>
    intro n hmn hnb
    constructor
    · intro hv
      rcases Nat.lt_trichotomy n (e + 1) with hlt | heq | hgt
      · rw [(hbusy n hmn (Nat.lt_succ_iff.mp hlt)).2] at hv
        cases hv
      · apply heq
      · rw [(run_idle B hend hwrite (by omega) hnb).2.2.2 hgt] at hv
        cases hv
    · rintro rfl
      apply hvalid
  case words =>
    intro n hen hnb
    rw [(run_idle B hend hwrite hen hnb).2.2.1, hwritten]
    congr 1
    omega
  case response => apply hresponse

/-- Exactly the blocks of more than eight bytes are delivered. -/
theorem delivers_iff :
  Delivers s₀ inp m e b k f payload c₁ c₂ ↔ k ≠ 3
  := by
  constructor
  · intro h hk
    obtain ⟨n, hmn, hne, hbusy⟩ := ends_early B hk
    rw [(h.busy n hmn (Nat.le_trans hne (Nat.le_of_lt B.before))).mpr hne] at hbusy
    cases hbusy
  · intro hk
    apply delivers_of_ne B hk

end Blocks

/-- A block of zeros, every five clocks a byte. -/
def zeros (k n : ℕ) : Input :=
  ⟨false, n == 0, BitVec.ofNat 4 k, false, n % 5 == 0, if n = 5 then 0xfe else 0⟩

theorem zeros_started (k b : ℕ) (hk : 3 ≤ k) (hk' : k ≤ 9) :
  Started ⟨false, false, false, 0, 0, false, 0, false, false, false, 0, 0, 0, 0, 0, false, 0, 0,
    false⟩ (zeros k) 0 k false b
  := by
  constructor
  case small => apply hk
  case large => apply hk'
  case noReset =>
    intro n _ _
    rfl
  case spaced =>
    intro n n' _ hlt _ hn hn'
    simp only [zeros, beq_iff_eq] at hn hn'
    omega
  all_goals rfl

/-- A block of sixteen bytes. -/
theorem delivers_iff_sixteen :
  Delivers ⟨false, false, false, 0, 0, false, 0, false, false, false, 0, 0, 0, 0, 0, false, 0, 0,
      false⟩ (zeros 4) 0 95 100 4 false (List.replicate 16 0) 0 0
    ↔ 4 ≠ 3
  := by
  have hblock : Block ⟨false, false, false, 0, 0, false, 0, false, false, false, 0, 0, 0, 0, 0,
      false, 0, 0, false⟩ (zeros 4) 0 95 100 4 false 0 (List.replicate 16 0) 0 0 := by
    constructor
    case started => apply zeros_started 4 96 (by decide) (by decide)
    case bytes => decide +kernel
    case noReset =>
      intro n _ _
      rfl
    case noStart =>
      intro n hn _
      simp [zeros]
      omega
    all_goals decide
  apply delivers_iff hblock

/-- A block of eight bytes is not delivered. -/
theorem not_delivers_eight :
  ¬ ∀ (s₀ : Spirxdata) (inp : ℕ → Input) (m e b k : ℕ) (f : Bool) (c : ℕ)
    (payload : List (BitVec 8)) (c₁ c₂ : BitVec 8), Block s₀ inp m e b k f c payload c₁ c₂ →
    Delivers s₀ inp m e b k f payload c₁ c₂
  := by
  intro hall
  have hblock : Block ⟨false, false, false, 0, 0, false, 0, false, false, false, 0, 0, 0, 0, 0,
      false, 0, 0, false⟩ (zeros 3) 0 55 60 3 false 0 (List.replicate 8 0) 0 0 := by
    constructor
    case started => apply zeros_started 3 56 (by decide) (by decide)
    case bytes => decide +kernel
    case noReset =>
      intro n _ _
      rfl
    case noStart =>
      intro n hn _
      simp [zeros]
      omega
    all_goals decide
  obtain ⟨n, hmn, hne, hbusy⟩ := ends_early hblock rfl
  have hbusy' := ((hall _ _ _ _ _ _ _ _ _ _ _ hblock).busy n hmn (by omega)).mpr hne
  rw [hbusy] at hbusy'
  cases hbusy'

end Spirxdata

end ZBasic
