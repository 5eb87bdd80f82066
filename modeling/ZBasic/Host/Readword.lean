import ZBasic.Wbubus.Compress
import ZBasic.Wbubus.Deword

/-!
# The host reading what was returned

`readword` takes the groups of six bits that come back from the device one by one. It
keeps a table of the data words it received in full, in which later data words are looked
up by how far back they are.
-/

namespace ZBasic

open Clocked

/-- What `readword` makes of the groups of one codeword. -/
inductive Heard where
  | status (sixbits : BitVec 6)
  | address (val : BitVec 32)
  | data (val : BitVec 32) (inc : Bool)
  | unknown (sixbits : BitVec 6)
deriving DecidableEq, Repr

/-- The members of `TTYBUS` that `readword` uses. -/
structure Readback where
  mReadtbl : BitVec 10 → BitVec 32
  mRdaddr : BitVec 10
  mLastaddr : BitVec 32
  mAddrSet : Bool
  mBusErr : Bool
  mInterruptFlag : Bool

/-- `val = (val<<6) | (chardec(m_buf[k]) & 0x03f)`, for one character after the other. -/
def shiftIn (val : BitVec 32) (gs : List (BitVec 6)) : BitVec 32 :=
  gs.foldl (fun val g => val <<< 6 ||| g.setWidth 32) val

namespace Readback

/-- The status characters; `3` and `5` are bus errors, and make `readword` throw. -/
def hearStatus (h : Readback) (sixbits : BitVec 6) : Readback :=
  if sixbits = 3 then { h with mBusErr := true }
  else if sixbits = 4 then { h with mInterruptFlag := true }
  else if sixbits = 5 then { h with mBusErr := true }
  else h

/-- An address. -/
def hearAddress (h : Readback) (val : BitVec 32) : Readback :=
  { h with mAddrSet := true, mLastaddr := val <<< 2 }

/-- `m_lastaddr += (sixbits&1)?4:0` -/
def moveOn (h : Readback) (sixbits : BitVec 6) : Readback :=
  { h with mLastaddr := h.mLastaddr + (if sixbits.getLsbD 0 then 4 else 0) }

/-- A data word received in full goes into the table. -/
def hearRaw (h : Readback) (val : BitVec 32) : Readback :=
  { h with mReadtbl := Function.update h.mReadtbl h.mRdaddr val, mRdaddr := h.mRdaddr + 1 }

/-- `m_readtbl[(m_rdaddr-idx)&0x03ff]` -/
def tableRead (h : Readback) (idx : BitVec 10) : BitVec 32 := h.mReadtbl (h.mRdaddr - idx)

/-- A data word from up to 521 words ago, whose second group is still to come. -/
def hearFar (h : Readback) (sixbits : BitVec 6) :
    List (BitVec 6) → Option (Heard × Readback × List (BitVec 6))
  | [] => none
  | g :: gs =>
      let idx := (((sixbits >>> 1) &&& 0x07).setWidth 10 <<< 6 ||| g.setWidth 10) + 2 + 8
      some (.data (h.tableRead idx) (sixbits.getLsbD 0), h.moveOn sixbits, gs)

/-- `readword`, as far as the next codeword: what it was, and the groups after it. Where
the groups end before the codeword does, `readword` waits for more. -/
def hear (h : Readback) : List (BitVec 6) → Option (Heard × Readback × List (BitVec 6))
  | [] => none
  | sixbits :: gs =>
      let inc := sixbits.getLsbD 0
      if sixbits < 6 then some (.status sixbits, h.hearStatus sixbits, gs)
      else if sixbits &&& 0x3c = 0x08 then
        if gs.length < 5 then none
        else
          let val := shiftIn ((sixbits &&& 0x03).setWidth 32) (gs.take 5)
          some (.address val, h.hearAddress val, gs.drop 5)
      else if sixbits &&& 0x3c = 0x0c then
        let more := (sixbits &&& 0x03).toNat + 1
        if gs.length < more then none
        else
          let val := shiftIn 0 (gs.take more)
          some (.address val, h.hearAddress val, gs.drop more)
      else if sixbits &&& 0x3e = 0x06 then
        some (.data (h.tableRead 1) inc, h.moveOn sixbits, gs)
      else if sixbits &&& 0x30 = 0x10 then
        h.hearFar sixbits gs
      else if sixbits &&& 0x30 = 0x20 then
        let idx := ((sixbits >>> 1) &&& 0x07).setWidth 10 + 2
        some (.data (h.tableRead idx) inc, h.moveOn sixbits, gs)
      else if sixbits &&& 0x38 = 0x38 then
        if gs.length < 5 then none
        else
          let val := shiftIn (((sixbits >>> 1) &&& 0x03).setWidth 32) (gs.take 5)
          some (.data val inc, (h.hearRaw val).moveOn sixbits, gs.drop 5)
      else some (.unknown sixbits, h, gs)

/-- What the host hears in the groups of several codewords, at most `k`. -/
def hearAll (h : Readback) : ℕ → List (BitVec 6) → List Heard
  | 0, _ => []
  | k + 1, gs =>
      match h.hear gs with
      | none => []
      | some (heard, h', gs') => heard :: h'.hearAll k gs'

/-- What the host hears in some groups; every codeword has at least one. -/
def hears (h : Readback) (gs : List (BitVec 6)) : List Heard := h.hearAll gs.length gs

end Readback

/-! ### What a codeword means -/

/-- `{4'h2, addr}`, an address in full. -/
def Codeword.isFullAddress (w : Codeword) : Bool := w.extractLsb' 32 4 == 2#4

/-- A codeword of the device that reports its state: `000`, and one of six codes. -/
def Codeword.isStatus (w : Codeword) : Bool :=
  w.extractLsb' 33 3 == 0#3 && w.extractLsb' 30 6 < 6#6

/-- What the host is to make of a codeword. -/
def Codeword.meaning (w : Codeword) : Heard :=
  if w.isData then .data w.codData w.inc
  else if w.isFullAddress then .address (w.extractLsb' 0 32)
  else .status (w.extractLsb' 30 6)

namespace Codeword

/-- The first group of a codeword. -/
def top (w : Codeword) : BitVec 6 := w.extractLsb' 30 6

theorem isData_eq_top (w : Codeword) :
  w.isData = (w.top.extractLsb' 3 3 == 7#3)
  := by rw [isData, top, extract_extract _ (by decide)]

theorem isAddress_eq_top (w : Codeword) :
  w.isAddress = (w.top.extractLsb' 3 3 == 1#3)
  := by rw [isAddress, top, extract_extract _ (by decide)]

theorem isFullAddress_eq_top (w : Codeword) :
  w.isFullAddress = (w.top.extractLsb' 2 4 == 2#4)
  := by rw [isFullAddress, top, extract_extract _ (by decide)]

theorem isStatus_eq_top (w : Codeword) :
  w.isStatus = decide (w.top < 6#6)
  := by
  have hall : ∀ t : BitVec 6, (t.extractLsb' 3 3 == 0#3 && t < 6#6) = decide (t < 6#6) := by decide
  rw [← hall, isStatus, top, extract_extract _ (by decide)]

/-- The kinds of codewords exclude each other. -/
theorem kind_of_isData {w : Codeword} (hw : w.isData = true) :
  w.isAddress = false ∧ w.isFullAddress = false
  := by
  rw [isData_eq_top] at hw
  rw [isAddress_eq_top, isFullAddress_eq_top]
  generalize w.top = t at *
  revert t
  decide

theorem isAddress_of_isFullAddress {w : Codeword} (hw : w.isFullAddress = true) :
  w.isAddress = true
  := by
  rw [isFullAddress_eq_top] at hw
  rw [isAddress_eq_top]
  generalize w.top = t at *
  revert t
  decide

theorem kind_of_isStatus {w : Codeword} (hw : w.isStatus = true) :
  w.isAddress = false ∧ w.isFullAddress = false ∧ w.isData = false
  := by
  rw [isStatus_eq_top] at hw
  rw [isAddress_eq_top, isFullAddress_eq_top, isData_eq_top]
  generalize w.top = t at *
  revert t
  decide

end Codeword

theorem isFullAddress_word (a : BitVec 32) :
  Codeword.isFullAddress (2#4 ++ a) = true
  := by
  rw [Codeword.isFullAddress, extract_append_high _ _ (by decide)]
  decide

theorem isData_word (hi : BitVec 2) (b : BitVec 1) (v : BitVec 30) :
  Codeword.isData (7#3 ++ hi ++ b ++ v) = true
  := by
  rw [Codeword.isData, extract_top_word]
  rfl

theorem isStatus_word (v : BitVec 30) :
  Codeword.isStatus (2#6 ++ v) = true
  := by
  rw [Codeword.isStatus_eq_top, Codeword.top, extract_append_high _ _ (by decide)]
  decide

/-! ### The groups of a codeword -/

/-- `w_len`, from the first group. -/
def topLen (t : BitVec 6) : BitVec 3 :=
  if t.extractLsb' 3 3 = 0#3 then 1
  else if t.extractLsb' 2 4 = 2#4 then 6
  else if t.extractLsb' 2 4 = 3#4 then 2#3 + (0#1 ++ t.extractLsb' 0 2)
  else if t.extractLsb' 4 2 = 1#2 then 2
  else if t.extractLsb' 4 2 = 2#2 then 1
  else 6

theorem wLen_eq_topLen (w : Codeword) :
  wLen w = topLen w.top
  := by
  unfold wLen topLen Codeword.top
  rw [extract_extract _ (by decide), extract_extract _ (by decide), extract_extract _ (by decide),
    extract_extract _ (by decide)]

/-- Shifting in digit after digit gives the word. -/
theorem shiftIn_digits (x : BitVec 32) (n k : ℕ) :
  shiftIn ((x.extractLsb' (6 * k) n).setWidth 32) (digits x k)
    = (x.extractLsb' 0 (n + 6 * k)).setWidth 32
  := by
  induction k generalizing n with
  | zero => rfl
  | succ k ih =>
      rw [digits_succ, shiftIn, List.foldl_cons, Nat.mul_succ, shiftLeft_or_extract, ← shiftIn, ih,
        Nat.add_assoc, Nat.add_comm 6]

/-- The five groups after the first give the low thirty bits of a word. -/
theorem shiftIn_five (x : BitVec 32) :
  shiftIn ((x.extractLsb' 30 2).setWidth 32) (digits x 5) = x
  := by
  rw [shiftIn_digits x 2 5]
  simp

/-- The last `k` digits give a word that has no others. -/
theorem shiftIn_low {x : BitVec 32} {k : ℕ} (hx : x.extractLsb' (6 * k) (32 - 6 * k) = 0) :
  shiftIn 0 (digits x k) = x
  := by
  have hnone : (x.extractLsb' (6 * k) 0).setWidth 32 = 0 := by
    rw [BitVec.eq_nil (x.extractLsb' (6 * k) 0)]
    rfl
  have hall := shiftIn_digits x 0 k
  rw [hnone, Nat.zero_add, setWidth_extract_of_zero hx] at hall
  apply hall

/-! ### Hearing one codeword -/

namespace Readback

variable (h : Readback) (gs : List (BitVec 6))

theorem hear_status {t : BitVec 6} (ht : t < 6) :
  h.hear (t :: gs) = some (.status t, h.hearStatus t, gs)
  := by rw [hear, if_pos ht]

/-- A data word in full. -/
theorem hear_raw {t : BitVec 6} (ht : t.extractLsb' 3 3 = 7) {five : List (BitVec 6)}
    (hfive : five.length = 5) :
  h.hear (t :: five ++ gs)
    = some (.data (shiftIn ((t.extractLsb' 1 2).setWidth 32) five) (t.getLsbD 0),
      (h.hearRaw (shiftIn ((t.extractLsb' 1 2).setWidth 32) five)).moveOn t, gs)
  := by
  obtain ⟨h6, hfull, hshort, hlast, hfar, hnear, hraw, hval⟩ :
      ¬ t < 6 ∧ t &&& 0x3c ≠ 0x08 ∧ t &&& 0x3c ≠ 0x0c ∧ t &&& 0x3e ≠ 0x06 ∧ t &&& 0x30 ≠ 0x10
        ∧ t &&& 0x30 ≠ 0x20 ∧ t &&& 0x38 = 0x38
        ∧ ((t >>> 1) &&& 0x03).setWidth 32 = (t.extractLsb' 1 2).setWidth 32 := by
    revert t
    decide
  have hlen : ¬ (five ++ gs).length < 5 := by
    rw [List.length_append]
    omega
  rw [List.cons_append, hear, if_neg h6, if_neg hfull, if_neg hshort, if_neg hlast, if_neg hfar,
    if_neg hnear, if_pos hraw, if_neg hlen, hval, ← hfive, List.take_left, List.drop_left]

/-- An address in full. -/
theorem hear_full {t : BitVec 6} (ht : t.extractLsb' 2 4 = 2) {five : List (BitVec 6)}
    (hfive : five.length = 5) :
  h.hear (t :: five ++ gs)
    = some (.address (shiftIn ((t.extractLsb' 0 2).setWidth 32) five),
      h.hearAddress (shiftIn ((t.extractLsb' 0 2).setWidth 32) five), gs)
  := by
  obtain ⟨h6, hfull, hval⟩ : ¬ t < 6 ∧ t &&& 0x3c = 0x08
      ∧ (t &&& 0x03).setWidth 32 = (t.extractLsb' 0 2).setWidth 32 := by
    revert t
    decide
  have hlen : ¬ (five ++ gs).length < 5 := by
    rw [List.length_append]
    omega
  rw [List.cons_append, hear, if_neg h6, if_pos hfull, if_neg hlen, hval, ← hfive, List.take_left,
    List.drop_left]

/-- A compressed address. -/
theorem hear_short {t : BitVec 6} (ht : t.extractLsb' 2 4 = 3) {more : List (BitVec 6)}
    (hmore : more.length = (t.extractLsb' 0 2).toNat + 1) :
  h.hear (t :: more ++ gs)
    = some (.address (shiftIn 0 more), h.hearAddress (shiftIn 0 more), gs)
  := by
  obtain ⟨h6, hfull, hshort, hval⟩ : ¬ t < 6 ∧ t &&& 0x3c ≠ 0x08 ∧ t &&& 0x3c = 0x0c
      ∧ (t &&& 0x03).toNat = (t.extractLsb' 0 2).toNat := by
    clear hmore
    revert t
    decide
  have hlen : ¬ (more ++ gs).length < more.length := by
    rw [List.length_append]
    omega
  rw [List.cons_append, hear, if_neg h6, if_neg hfull, if_pos hshort, hval, ← hmore, if_neg hlen,
    List.take_left, List.drop_left]

/-- A reference to a data word received before. -/
theorem hear_last (b : BitVec 1) :
  h.hear ((3#5 ++ b) :: gs)
    = some (.data (h.tableRead 1) (b.getLsbD 0), h.moveOn (3#5 ++ b), gs)
  := by
  have hb : b = 0 ∨ b = 1 := by
    revert b
    decide
  rcases hb with rfl | rfl <;> rfl

theorem hear_near (a : BitVec 3) (b : BitVec 1) :
  h.hear ((2#2 ++ a ++ b) :: gs)
    = some (.data (h.tableRead (a.setWidth 10 + 2)) (b.getLsbD 0), h.moveOn (2#2 ++ a ++ b), gs)
  := by
  obtain ⟨h6, hfull, hshort, hlast, hfar, hnear, hidx, hinc⟩ :
      ¬ (2#2 ++ a ++ b) < 6 ∧ (2#2 ++ a ++ b) &&& 0x3c ≠ 0x08 ∧ (2#2 ++ a ++ b) &&& 0x3c ≠ 0x0c
        ∧ (2#2 ++ a ++ b) &&& 0x3e ≠ 0x06 ∧ (2#2 ++ a ++ b) &&& 0x30 ≠ 0x10
        ∧ (2#2 ++ a ++ b) &&& 0x30 = 0x20
        ∧ (((2#2 ++ a ++ b) >>> 1) &&& 0x07).setWidth 10 = a.setWidth 10
        ∧ (2#2 ++ a ++ b).getLsbD 0 = b.getLsbD 0 := by
    revert a b
    decide
  rw [hear, if_neg h6, if_neg hfull, if_neg hshort, if_neg hlast, if_neg hfar, if_pos hnear, hidx,
    hinc]

theorem hear_far (d : BitVec 3) (b : BitVec 1) (g : BitVec 6) :
  h.hear ((1#2 ++ d ++ b) :: g :: gs)
    = some (.data (h.tableRead ((d.setWidth 10 <<< 6 ||| g.setWidth 10) + 2 + 8)) (b.getLsbD 0),
      h.moveOn (1#2 ++ d ++ b), gs)
  := by
  obtain ⟨h6, hfull, hshort, hlast, hfar, hidx, hinc⟩ :
      ¬ (1#2 ++ d ++ b) < 6 ∧ (1#2 ++ d ++ b) &&& 0x3c ≠ 0x08 ∧ (1#2 ++ d ++ b) &&& 0x3c ≠ 0x0c
        ∧ (1#2 ++ d ++ b) &&& 0x3e ≠ 0x06 ∧ (1#2 ++ d ++ b) &&& 0x30 = 0x10
        ∧ (((1#2 ++ d ++ b) >>> 1) &&& 0x07).setWidth 10 = d.setWidth 10
        ∧ (1#2 ++ d ++ b).getLsbD 0 = b.getLsbD 0 := by
    revert d b
    decide
  rw [hear, if_neg h6, if_neg hfull, if_neg hshort, if_neg hlast, if_pos hfar, hearFar, hidx,
    hinc]

end Readback

/-! ### Hearing what stands for a codeword -/

/-- The groups after the first of a codeword sent in full. -/
def Codeword.five (w : Codeword) : List (BitVec 6) :=
  [w.extractLsb' 24 6, w.extractLsb' 18 6, w.extractLsb' 12 6, w.extractLsb' 6 6,
    w.extractLsb' 0 6]

/-- The groups of a codeword, given how many there are. -/
theorem groups_eq (w : Codeword) {k : ℕ} (hk : (topLen w.top).toNat = k + 1) :
  groups w = w.top :: w.five.take k
  := by
  rw [groups, wLen_eq_topLen]
  change List.take (topLen w.top).toNat (w.top :: w.five) = _
  rw [hk, List.take_succ_cons]

theorem codData_field (w : Codeword) {a : ℕ} (ha : a + 6 ≤ 30) :
  w.codData.extractLsb' a 6 = w.extractLsb' a 6
  := by
  rw [Codeword.codData, extract_append_low _ _ ha, extract_extract _ (by omega), Nat.zero_add]

theorem codData_top (w : Codeword) :
  w.codData.extractLsb' 30 2 = w.top.extractLsb' 1 2
  := by
  rw [Codeword.codData, Codeword.top, extract_append_high _ _ (by decide),
    extract_extract _ (by decide), extract_extract _ (by decide)]

theorem inc_eq_top (w : Codeword) :
  w.inc = w.top.getLsbD 0
  := by simp [Codeword.inc, Codeword.top]

theorem shiftIn_codData (w : Codeword) :
  shiftIn ((w.top.extractLsb' 1 2).setWidth 32) w.five = w.codData
  := by
  have hdigits : w.five = digits w.codData 5 := by
    simp only [Codeword.five, digits_succ, digits_zero]
    rw [codData_field w (by decide), codData_field w (by decide), codData_field w (by decide),
      codData_field w (by decide), codData_field w (by decide)]
  rw [hdigits, ← codData_top, shiftIn_five]

theorem shiftIn_address (w : Codeword) :
  shiftIn ((w.top.extractLsb' 0 2).setWidth 32) w.five = w.extractLsb' 0 32
  := by
  have hdigits : w.five = digits (w.extractLsb' 0 32) 5 := by
    simp (disch := decide) only [Codeword.five, digits_succ, digits_zero, extract_extract]
  have htop : w.top.extractLsb' 0 2 = (w.extractLsb' 0 32).extractLsb' 30 2 := by
    rw [Codeword.top, extract_extract _ (by decide), extract_extract _ (by decide)]
  rw [hdigits, htop, shiftIn_five]

namespace Readback

variable {h : Readback} {past : List (BitVec 32)} {w : Codeword}

/-- The table of the host holds the words `past`, the most recent one first. -/
def Knows (h : Readback) (past : List (BitVec 32)) : Prop := Recent h.mReadtbl h.mRdaddr past

/-- A data word sent in full is heard, and can be referred to afterwards. -/
theorem hear_data (hk : h.Knows past) (hw : w.isData = true) (gs : List (BitVec 6)) :
  ∃ h', h.hear (groups w ++ gs) = some (.data w.codData w.inc, h', gs)
    ∧ h'.Knows (w.codData :: past)
  := by
  have htop : w.top.extractLsb' 3 3 = 7 := by simpa [Codeword.isData_eq_top] using hw
  have hlen : (topLen w.top).toNat = 5 + 1 := by
    generalize w.top = t at htop
    revert t
    decide
  use (h.hearRaw w.codData).moveOn w.top
  constructor
  · rw [groups_eq w hlen, hear_raw h gs htop (by rfl), List.take_of_length_le (by rfl),
      shiftIn_codData, inc_eq_top]
  · apply hk.push

/-- A status is heard, and changes nothing of what is known. -/
theorem hear_isStatus (hk : h.Knows past) (hw : w.isStatus = true) (gs : List (BitVec 6)) :
  ∃ h', h.hear (groups w ++ gs) = some (.status w.top, h', gs) ∧ h'.Knows past
  := by
  have hlt : w.top < 6#6 := by simpa [Codeword.isStatus_eq_top] using hw
  have hlen : (topLen w.top).toNat = 0 + 1 := by
    generalize w.top = t at hlt
    revert t
    decide
  use h.hearStatus w.top
  constructor
  · rw [groups_eq w hlen]
    apply hear_status h gs hlt
  · unfold Knows hearStatus
    split_ifs <;> apply hk

/-- An address sent in full is heard. -/
theorem hear_isFullAddress (h : Readback) (hw : w.isFullAddress = true) (gs : List (BitVec 6)) :
  ∃ h', h.hear (groups w ++ gs) = some (.address (w.extractLsb' 0 32), h', gs)
  := by
  have htop : w.top.extractLsb' 2 4 = 2 := by simpa [Codeword.isFullAddress_eq_top] using hw
  have hlen : (topLen w.top).toNat = 5 + 1 := by
    generalize w.top = t at htop
    revert t
    decide
  use h.hearAddress (w.extractLsb' 0 32)
  rw [groups_eq w hlen, hear_full h gs htop (by rfl), List.take_of_length_le (by rfl),
    shiftIn_address]

/-- A codeword that carries the last `k + 1` digits of an address is heard as that
address, if the other digits are zero. -/
theorem hear_digits (h : Readback) {c : Codeword} {x : BitVec 32} {k : ℕ}
    (htop : c.top.extractLsb' 2 4 = 3) (hk : (c.top.extractLsb' 0 2).toNat = k)
    (hdigits : c.five.take (k + 1) = digits x (k + 1))
    (hx : x.extractLsb' (6 * (k + 1)) (32 - 6 * (k + 1)) = 0) (gs : List (BitVec 6)) :
  ∃ h', h.hear (groups c ++ gs) = some (.address x, h', gs)
  := by
  have hlen : (topLen c.top).toNat = k + 1 + 1 := by
    rw [← hk]
    generalize c.top = t at htop
    revert t
    decide
  use h.hearAddress x
  rw [groups_eq c hlen, hdigits, hear_short h gs htop (by rw [length_digits, hk]), shiftIn_low hx]

/-- A compressed address is heard as the address it was. -/
theorem hear_addrword (h : Readback) (hw : w.isFullAddress = true) (gs : List (BitVec 6)) :
  ∃ h', h.hear (groups (addrword w) ++ gs) = some (.address (w.extractLsb' 0 32), h', gs)
  := by
  have hfull : w.extractLsb' 32 4 = 2#4 := by simpa [Codeword.isFullAddress] using hw
  unfold addrword
  rw [if_neg (by simpa using hfull)]
  obtain ⟨x, hx⟩ : ∃ x, x = w.extractLsb' 0 32 := ⟨_, rfl⟩
  rw [← hx]
  split
  · rename_i h3 h2 h1 h0
    rw [beq_iff_eq] at h0 h1 h2 h3
    have htop : Codeword.top (0xc#6 ++ x.extractLsb' 0 6 ++ 0#24) = 0xc#6 := by
      simp (disch := decide) only [Codeword.top, extract_append_high]
      apply extract_all
    apply hear_digits h (k := 0) (by rw [htop]; rfl) (by rw [htop]; rfl)
    · simp (disch := decide) only [Codeword.five, digits_succ, digits_zero, extract_append_high,
        extract_append_low, extract_extract]
      rfl
    · apply extract_eq_zero_add h0 (extract_eq_zero_add h1 (extract_eq_zero_add h2 h3))
  · rename_i h3 h2 h1 h0
    rw [beq_iff_eq] at h1 h2 h3
    have htop : Codeword.top (0xd#6 ++ x.extractLsb' 0 12 ++ 0#18) = 0xd#6 := by
      simp (disch := decide) only [Codeword.top, extract_append_high]
      apply extract_all
    apply hear_digits h (k := 1) (by rw [htop]; rfl) (by rw [htop]; rfl)
    · simp (disch := decide) only [Codeword.five, digits_succ, digits_zero, extract_append_high,
        extract_append_low, extract_extract]
      rfl
    · apply extract_eq_zero_add h1 (extract_eq_zero_add h2 h3)
  · rename_i h3 h2 h1
    rw [beq_iff_eq] at h2 h3
    have htop : Codeword.top (0xe#6 ++ x.extractLsb' 0 18 ++ 0#12) = 0xe#6 := by
      simp (disch := decide) only [Codeword.top, extract_append_high]
      apply extract_all
    apply hear_digits h (k := 2) (by rw [htop]; rfl) (by rw [htop]; rfl)
    · simp (disch := decide) only [Codeword.five, digits_succ, digits_zero, extract_append_high,
        extract_append_low, extract_extract]
      rfl
    · apply extract_eq_zero_add h2 h3
  · rename_i h3 h2
    rw [beq_iff_eq] at h3
    have htop : Codeword.top (0xf#6 ++ x.extractLsb' 0 24 ++ 0#6) = 0xf#6 := by
      simp (disch := decide) only [Codeword.top, extract_append_high]
      apply extract_all
    apply hear_digits h (k := 3) (by rw [htop]; rfl) (by rw [htop]; rfl)
    · simp (disch := decide) only [Codeword.five, digits_succ, digits_zero, extract_append_high,
        extract_append_low, extract_extract]
      rfl
    · apply h3
  · rw [hx]
    apply hear_isFullAddress h hw

/-- The distance of a near reference, from its three bits. -/
theorem near_distance {k : BitVec 10} (htwo : 2 ≤ k) (hten : k < 10) :
  (k.extractLsb' 0 3 - 2#3).setWidth 10 + 2 = k
  := by
  have hall : ∀ j : BitVec 3, ((j.setWidth 10 + 2).extractLsb' 0 3 - 2#3).setWidth 10 + 2
      = j.setWidth 10 + 2 := by decide
  have hk : ((k - 2).setWidth 3).setWidth 10 + 2 = k := by bv_omega
  have := hall ((k - 2).setWidth 3)
  rw [hk] at this
  apply this

/-- The distance of a far reference, from its nine bits. -/
theorem far_distance {d : BitVec 10} (hd : d.toNat < 512) :
  (d.extractLsb' 6 3).setWidth 10 <<< 6 ||| (d.extractLsb' 0 6).setWidth 10 = d
  := by
  have hzero : d.extractLsb' 9 (10 - 9) = 0 := by
    apply BitVec.eq_of_toNat_eq
    simp [BitVec.extractLsb'_toNat, Nat.shiftRight_eq_div_pow]
    omega
  calc (d.extractLsb' 6 3).setWidth 10 <<< 6 ||| (d.extractLsb' 0 6).setWidth 10
      = (d.extractLsb' 0 9).setWidth 10 := shiftLeft_or_extract d 0 6 3 10
    _ = d := setWidth_extract_of_zero hzero

/-- A reference is heard as the data word it stands for. -/
theorem hear_reference {k : BitVec 10} (hk : h.Knows past) (hone : 1 ≤ k.toNat)
    (hle : k.toNat ≤ 520) (hpast : past[k.toNat - 1]? = some w.codData) (gs : List (BitVec 6)) :
  ∃ h', h.hear (groups (reference w k) ++ gs) = some (.data w.codData w.inc, h', gs)
    ∧ h'.Knows past
  := by
  have htableRead : h.tableRead k = w.codData := by
    have hslot := hk (k.toNat - 1) _ hpast (by omega)
    rw [Nat.sub_add_cancel hone, BitVec.ofNat_toNat, BitVec.setWidth_eq] at hslot
    apply hslot
  have hinc : (w.extractLsb' 30 1).getLsbD 0 = w.inc := by simp [Codeword.inc]
  use h.moveOn (reference w k).top
  refine ⟨?_, hk⟩
  unfold reference
  cases hz : k == 1 with
  | true =>
      rw [beq_iff_eq] at hz
      have htop := tableWord_last w (k < 10#10) (k.extractLsb' 0 3 - 2#3) (k - 10#10)
      rw [← Codeword.top] at htop
      have hlen : ∀ b : BitVec 1, (topLen (3#5 ++ b)).toNat = 0 + 1 := by decide
      rw [groups_eq _ (by rw [htop]; apply hlen), htop]
      have := hear_last h gs (w.extractLsb' 30 1)
      rw [← hz, htableRead, hinc] at this
      apply this
  | false =>
      have htwo : 2 ≤ k := by
        have hne : k ≠ 1 := by simpa using hz
        bv_omega
      cases hn : decide (k < 10#10) with
      | true =>
          rw [decide_eq_true_eq] at hn
          have htop := tableWord_near w (k.extractLsb' 0 3 - 2#3) (k - 10#10)
          rw [← Codeword.top] at htop
          have hlen : ∀ (a : BitVec 3) (b : BitVec 1), (topLen (2#2 ++ a ++ b)).toNat = 0 + 1 := by
            decide
          rw [groups_eq _ (by rw [htop]; apply hlen), htop]
          have := hear_near h gs (k.extractLsb' 0 3 - 2#3) (w.extractLsb' 30 1)
          rw [near_distance htwo hn, htableRead, hinc] at this
          apply this
      | false =>
          rw [decide_eq_false_iff_not] at hn
          have htop := tableWord_far w (k.extractLsb' 0 3 - 2#3) (k - 10#10)
          rw [← Codeword.top] at htop
          have hlow := tableWord_far_low w (k.extractLsb' 0 3 - 2#3) (k - 10#10)
          have hlen : ∀ (d : BitVec 3) (b : BitVec 1), (topLen (1#2 ++ d ++ b)).toNat = 1 + 1 := by
            decide
          have hd : (k - 10#10).toNat < 512 := by bv_omega
          have hdist : k - 10#10 + 2 + 8 = k := by bv_omega
          rw [groups_eq _ (by rw [htop]; apply hlen), htop, Codeword.five, List.take_succ_cons, hlow]
          have := hear_far h gs ((k - 10#10).extractLsb' 6 3) (w.extractLsb' 30 1)
            ((k - 10#10).extractLsb' 0 6)
          rw [far_distance hd, hdist, htableRead, hinc] at this
          apply this

end Readback

end ZBasic
