import Mathlib.Data.List.TakeWhile
import Mathlib.Tactic.IntervalCases
import ZBasic.Host.Ttybus
import ZBasic.Wbubus.Decompress
import ZBasic.Wbubus.Readcw

/-!
# What the device makes of a command

Every command of the host is read as one codeword, since its first group tells its
length; expanded, the codeword says what the command was meant to say. The one exception
is the command to read eight words without incrementing the address, `6'h2e`, which is
the codeword that ends a sequence of writes.
-/

namespace ZBasic

open Clocked

/-! ### Fields of the first group -/

theorem extract_group (w : Codeword) {b m : ℕ} (h : b + m ≤ 6) :
  w.extractLsb' (30 + b) m = (group w 0).extractLsb' b m
  := by rw [group, extract_extract w h]

theorem isFullWrite_group (w : Codeword) :
  w.isFullWrite = ((group w 0).extractLsb' 3 3 == 3#3)
  := by
  have htop := extract_group w (b := 3) (m := 3) (by decide)
  rw [Codeword.isFullWrite, htop]

/-- A full write starts as a write. -/
theorem isFullWrite_of_startsWrite {w : Codeword} (h : startsWrite (group w 0) = false) :
  w.isFullWrite = false
  := by
  have hall : ∀ g : BitVec 6, startsWrite g = false → (g.extractLsb' 3 3 == 3#3) = false := by
    decide
  rw [isFullWrite_group]
  apply hall _ h

theorem getLsbD_group (w : Codeword) {b : ℕ} (h : b < 6) :
  w.getLsbD (30 + b) = (group w 0).getLsbD b
  := by simp [group, h]

/-- The codeword let out, in terms of the first group. -/
theorem expand_eq (w : Codeword) (r_addr : BitVec 25) (rd_len : BitVec 10) (cword : BitVec 32) :
  expand w r_addr rd_len cword =
    let g := group w 0
    let w_addr : BitVec 32 := BitVec.fill 7 r_addr.msb ++ r_addr
    if g = 0x2e#6 then w
    else if g.extractLsb' 3 3 = 1#3 then
      if !g.getLsbD 0 then 0#4 ++ w_addr
      else 1#3 ++ w_addr.extractLsb' 30 2 ++ 1#1 ++ w_addr.extractLsb' 0 30
    else if g.extractLsb' 3 3 = 2#3 then
      3#3 ++ cword.extractLsb' 30 2 ++ g.extractLsb' 0 1 ++ cword.extractLsb' 0 30
    else if g.getLsbD 5 then 24#5 ++ g.extractLsb' 0 1 ++ 0#20 ++ rd_len
    else w
  := by
  have h6 := extract_group w (b := 0) (m := 6) (by decide)
  have h3 := extract_group w (b := 3) (m := 3) (by decide)
  have h1 := extract_group w (b := 0) (m := 1) (by decide)
  have hb0 := getLsbD_group w (b := 0) (by decide)
  have hb5 := getLsbD_group w (b := 5) (by decide)
  simp only [Nat.add_zero, Nat.reduceAdd, extract_all] at h6 h3 h1 hb0 hb5
  rw [expand, h6, h3, h1, hb0, hb5]

theorem isEndOfWrite_eq_false {w : Codeword} (h : w.extractLsb' 34 2 ≠ 2#2) :
  w.isEndOfWrite = false
  := by
  rw [Codeword.isEndOfWrite, beq_eq_false_iff_ne]
  intro hend
  apply h
  have hfield := extract_extract w (a := 30) (b := 4) (m := 2) (n := 6) (by decide)
  rw [hend] at hfield
  rw [← hfield]
  decide

theorem Codeword.isEndOfWrite_of_isAbsolute {w : Codeword} (h : w.isAbsolute = true) :
  w.isEndOfWrite = false
  := by
  rw [isAbsolute, beq_iff_eq] at h
  have hfield := extract_extract w (a := 32) (b := 2) (m := 2) (n := 4) (by decide)
  apply isEndOfWrite_eq_false
  rw [← hfield, h]
  decide

theorem Codeword.isEndOfWrite_of_isRelative {w : Codeword} (h : w.isRelative = true) :
  w.isEndOfWrite = false
  := by
  rw [isRelative, beq_iff_eq] at h
  have hfield := extract_extract w (a := 33) (b := 1) (m := 2) (n := 3) (by decide)
  apply isEndOfWrite_eq_false
  rw [← hfield, h]
  decide

theorem Codeword.isEndOfWrite_of_isRead {w : Codeword} (h : w.isRead = true) :
  w.isEndOfWrite = false
  := by
  rw [isRead, beq_iff_eq] at h
  apply isEndOfWrite_eq_false
  rw [h]
  decide

theorem Codeword.isEndOfWrite_of_isWrite {w : Codeword} (h : w.isWrite = true) :
  w.isEndOfWrite = false
  := by
  rw [isWrite, beq_iff_eq] at h
  apply isEndOfWrite_eq_false
  rw [h]
  decide

/-- An end of write is let out for the group `6'h2e` and no other. -/
theorem Table.out_isEndOfWrite (t : Table) (w : Codeword) :
  (t.out w).isEndOfWrite = (group w 0 == 0x2e#6)
  := by
  have hw : w.isEndOfWrite = (group w 0 == 0x2e#6) := rfl
  rw [Table.out, expand_eq]
  dsimp only
  split_ifs with hend habs hrel hwrite hread
  · apply hw
  · rw [beq_eq_false_iff_ne.mpr hend]
    apply isEndOfWrite_eq_false
    rw [extract_append_high _ _ (by decide)]
    decide
  · rw [beq_eq_false_iff_ne.mpr hend]
    apply isEndOfWrite_eq_false
    rw [extract_kind_word]
    decide
  · rw [beq_eq_false_iff_ne.mpr hend]
    apply isEndOfWrite_eq_false
    rw [extract_kind_word]
    decide
  · rw [beq_eq_false_iff_ne.mpr hend]
    apply isEndOfWrite_eq_false
    rw [extract_append_high _ _ (by decide), extract_append_high _ _ (by decide),
      extract_append_high _ _ (by decide)]
    decide
  · apply hw

/-- What the first two bits of a codeword let out are: those of a write for the groups that
start a write, those of a read for the groups that start with a one, but for `6'h2e`. -/
theorem Table.out_kind (t : Table) (w : Codeword) :
  (t.out w).isWrite = startsWrite (group w 0)
    ∧ (t.out w).isRead = ((group w 0).getLsbD 5 && group w 0 != 0x2e#6)
  := by
  have hw : w.extractLsb' 34 2 = (group w 0).extractLsb' 4 2 := by
    have htop := extract_group w (b := 4) (m := 2) (by decide)
    apply htop
  rw [Table.out, expand_eq, Codeword.isWrite, Codeword.isRead]
  dsimp only
  split_ifs with hend habs hrel hwrite hread
  · rw [hw, hend]
    decide
  · rw [extract_append_high _ _ (by decide)]
    clear hw
    generalize group w 0 = g at *
    revert g
    decide
  · rw [extract_kind_word]
    clear hw
    generalize group w 0 = g at *
    revert g
    decide
  · rw [extract_kind_word]
    clear hw
    generalize group w 0 = g at *
    revert g
    decide
  · rw [extract_append_high _ _ (by decide), extract_append_high _ _ (by decide),
      extract_append_high _ _ (by decide)]
    clear hw
    generalize group w 0 = g at *
    revert g
    decide
  · rw [hw]
    clear hw
    generalize group w 0 = g at *
    revert g
    decide

/-! ### Reads -/

/-- The lengths of reads of up to 512 words, one after the other, that make up `r`. -/
def blocks (r : ℕ) : List ℕ :=
  if r = 0 then [] else min r 512 :: blocks (r - 512)
termination_by r

namespace Ttybus

theorem nextRead_eq {len cmdrd nread : ℕ} (h : nread = cmdrd - readAhead) :
  nextRead len cmdrd nread = min (len - cmdrd) 512
  := by
  simp only [nextRead, readAhead, readBlock, maxRdLen] at *
  grind

theorem blocks_of_lt {len cmdrd : ℕ} (h : cmdrd < len) :
  blocks (len - cmdrd)
    = min (len - cmdrd) 512 :: blocks (len - (cmdrd + min (len - cmdrd) 512))
  := by
  have hrest : len - cmdrd - 512 = len - (cmdrd + min (len - cmdrd) 512) := by omega
  conv_lhs => rw [blocks, if_neg (by omega), hrest]

/-- From a multiple of 512 on, a line asks for blocks of 512 words. -/
theorem readLine_blocks {len cmdrd nread : ℕ} (h : cmdrd < len) (hmul : 512 ∣ cmdrd)
    (hnread : nread = cmdrd - readAhead) :
  (readLine len cmdrd nread).1 ++ blocks (len - (readLine len cmdrd nread).2)
      = blocks (len - cmdrd)
    ∧ (len ≤ (readLine len cmdrd nread).2 ∨ 512 ∣ (readLine len cmdrd nread).2)
  := by
  induction cmdrd using readLine.induct len nread with
  | case1 cmdrd nrd hmore ih =>
      have hnrd : nrd = min (len - cmdrd) 512 := nextRead_eq hnread
      have hfull : nrd = 512 := by omega
      have hahead : readAhead + readBlock = 1024 := rfl
      have hread : readAhead = 512 := rfl
      have hfirst : cmdrd = 0 := by omega
      obtain ⟨hblocks, hmul'⟩ := ih hmore.2 (by omega) (by omega)
      rw [readLine, dif_pos hmore]
      constructor
      · rw [blocks_of_lt h, ← hnrd, ← hblocks]
        rfl
      · apply hmul'
  | case2 cmdrd nrd hmore =>
      have hnrd : nrd = min (len - cmdrd) 512 := nextRead_eq hnread
      have hnext : nextRead len cmdrd nread = nrd := rfl
      rw [readLine, dif_neg hmore]
      constructor
      · rw [blocks_of_lt h, hnext, hnrd]
        rfl
      · simp only [hnext]
        omega

/-- The lengths of the read commands of `readv`. -/
def readLens (len : ℕ) : List ℕ := (readLines len 0 0 (Nat.zero_le _)).flatten

theorem readLines_blocks {len cmdrd nread : ℕ} (hahead : cmdrd - nread ≤ readAhead)
    (hmul : len ≤ cmdrd ∨ 512 ∣ cmdrd) (hnread : nread = cmdrd - readAhead) :
  (readLines len cmdrd nread hahead).flatten = blocks (len - cmdrd)
  := by
  induction cmdrd, nread, hahead using readLines.induct len with
  | case1 cmdrd nread hahead h ih =>
      obtain ⟨hblocks, hmul'⟩ := readLine_blocks h (by omega) hnread
      have hgrow := le_readLine len cmdrd nread
      rw [readLines, dif_pos h, List.flatten_cons, ih hmul' (by omega), hblocks]
  | case2 cmdrd nread hahead h =>
      rw [readLines, dif_neg h, List.flatten_nil, blocks, if_pos (by omega)]

/-- The reads of `readv` are of 512 words each, except for the last. -/
theorem readLens_eq (len : ℕ) :
  readLens len = blocks len
  := by
  apply readLines_blocks
  · right
    apply Nat.dvd_zero
  · rfl

end Ttybus

theorem sum_blocks (r : ℕ) :
  (blocks r).sum = r
  := by
  induction r using blocks.induct with
  | case1 => simp [blocks]
  | case2 r h ih =>
      rw [blocks, if_neg h, List.sum_cons, ih]
      omega

theorem mem_blocks {r n : ℕ} (h : n ∈ blocks r) :
  0 < n ∧ n ≤ 512
  := by
  induction r using blocks.induct with
  | case1 => simp [blocks] at h
  | case2 r hr ih =>
      rw [blocks, if_neg hr, List.mem_cons] at h
      rcases h with rfl | h
      · omega
      · apply ih h

/-- A block of eight words is what is left over a multiple of 512. -/
theorem eight_mem_blocks (r : ℕ) :
  8 ∈ blocks r ↔ r % 512 = 8
  := by
  induction r using blocks.induct with
  | case1 => simp [blocks]
  | case2 r h ih =>
      rw [blocks, if_neg h, List.mem_cons, ih]
      omega

/-- The length a read codeword is given, in terms of the first two groups. -/
theorem expandLen_eq (w : Codeword) :
  expandLen w =
    if !(group w 0).getLsbD 4 then 1#10 + (0#7 ++ (group w 0).extractLsb' 1 3)
    else 9#10 + (0#1 ++ (group w 0).extractLsb' 1 3 ++ group w 1)
  := by
  have hb4 := getLsbD_group w (b := 4) (by decide)
  have h13 := extract_group w (b := 1) (m := 3) (by decide)
  simp only [Nat.reduceAdd] at hb4 h13
  rw [expandLen, hb4, h13]
  rfl

/-- A read codeword. -/
def IsReadOf (inc : Bool) (n : ℕ) (w : Codeword) : Prop :=
  w.isRead = true ∧ w.inc = inc ∧ w.readLen.toNat = n

theorem isReadOf_word (inc : Bool) (rd_len : BitVec 10) :
  IsReadOf inc rd_len.toNat (24#5 ++ BitVec.ofBool inc ++ 0#20 ++ rd_len)
  := by
  refine ⟨?_, ?_, ?_⟩
  · rw [Codeword.isRead, extract_append_high _ _ (by decide), extract_append_high _ _ (by decide),
      extract_append_high _ _ (by decide)]
    decide
  · simp only [Codeword.inc, BitVec.getLsbD_append]
    simp
  · rw [Codeword.readLen, extract_append_low _ _ (by decide), extract_all]

namespace Ttybus

/-- A read of up to eight words has one group. -/
theorem readcmd_short {inc : Bool} {n : ℕ} (hpos : 0 < n) (hle : n ≤ 8) :
  readcmd inc n = [2#2 ++ BitVec.ofNat 3 (n - 1) ++ BitVec.ofBool inc]
  := by
  have hall : ∀ n ≤ 8, 0 < n → ∀ inc, readcmd inc n
      = [2#2 ++ BitVec.ofNat 3 (n - 1) ++ BitVec.ofBool inc] := by decide
  apply hall n hle hpos

/-- A read of more words has two. -/
theorem readcmd_long {inc : Bool} {n : ℕ} (hlt : 8 < n) (hle : n ≤ 512) :
  readcmd inc n = [3#2 ++ BitVec.ofNat 3 ((n - 9) / 64) ++ BitVec.ofBool inc,
    BitVec.ofNat 6 ((n - 9) % 64)]
  := by
  have hall : ∀ k < 504, ∀ inc : Bool,
      BitVec.ofNat 6 (0x30 + ((k >>> 5) &&& 0x0e) + inc.toNat)
          = 3#2 ++ BitVec.ofNat 3 (k / 64) ++ BitVec.ofBool inc
        ∧ BitVec.ofNat 6 (k &&& 0x3f) = BitVec.ofNat 6 (k % 64) := by
    decide +kernel
  obtain ⟨hfirst, hsecond⟩ := hall (n - 9) (by omega) inc
  rw [readcmd, if_neg (by omega), hfirst, hsecond]

/-- The only read that looks like an end of write is that of eight words from one
address. -/
theorem head_readcmd {inc : Bool} {n : ℕ} (hpos : 0 < n) (hle : n ≤ 512) :
  (readcmd inc n).head? = some 0x2e#6 ↔ inc = false ∧ n = 8
  := by
  rcases Nat.lt_or_ge 8 n with hlong | hshort
  · have hall : ∀ (x : BitVec 3) (inc : Bool), 3#2 ++ x ++ BitVec.ofBool inc ≠ 0x2e#6 := by decide
    simp [readcmd_long hlong hle, hall, hlong.ne']
  · have hall : ∀ n ≤ 8, 0 < n → ∀ inc,
        ((readcmd inc n).head? = some 0x2e#6 ↔ inc = false ∧ n = 8) := by decide
    apply hall n hshort hpos

/-- A read is one codeword, and no write. -/
theorem readcmd_framed {inc : Bool} {n : ℕ} (hpos : 0 < n) (hle : n ≤ 512) :
  ∃ g gs, readcmd inc n = g :: gs ∧ (g :: gs).length = (cwLength g).toNat
    ∧ startsWrite g = false
  := by
  have hall : ∀ (x : BitVec 3) (inc : Bool),
      cwLength (2#2 ++ x ++ BitVec.ofBool inc) = 1 ∧ cwLength (3#2 ++ x ++ BitVec.ofBool inc) = 2
        ∧ startsWrite (2#2 ++ x ++ BitVec.ofBool inc) = false
        ∧ startsWrite (3#2 ++ x ++ BitVec.ofBool inc) = false := by decide
  rcases Nat.lt_or_ge 8 n with hlong | hshort
  · obtain ⟨-, hlen, -, hstart⟩ := hall (BitVec.ofNat 3 ((n - 9) / 64)) inc
    refine ⟨_, _, readcmd_long hlong hle, ?_, hstart⟩
    rw [hlen]
    rfl
  · obtain ⟨hlen, -, hstart, -⟩ := hall (BitVec.ofNat 3 (n - 1)) inc
    refine ⟨_, _, readcmd_short hpos hshort, ?_, hstart⟩
    rw [hlen]
    rfl

theorem out_of_read (t : Table) {w : Codeword} {hi : BitVec 2} {x : BitVec 3} {inc : Bool}
    (hhi : hi = 2#2 ∨ hi = 3#2) (hg : group w 0 = hi ++ x ++ BitVec.ofBool inc)
    (hne : group w 0 ≠ 0x2e#6) :
  t.out w = 24#5 ++ BitVec.ofBool inc ++ 0#20 ++ expandLen w
  := by
  have hall : ∀ hi : BitVec 2, hi = 2#2 ∨ hi = 3#2 → ∀ (x : BitVec 3) (inc : Bool),
      (hi ++ x ++ BitVec.ofBool inc).extractLsb' 3 3 ≠ 1#3
        ∧ (hi ++ x ++ BitVec.ofBool inc).extractLsb' 3 3 ≠ 2#3
        ∧ (hi ++ x ++ BitVec.ofBool inc).getLsbD 5 = true
        ∧ (hi ++ x ++ BitVec.ofBool inc).extractLsb' 0 1 = BitVec.ofBool inc := by decide
  obtain ⟨haddr, hwrite, hread, hinc⟩ := hall hi hhi x inc
  rw [Table.out, expand_eq]
  dsimp only
  rw [if_neg hne, hg, if_neg haddr, if_neg hwrite, if_pos hread, hinc]

/-- A read command is read as a read codeword of its length, unless it looks like an end
of write. -/
theorem out_readcmd (t : Table) {w : Codeword} {inc : Bool} {n : ℕ} (hpos : 0 < n)
    (hle : n ≤ 512) (hne : ¬ (inc = false ∧ n = 8)) (h : Carries w (readcmd inc n)) :
  IsReadOf inc n (t.out w)
  := by
  have hhead : group w 0 ≠ 0x2e#6 := by
    intro hg
    obtain ⟨g, gs, hcmd, -⟩ := @readcmd_framed inc n hpos hle
    apply hne
    rw [hcmd] at h
    have h0 : group w 0 = g := h 0 (Nat.zero_lt_succ _)
    rw [← head_readcmd hpos hle, hcmd, List.head?_cons, ← h0, hg]
  rcases Nat.lt_or_ge 8 n with hlong | hshort
  · rw [readcmd_long hlong hle] at h
    have h0 : group w 0 = 3#2 ++ BitVec.ofNat 3 ((n - 9) / 64) ++ BitVec.ofBool inc := h 0 (by simp)
    have h1 : group w 1 = BitVec.ofNat 6 ((n - 9) % 64) := h 1 (by simp)
    have hall : ∀ (x : BitVec 3) (inc : Bool), (3#2 ++ x ++ BitVec.ofBool inc).getLsbD 4 = true
        ∧ (3#2 ++ x ++ BitVec.ofBool inc).extractLsb' 1 3 = x := by decide
    obtain ⟨hfour, hx⟩ := hall (BitVec.ofNat 3 ((n - 9) / 64)) inc
    have hlen : (expandLen w).toNat = n := by
      have hsum : ∀ k < 504, (9#10 + (0#1 ++ BitVec.ofNat 3 (k / 64)
          ++ BitVec.ofNat 6 (k % 64))).toNat = k + 9 := by decide +kernel
      rw [expandLen_eq, h0, hfour, hx, h1]
      simp only [Bool.not_true, Bool.false_eq_true, if_false]
      rw [hsum (n - 9) (by omega)]
      omega
    rw [out_of_read t (by decide) h0 hhead, ← hlen]
    apply isReadOf_word
  · rw [readcmd_short hpos hshort] at h
    have h0 : group w 0 = 2#2 ++ BitVec.ofNat 3 (n - 1) ++ BitVec.ofBool inc := h 0 (by simp)
    have hall : ∀ (x : BitVec 3) (inc : Bool), (2#2 ++ x ++ BitVec.ofBool inc).getLsbD 4 = false
        ∧ (2#2 ++ x ++ BitVec.ofBool inc).extractLsb' 1 3 = x := by decide
    obtain ⟨hfour, hx⟩ := hall (BitVec.ofNat 3 (n - 1)) inc
    have hlen : (expandLen w).toNat = n := by
      have hsum : ∀ k < 8, (1#10 + (0#7 ++ BitVec.ofNat 3 k)).toNat = k + 1 := by decide
      rw [expandLen_eq, h0, hfour, hx]
      simp only [Bool.not_false, if_true]
      rw [hsum (n - 1) (by omega)]
      omega
    rw [out_of_read t (by decide) h0 hhead, ← hlen]
    apply isReadOf_word

end Ttybus

/-! ### Addresses -/

/-- The groups after the first one make up a field of the codeword. -/
theorem Carries.extract_digits {w : Codeword} {g : BitVec 6} {v : BitVec 32} {j : ℕ} (hj : j ≤ 5)
    (h : Carries w (g :: digits v j)) :
  w.extractLsb' (30 - 6 * j) (6 * j) = v.extractLsb' 0 (6 * j)
  := by
  apply extract_eq_of_digits
  intro k hk
  have hlen : (g :: digits v j).length = j + 1 := by simp [digits]
  have hdigit := h (j - k) (by omega)
  obtain ⟨i, hi⟩ : ∃ i, j - k = i + 1 := ⟨j - k - 1, by omega⟩
  simp only [hi, List.getElem_cons_succ, digits, List.getElem_map, List.getElem_reverse,
    List.length_range, List.getElem_range, group] at hdigit
  have hpos : 30 - 6 * (i + 1) = 30 - 6 * j + 6 * k := by omega
  have hval : j - 1 - i = k := by omega
  rw [hpos, hval] at hdigit
  rw [hdigit, Nat.zero_add]

theorem toNat_zero_append (n : ℕ) {m : ℕ} (x : BitVec m) :
  (0#n ++ x).toNat = x.toNat
  := by simp [BitVec.toNat_append]

/-- The address field of a codeword with `j` groups after the first one. -/
theorem toNat_expandAddr {w : Codeword} {v : BitVec 32} {j : ℕ} {rel : Bool} (hj : 1 ≤ j)
    (hj' : j ≤ 4) (hg : w.extractLsb' 30 3 = BitVec.ofNat 3 (2 * (j - 1) + rel.toNat))
    (hlow : w.extractLsb' (30 - 6 * j) (6 * j) = v.extractLsb' 0 (6 * j))
    (hv : v.toNat < if rel then 2 ^ (6 * j - 1) else 2 ^ (6 * j)) :
  (expandAddr w).toNat = v.toNat
  := by
  have hbit : rel = true → w.getLsbD 29 = false := by
    rintro rfl
    have htop := congrArg (·.getLsbD (6 * j - 1)) hlow
    have hpos : 30 - 6 * j + (6 * j - 1) = 29 := by omega
    have hlt : 6 * j - 1 < 6 * j := by omega
    simp only [BitVec.getLsbD_extractLsb', hlt, decide_true, Bool.true_and, hpos,
      Nat.zero_add] at htop
    rw [htop]
    apply Nat.testBit_lt_two_pow
    simpa using hv
  have hfield : (w.extractLsb' (30 - 6 * j) (6 * j)).toNat = v.toNat := by
    rw [hlow, BitVec.extractLsb'_toNat, Nat.shiftRight_zero, Nat.mod_eq_of_lt]
    apply lt_of_lt_of_le hv
    split
    · apply Nat.pow_le_pow_right (by decide) (Nat.sub_le _ _)
    · apply Nat.le_refl
  rw [← hfield, expandAddr, hg]
  cases rel with
  | true =>
      rw [hbit rfl]
      interval_cases j <;> apply toNat_zero_append
  | false => interval_cases j <;> apply toNat_zero_append
/-- A short address is extended with zeros. -/
theorem extend_addr {r : BitVec 25} {v : BitVec 32} (h : r.toNat = v.toNat)
    (hv : v.toNat < 2 ^ 24) :
  BitVec.fill 7 r.msb ++ r = v
  := by
  have hmsb : r.msb = false := by
    rw [BitVec.msb_eq_decide, decide_eq_false_iff_not, Nat.not_le, h]
    apply hv
  rw [hmsb, ← BitVec.toNat_inj, ← h]
  apply toNat_zero_append

/-- The first group of an address command with `j` more groups. -/
def addrPrefix (j : ℕ) (rel : Bool) : BitVec 6 := BitVec.ofNat 6 (0x08 + 2 * (j - 1) + rel.toNat)

theorem addrPrefix_spec {j : ℕ} (hj : 1 ≤ j) (hj' : j ≤ 4) (rel : Bool) :
  addrPrefix j rel ≠ 0x2e#6 ∧ (addrPrefix j rel).extractLsb' 3 3 = 1#3
    ∧ (addrPrefix j rel).getLsbD 0 = rel
    ∧ (addrPrefix j rel).extractLsb' 0 3 = BitVec.ofNat 3 (2 * (j - 1) + rel.toNat)
    ∧ (cwLength (addrPrefix j rel)).toNat = j + 1
  := by
  have hall : ∀ j ≤ 4, 1 ≤ j → ∀ rel, addrPrefix j rel ≠ 0x2e#6
      ∧ (addrPrefix j rel).extractLsb' 3 3 = 1#3 ∧ (addrPrefix j rel).getLsbD 0 = rel
      ∧ (addrPrefix j rel).extractLsb' 0 3 = BitVec.ofNat 3 (2 * (j - 1) + rel.toNat)
      ∧ (cwLength (addrPrefix j rel)).toNat = j + 1 := by decide
  apply hall j hj' hj

/-- What is let out for a short address command. -/
theorem out_addr (t : Table) {w : Codeword} {v : BitVec 32} {j : ℕ} {rel : Bool} (hj : 1 ≤ j)
    (hj' : j ≤ 4) (h : Carries w (addrPrefix j rel :: digits v j))
    (hv : v.toNat < if rel then 2 ^ (6 * j - 1) else 2 ^ (6 * j)) :
  t.out w =
    if rel then 1#3 ++ v.extractLsb' 30 2 ++ 1#1 ++ v.extractLsb' 0 30 else 0#4 ++ v
  := by
  obtain ⟨hend, haddr, hrel, hcode, -⟩ := addrPrefix_spec hj hj' rel
  have h0 : group w 0 = addrPrefix j rel := h 0 (Nat.zero_lt_succ _)
  have hfield := extract_group w (b := 0) (m := 3) (by decide)
  rw [h0, hcode] at hfield
  have hlt : v.toNat < 2 ^ 24 := by
    apply lt_of_lt_of_le hv
    split
    · apply Nat.pow_le_pow_right (by decide) (by omega)
    · apply Nat.pow_le_pow_right (by decide) (by omega)
  have hextend := extend_addr
    (toNat_expandAddr hj hj' hfield (h.extract_digits (by omega)) hv) hlt
  rw [Table.out, expand_eq]
  dsimp only
  rw [h0, if_neg hend, if_pos haddr, hrel, hextend]
  cases rel <;> rfl

theorem isAbsolute_word (v : BitVec 32) :
  Codeword.isAbsolute (0#4 ++ v) = true ∧ (0#4 ++ v).extractLsb' 0 32 = v
  := by
  constructor
  · rw [Codeword.isAbsolute, extract_append_high _ _ (by decide)]
    decide
  · rw [extract_append_low _ _ (by decide), extract_all]

theorem isRelative_word (v : BitVec 32) :
  Codeword.isRelative (1#3 ++ v.extractLsb' 30 2 ++ 1#1 ++ v.extractLsb' 0 30) = true
  := by
  rw [Codeword.isRelative, extract_top_word]
  decide

/-- What is let out for a full address. -/
theorem out_encode (t : Table) {w : Codeword} {v : BitVec 32} (h : Carries w (Ttybus.encode 0 v)) :
  (t.out w).isAbsolute = true ∧ (t.out w).extractLsb' 0 32 = v
  := by
  have h0 : group w 0 = 0#4 ++ v.extractLsb' 30 2 := h 0 (Nat.zero_lt_succ _)
  have hall : ∀ x : BitVec 2, (0#4 ++ x) ≠ 0x2e#6 ∧ (0#4 ++ x).extractLsb' 3 3 ≠ 1#3
      ∧ (0#4 ++ x).extractLsb' 3 3 ≠ 2#3 ∧ (0#4 ++ x).getLsbD 5 = false := by decide
  obtain ⟨hend, haddr, hwrite, hread⟩ := hall (v.extractLsb' 30 2)
  have hout : t.out w = w := by
    rw [Table.out, expand_eq]
    dsimp only
    rw [h0, if_neg hend, if_neg haddr, if_neg hwrite, hread]
    rfl
  have hlow : w.extractLsb' 0 30 = v.extractLsb' 0 30 :=
    Carries.extract_digits (j := 5) (by decide) h
  have htop : w.extractLsb' 30 2 = v.extractLsb' 30 2 := by
    have hfield := extract_group w (b := 0) (m := 2) (by decide)
    rw [h0, extract_append_low _ _ (by decide), extract_all] at hfield
    apply hfield
  have hzero : w.extractLsb' 32 4 = 0#4 := by
    have hfield := extract_group w (b := 2) (m := 4) (by decide)
    rw [h0, extract_append_high _ _ (by decide), extract_all] at hfield
    apply hfield
  rw [hout]
  constructor
  · rw [Codeword.isAbsolute, hzero]
    decide
  · apply eq_of_extract 30 (by decide)
    · rw [extract_extract w (by decide)]
      apply hlow
    · rw [extract_extract w (by decide)]
      apply htop

namespace Ttybus

/-- A relative address has as many groups as its distance needs. -/
theorem encodeDiff_cases {d : BitVec 32} (hd : d.toNat < 2 ^ 30) :
  encodeDiff d = [] ∨ ∃ j, 1 ≤ j ∧ j ≤ 4 ∧ encodeDiff d = addrPrefix j true :: digits d j
    ∧ d.toNat < 2 ^ (6 * j - 1)
  := by
  have hint : d.toInt = d.toNat := BitVec.toInt_eq_toNat_of_lt (by omega)
  rw [encodeDiff, hint]
  split_ifs with h1 h2 h3 h4
  · right
    exact ⟨1, by decide, by decide, rfl, by omega⟩
  · right
    exact ⟨2, by decide, by decide, rfl, by omega⟩
  · right
    exact ⟨3, by decide, by decide, rfl, by omega⟩
  · right
    exact ⟨4, by decide, by decide, rfl, by omega⟩
  · left
    rfl

/-- An address command is absolute or, where that is shorter, relative. -/
theorem encodeAddress_cases (h : Ttybus) (a : BitVec 32) :
  (h.encodeAddress a = [] ∧ h.mAddrSet = true ∧ a = h.mLastaddr)
    ∨ h.encodeAddress a = encode 0 (a >>> 2)
    ∨ (∃ j, 1 ≤ j ∧ j ≤ 4 ∧ h.encodeAddress a = addrPrefix j false :: digits (a >>> 2) j
      ∧ (a >>> 2).toNat < 2 ^ (6 * j))
    ∨ (∃ j, 1 ≤ j ∧ j ≤ 4
      ∧ h.encodeAddress a = addrPrefix j true :: digits ((a - h.mLastaddr) >>> 2) j
      ∧ ((a - h.mLastaddr) >>> 2).toNat < 2 ^ (6 * j - 1) ∧ h.mAddrSet = true
      ∧ 2 ^ (6 * j) ≤ (a >>> 2).toNat)
  := by
  have hdiff := encodeDiff_cases (d := (a - h.mLastaddr) >>> 2) (by
    rw [BitVec.toNat_ushiftRight]
    omega)
  generalize hd : (a - h.mLastaddr) >>> 2 = d at hdiff ⊢
  have hptr : (if h.mAddrSet then encodeDiff d else []) = []
      ∨ ∃ j, 1 ≤ j ∧ j ≤ 4 ∧ (if h.mAddrSet then encodeDiff d else []) = addrPrefix j true :: digits d j
        ∧ d.toNat < 2 ^ (6 * j - 1) ∧ h.mAddrSet = true := by
    cases hset : h.mAddrSet <;> simp_all
  simp only [encodeAddress, hd]
  generalize (if h.mAddrSet = true then encodeDiff d else []) = ptr at hptr ⊢
  have hlen : ∀ j, (digits d j).length = j := length_digits d
  simp only [BitVec.le_def]
  split_ifs with h0 h1 h2 h3 h4 h5
  · left
    exact ⟨rfl, h0⟩
  · right; right; left
    exact ⟨1, by decide, by decide, rfl, by simpa using Nat.lt_succ_of_le h1.1⟩
  · right; right; left
    exact ⟨2, by decide, by decide, rfl, by simpa using Nat.lt_succ_of_le h2.1⟩
  · right; right; left
    exact ⟨3, by decide, by decide, rfl, by simpa using Nat.lt_succ_of_le h3.1⟩
  · right; right; left
    exact ⟨4, by decide, by decide, rfl, by simpa using Nat.lt_succ_of_le h4.1⟩
  · right; left
    rfl
  · right; right; right
    rcases hptr with hnil | ⟨j, hj, hj', hptr, hlt, hset⟩
    · cases h5 hnil
    · use j, hj, hj', hptr, hlt, hset
      -- a shorter absolute address would have been taken
      have hlong : ptr.length = j + 1 := by rw [hptr, List.length_cons, hlen]
      have hne : ptr ≠ [] := h5
      simp only [hne, hlong, false_or] at h1 h2 h3 h4
      interval_cases j <;> simp at h1 h2 h3 h4 ⊢ <;> omega

/-- The codeword `w` moves the address of the device, which follows `m_lastaddr`, to
`a`. -/
def MovesAddress (h : Ttybus) (a : BitVec 32) (w : Codeword) : Prop :=
  w.isAbsolute = true ∧ w.extractLsb' 0 32 = a >>> 2
    ∨ w.isRelative = true ∧ h.mAddrSet = true
      ∧ (h.mLastaddr.extractLsb' 0 2 = 0#2 → h.mLastaddr >>> 2 + w.codData = a >>> 2)

/-- A distance that is shorter to write than the address does not wrap. -/
theorem lastaddr_add_diff {a last : BitVec 32} (ha : a.extractLsb' 0 2 = 0#2)
    (hlast : last.extractLsb' 0 2 = 0#2) (hle : ((a - last) >>> 2).toNat ≤ (a >>> 2).toNat) :
  last >>> 2 + (a - last) >>> 2 = a >>> 2
  := by
  have ha' : a.toNat % 4 = 0 := by
    have := congrArg BitVec.toNat ha
    simpa using this
  have hlast' : last.toNat % 4 = 0 := by
    have := congrArg BitVec.toNat hlast
    simpa using this
  rw [← BitVec.toNat_inj]
  simp only [BitVec.toNat_add, BitVec.toNat_ushiftRight, BitVec.toNat_sub, Nat.shiftRight_eq_div_pow]
    at hle ⊢
  omega

theorem out_encodeAddress (t : Table) {h : Ttybus} {a : BitVec 32} {w : Codeword}
    (ha : a.extractLsb' 0 2 = 0#2) (hne : h.encodeAddress a ≠ [])
    (hw : Carries w (h.encodeAddress a)) :
  h.MovesAddress a (t.out w)
  := by
  rcases h.encodeAddress_cases a with ⟨hnil, -⟩ | hfull | ⟨j, hj, hj', heq, hlt⟩
    | ⟨j, hj, hj', heq, hlt, hset, hge⟩
  · cases hne hnil
  · left
    rw [hfull] at hw
    apply out_encode t hw
  · left
    rw [heq] at hw
    rw [out_addr t hj hj' hw hlt]
    apply isAbsolute_word
  · right
    rw [heq] at hw
    rw [out_addr t hj hj' hw hlt]
    refine ⟨isRelative_word _, hset, ?_⟩
    intro hlast
    rw [if_pos rfl, codData_word]
    apply lastaddr_add_diff ha hlast
    have : 2 ^ (6 * j - 1) ≤ 2 ^ (6 * j) := Nat.pow_le_pow_right (by decide) (Nat.sub_le _ _)
    omega

/-- An address command is one codeword, and neither an end of write nor a full write. -/
theorem encodeAddress_framed {h : Ttybus} {a : BitVec 32} (hne : h.encodeAddress a ≠ []) :
  ∃ g gs, h.encodeAddress a = g :: gs ∧ (g :: gs).length = (cwLength g).toNat ∧ g ≠ 0x2e#6
    ∧ g.extractLsb' 3 3 ≠ 3#3
  := by
  have hdigits : ∀ v j, (digits v j).length = j := length_digits
  rcases h.encodeAddress_cases a with ⟨hnil, -⟩ | hfull | ⟨j, hj, hj', heq, -⟩
    | ⟨j, hj, hj', heq, -⟩
  · cases hne hnil
  · have hall : ∀ x : BitVec 2, cwLength (0#4 ++ x) = 6 ∧ 0#4 ++ x ≠ 0x2e#6
        ∧ (0#4 ++ x).extractLsb' 3 3 ≠ 3#3 := by decide
    obtain ⟨hlen, hend, hkind⟩ := hall ((a >>> 2).extractLsb' 30 2)
    refine ⟨_, _, hfull, ?_, hend, hkind⟩
    apply (congrArg BitVec.toNat hlen).symm
  · obtain ⟨hend, hkind, -, -, hlen⟩ := addrPrefix_spec hj hj' false
    refine ⟨_, _, heq, ?_, hend, ?_⟩
    · rw [List.length_cons, hdigits, hlen]
    · rw [hkind]
      decide
  · obtain ⟨hend, hkind, -, -, hlen⟩ := addrPrefix_spec hj hj' true
    refine ⟨_, _, heq, ?_, hend, ?_⟩
    · rw [List.length_cons, hdigits, hlen]
    · rw [hkind]
      decide

end Ttybus

/-! ### Writes -/

/-- A write codeword. -/
def IsWriteOf (p : Bool) (val : BitVec 32) (w : Codeword) : Prop :=
  w.isWrite = true ∧ w.codData = val ∧ w.inc = p

theorem isWriteOf_word (p : Bool) (val : BitVec 32) :
  IsWriteOf p val (3#3 ++ val.extractLsb' 30 2 ++ BitVec.ofBool p ++ val.extractLsb' 0 30)
  := by
  refine ⟨?_, codData_word _ _ _, ?_⟩
  · rw [Codeword.isWrite, extract_kind_word]
    decide
  · simp only [Codeword.inc, BitVec.getLsbD_append]
    simp

/-- The tables of the host and of the device agree on the words that the host may refer
to. -/
structure Synced (t : Table) (h : Ttybus) : Prop where
  wrAddr : t.wrAddr = h.mWraddr
  tbl : ∀ x, x ≠ h.mWraddr → h.mWrloaded = true ∨ x < h.mWraddr → t.tbl x = h.mWritetbl x

/-- A codeword that is no full write leaves the tables in agreement. -/
theorem Synced.next {t : Table} {h : Ttybus} (hsync : Synced t h) {w : Codeword}
    (hw : w.isFullWrite = false) :
  Synced (t.next w) h
  := by
  constructor
  · rw [← hsync.wrAddr]
    simp [Table.next, hw]
  · intro x hne hvalid
    rw [← hsync.tbl x hne hvalid, Table.next_tbl]
    apply Function.update_of_ne
    rwa [hsync.wrAddr]

namespace Ttybus

/-- The word that `caddr` refers to. -/
theorem caddr_spec {h : Ttybus} {val : BitVec 32} (hne : h.caddr val ≠ 0#8) :
  h.mWritetbl (h.mWraddr - h.caddr val) = val
    ∧ (h.mWrloaded = true ∨ h.mWraddr - h.caddr val < h.mWraddr)
  := by
  rw [caddr] at hne ⊢
  dsimp only at hne ⊢
  split at hne
  case h_1 i hfind =>
    have hval := List.find?_some hfind
    have hmem := List.mem_takeWhile_imp (List.mem_of_find?_eq_some hfind)
    have hback : ∀ x y : BitVec 8, x - (x - y) = y := by
      intro x y
      bv_omega
    simp only [beq_iff_eq] at hval
    simp only [Bool.or_eq_true, Bool.not_eq_true', decide_eq_false_iff_not] at hmem
    simp only [hback] at hne ⊢
    use hval
    rcases hmem with hloaded | hlt
    · left
      apply hloaded
    · right
      bv_omega
  case h_2 => cases hne rfl

theorem writePrefix_eq (hi : BitVec 2) (p : Bool) :
  writePrefix 0x10 hi p = 2#3 ++ hi ++ BitVec.ofBool p
    ∧ writePrefix 0x18 hi p = 3#3 ++ hi ++ BitVec.ofBool p
  := by
  revert hi p
  decide

/-- A word that has been written before is sent as its place in the table. -/
theorem out_compressed {t : Table} {h : Ttybus} (hsync : Synced t h) {p : Bool} {val : BitVec 32}
    {w : Codeword} (hne : h.caddr val ≠ 0#8)
    (hw : Carries w [writePrefix 0x10 ((h.caddr val).extractLsb' 6 2) p,
      (h.caddr val).extractLsb' 0 6]) :
  IsWriteOf p val (t.out w) ∧ Synced (t.next w) h
  := by
  have h0 : group w 0 = 2#3 ++ (h.caddr val).extractLsb' 6 2 ++ BitVec.ofBool p := by
    rw [← (writePrefix_eq _ p).1]
    apply hw 0 (Nat.zero_lt_succ _)
  have h1 : w.extractLsb' 24 6 = (h.caddr val).extractLsb' 0 6 := hw 1 (by simp)
  have hall : ∀ (x : BitVec 2) (p : Bool), (2#3 ++ x ++ BitVec.ofBool p) ≠ 0x2e#6
      ∧ (2#3 ++ x ++ BitVec.ofBool p).extractLsb' 3 3 = 2#3
      ∧ (2#3 ++ x ++ BitVec.ofBool p).extractLsb' 1 2 = x
      ∧ (2#3 ++ x ++ BitVec.ofBool p).extractLsb' 0 1 = BitVec.ofBool p := by decide
  obtain ⟨hend, hkind, hhigh, hinc⟩ := hall ((h.caddr val).extractLsb' 6 2) p
  have hoffset : w.tableOffset = h.caddr val := by
    have htop := extract_group w (b := 1) (m := 2) (by decide)
    rw [h0, hhigh] at htop
    rw [Codeword.tableOffset, htop, h1]
    apply extract_append_extract
  have hfull : w.isFullWrite = false := by
    rw [isFullWrite_group, h0, hkind]
    decide
  have hsync' := hsync.next hfull
  obtain ⟨hval, hvalid⟩ := caddr_spec hne
  have hcword : (t.next w).tbl (t.wrAddr - w.tableOffset) = val := by
    rw [hoffset, hsync.wrAddr, hsync'.tbl _ _ hvalid, hval]
    intro heq
    apply hne
    bv_omega
  refine ⟨?_, hsync'⟩
  have hout : t.out w
      = 3#3 ++ val.extractLsb' 30 2 ++ BitVec.ofBool p ++ val.extractLsb' 0 30 := by
    rw [Table.out, expand_eq]
    dsimp only
    rw [h0, if_neg hend, hkind, if_neg (by decide), if_pos rfl, hinc, hcword]
  rw [hout]
  apply isWriteOf_word

/-- A word written in full goes to the tables of both sides. -/
theorem out_full {t : Table} {h h' : Ttybus} (hsync : Synced t h) {p : Bool} {val : BitVec 32}
    {w : Codeword} (hh' : h'.mWritetbl = Function.update h.mWritetbl h.mWraddr val
      ∧ h'.mWraddr = h.mWraddr + 1 ∧ h'.mWrloaded = (h.mWrloaded || h.mWraddr + 1 == 0#8))
    (hw : Carries w (writePrefix 0x18 (val.extractLsb' 30 2) p :: digits val 5)) :
  IsWriteOf p val (t.out w) ∧ Synced (t.next w) h'
  := by
  have h0 : group w 0 = 3#3 ++ val.extractLsb' 30 2 ++ BitVec.ofBool p := by
    rw [← (writePrefix_eq _ p).2]
    apply hw 0 (Nat.zero_lt_succ _)
  have hlow : w.extractLsb' 0 30 = val.extractLsb' 0 30 :=
    Carries.extract_digits (j := 5) (by decide) hw
  have hall : ∀ (x : BitVec 2) (p : Bool), (3#3 ++ x ++ BitVec.ofBool p) ≠ 0x2e#6
      ∧ (3#3 ++ x ++ BitVec.ofBool p).extractLsb' 3 3 = 3#3
      ∧ (3#3 ++ x ++ BitVec.ofBool p).getLsbD 5 = false
      ∧ (3#3 ++ x ++ BitVec.ofBool p).extractLsb' 1 2 = x
      ∧ (3#3 ++ x ++ BitVec.ofBool p).extractLsb' 4 2 = 1#2
      ∧ (3#3 ++ x ++ BitVec.ofBool p).getLsbD 0 = p := by decide
  obtain ⟨hend, hkind, hread, hhigh, htop, hinc⟩ := hall (val.extractLsb' 30 2) p
  have hfull : w.isFullWrite = true := by
    rw [isFullWrite_group, h0, hkind]
    decide
  have hdata : w.codData = val := by
    have hfield := extract_group w (b := 1) (m := 2) (by decide)
    rw [h0, hhigh] at hfield
    rw [Codeword.codData, hfield, hlow]
    apply extract_append_extract
  have hout : t.out w = w := by
    rw [Table.out, expand_eq]
    dsimp only
    rw [h0, if_neg hend, hkind, if_neg (by decide), if_neg (by decide), hread]
    rfl
  constructor
  · rw [hout]
    refine ⟨?_, hdata, ?_⟩
    · have hfield := extract_group w (b := 4) (m := 2) (by decide)
      rw [h0, htop] at hfield
      rw [Codeword.isWrite, hfield]
      decide
    · have hfield := getLsbD_group w (b := 0) (by decide)
      rw [h0, hinc] at hfield
      apply hfield
  · obtain ⟨htbl, hwraddr, hloaded⟩ := hh'
    constructor
    · simp [Table.next, hfull, hsync.wrAddr, hwraddr]
    · intro x hne hvalid
      rw [htbl, Table.next_tbl, hsync.wrAddr, hdata]
      by_cases hx : x = h.mWraddr
      · rw [hx, Function.update_self, Function.update_self]
      · rw [Function.update_of_ne hx, Function.update_of_ne hx]
        apply hsync.tbl x hx
        rw [hwraddr] at hne hvalid
        rw [hloaded, Bool.or_eq_true, beq_iff_eq] at hvalid
        rcases hvalid with (hloaded | hwrap) | hlt
        · left
          apply hloaded
        · right
          bv_omega
        · right
          bv_omega

/-- A word is sent as one write codeword, and the tables stay in agreement. -/
theorem out_writeWord {t : Table} {h : Ttybus} (hsync : Synced t h) {p : Bool} {val : BitVec 32}
    {w : Codeword} (hw : Carries w (h.writeWord p val).2) :
  IsWriteOf p val (t.out w) ∧ Synced (t.next w) (h.writeWord p val).1
  := by
  by_cases hne : h.caddr val = 0#8
  · rw [writeWord, if_neg (by simp [hne])] at hw ⊢
    apply out_full hsync _ hw
    cases p <;> exact ⟨rfl, rfl, rfl⟩
  · rw [writeWord, if_pos hne] at hw ⊢
    obtain ⟨hwrite, hnext⟩ := out_compressed hsync hne hw
    use hwrite
    cases p with
    | false => apply hnext
    | true => exact ⟨hnext.wrAddr, hnext.tbl⟩

/-- A word is one codeword, which starts as a write. -/
theorem writeWord_framed (h : Ttybus) (p : Bool) (val : BitVec 32) :
  ∃ g gs, (h.writeWord p val).2 = g :: gs ∧ (g :: gs).length = (cwLength g).toNat
    ∧ startsWrite g = true
  := by
  have hall : ∀ (x : BitVec 2) (p : Bool),
      cwLength (writePrefix 0x10 x p) = 2 ∧ startsWrite (writePrefix 0x10 x p) = true
        ∧ cwLength (writePrefix 0x18 x p) = 6 ∧ startsWrite (writePrefix 0x18 x p) = true := by
    decide
  by_cases hne : h.caddr val = 0#8
  · obtain ⟨-, -, hlen, hstart⟩ := hall (val.extractLsb' 30 2) p
    rw [writeWord, if_neg (by simp [hne])]
    exact ⟨_, _, rfl, (congrArg BitVec.toNat hlen).symm, hstart⟩
  · obtain ⟨hlen, hstart, -, -⟩ := hall ((h.caddr val).extractLsb' 6 2) p
    rw [writeWord, if_pos hne]
    exact ⟨_, _, rfl, (congrArg BitVec.toNat hlen).symm, hstart⟩

end Ttybus

end ZBasic
