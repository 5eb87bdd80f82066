import Mathlib.Data.List.Induction
import Mathlib.Tactic.Use
import ZBasic.Host.Zipelf

/-!
# The table of sections

The second loop of `elfread` enters a place into the table for each header, and puts the sections of
those that have bytes at their places, one behind the other.
-/

namespace ZBasic

open Memory

namespace Zipelf

/-! ### Where the sections are -/

/-- The headers with bytes. -/
def kept (hs : List Phdr) : List Phdr := hs.filter fun h => h.pFilesz ≠ 0

/-- What the sections of some headers take of the block. -/
def room (hs : List Phdr) : ℕ := ((kept hs).map fun h => h.pMemsz.toNat + sizeofSection).sum

/-- Where the next section is put, after those of some headers, in a table of `n` headers. -/
def place (n : ℕ) (hs : List Phdr) : ℕ := (n + 1) * sizeofPointer + room hs

/-- What the sizes of the headers add up to. -/
def octets (hs : List Phdr) : ℕ :=
  (hs.map fun h => sizeofPointer + sizeofSection + h.pMemsz.toNat).sum

/-- The bytes of a section in the file. -/
def bytesIn (file : List (BitVec 8)) (h : Phdr) : List (BitVec 8) :=
  (file.drop h.pOffset.toNat).take h.pFilesz.toNat

/-- The section of a header is at offset `p`. -/
structure Section (file : List (BitVec 8)) (d : Block) (p : ℕ) (h : Phdr) : Prop where
  mStart : d.loadNat p 4 = some h.pPaddr.toNat
  mLen : d.loadNat (p + mLen) 4 = some h.pFilesz.toNat
  mData : d.load (p + mData) h.pFilesz.toNat = some (bytesIn file h)

theorem kept_append (hs hs' : List Phdr) :
  kept (hs ++ hs') = kept hs ++ kept hs'
  := List.filter_append _ _

theorem room_append (hs hs' : List Phdr) :
  room (hs ++ hs') = room hs + room hs'
  := by rw [room, room, room, kept_append, List.map_append, List.sum_append]

theorem place_append (n : ℕ) (hs hs' : List Phdr) :
  place n (hs ++ hs') = place n hs + room hs'
  := by rw [place, place, room_append, Nat.add_assoc]

theorem kept_of_empty {h : Phdr} (hno : h.pFilesz = 0) :
  kept [h] = []
  := by rw [kept, List.filter_cons_of_neg (by simpa using hno), List.filter_nil]

theorem kept_of_kept {h : Phdr} (hyes : h.pFilesz ≠ 0) :
  kept [h] = [h]
  := by rw [kept, List.filter_cons_of_pos (by simpa using hyes), List.filter_nil]

theorem room_of_empty {h : Phdr} (hno : h.pFilesz = 0) :
  room [h] = 0
  := by rw [room, kept_of_empty hno, List.map_nil, List.sum_nil]

theorem room_of_kept {h : Phdr} (hyes : h.pFilesz ≠ 0) :
  room [h] = h.pMemsz.toNat + sizeofSection
  := by rw [room, kept_of_kept hyes, List.map_singleton, List.sum_singleton]

theorem octets_append (hs hs' : List Phdr) :
  octets (hs ++ hs') = octets hs + octets hs'
  := by rw [octets, octets, octets, List.map_append, List.sum_append]

/-- The block is large enough for the sections and the mark behind them. -/
theorem place_le_octets (hs : List Phdr) :
  place hs.length hs + sizeofSection ≤ octets hs + sizeofSection + sizeofPointer
  := by
  induction hs using List.reverseRecOn with
  | nil => decide
  | append_singleton hs h ih =>
      have hroom : room [h] ≤ h.pMemsz.toNat + sizeofSection := by
        by_cases hno : h.pFilesz = 0
        · rw [room_of_empty hno]
          apply Nat.zero_le
        · rw [room_of_kept hno]
      have hone : octets [h] = sizeofPointer + sizeofSection + h.pMemsz.toNat := by simp [octets]
      rw [place, octets_append, hone, room_append, List.length_append, List.length_singleton]
      rw [place] at ih
      simp only [sizeofPointer, sizeofSection] at *
      omega

/-- As long as the sizes of the headers do not overflow, they are added up. -/
theorem totalOctets_eq {hs : List Phdr} (hsize : octets hs < 2 ^ 32) :
  totalOctets hs = octets hs
  := by
  induction hs using List.reverseRecOn with
  | nil => rfl
  | append_singleton hs h ih =>
      have hone : octets [h] = sizeofPointer + sizeofSection + h.pMemsz.toNat := by simp [octets]
      rw [octets_append, hone] at hsize ⊢
      have hbefore := ih (by omega)
      rw [totalOctets, List.foldl_append] at *
      rw [hbefore]
      simp only [List.foldl_cons, List.foldl_nil]
      omega

/-! ### What is done with a header -/

/-- A section stays as long as its bytes do. -/
theorem section_of_load {file : List (BitVec 8)} {d d' : Block} {p : ℕ} {h : Phdr}
    (hsection : Section file d p h)
    (hload : ∀ a k, p ≤ a → a + k ≤ p + mData + h.pFilesz.toNat → d'.load a k = d.load a k) :
  Section file d' p h
  := by
  simp only [mData] at hload
  constructor
  · rw [Block.loadNat, hload p 4 le_rfl (by omega)]
    apply hsection.mStart
  · rw [Block.loadNat, hload (p + mLen) 4 (Nat.le_add_right p mLen) (by simp only [mLen]; omega)]
    apply hsection.mLen
  · rw [hload (p + mData) _ (Nat.le_add_right p mData) (by simp only [mData]; omega)]
    apply hsection.mData

theorem length_bytesIn {file : List (BitVec 8)} {h : Phdr}
    (hin : h.pOffset.toNat + h.pFilesz.toNat ≤ file.length) :
  (bytesIn file h).length = h.pFilesz.toNat
  := by
  rw [bytesIn, List.length_take, List.length_drop]
  omega

theorem read_eq {file : List (BitVec 8)} {h : Phdr} (hshort : h.pFilesz.toNat < 2 ^ 31)
    (hin : h.pOffset.toNat + h.pFilesz.toNat ≤ file.length) :
  read file h.pOffset.toNat h.pFilesz.toNat = some (bytesIn file h)
  := by
  have hlen := length_bytesIn hin
  rw [bytesIn] at hlen
  apply if_pos
  rw [hlen, BitVec.ofNat_toNat, BitVec.setWidth_eq, BitVec.toInt_eq_toNat_of_lt (by omega)]

/-- A length that is negative as an `int` is never the one that was read. -/
theorem read_long {file : List (BitVec 8)} {h : Phdr} (hlong : 2 ^ 31 ≤ h.pFilesz.toNat) :
  read file h.pOffset.toNat h.pFilesz.toNat = none
  := by
  have hneg : (BitVec.ofNat 32 h.pFilesz.toNat).toInt < 0 := by
    rw [BitVec.ofNat_toNat, BitVec.setWidth_eq, BitVec.toInt_neg_iff]
    omega
  apply if_neg
  omega

/-- What the second loop does with header `i`: it enters the place of the section into the table,
and puts the section there if it has bytes. All else stays as it is. -/
structure Put (file : List (BitVec 8)) (i : ℕ) (h : Phdr) (s s' : State) : Prop where
  size : s'.d.size = s.d.size
  currentOffset : s'.currentOffset = s.currentOffset + room [h]
  currentSection : s'.currentSection = s.currentSection + (kept [h]).length
  entered : entry s'.d i = some s.currentOffset
  put : h.pFilesz ≠ 0 → Section file s'.d s.currentOffset h
  others : ∀ a k, a + k ≤ sizeofPointer * i ∨ sizeofPointer * (i + 1) ≤ a →
    a + k ≤ s.currentOffset ∨ s.currentOffset + room [h] ≤ a → s'.d.load a k = s.d.load a k

/-- A header without bytes is only entered into the table. -/
theorem putHeader_empty {file : List (BitVec 8)} {i : ℕ} {h : Phdr} {s : State}
    (hno : h.pFilesz = 0) (htable : sizeofPointer * (i + 1) ≤ s.currentOffset)
    (hfits : s.currentOffset ≤ s.d.size) (hoffset : s.currentOffset < 2 ^ 32) :
  ∃ s', putHeader file i h s = some s' ∧ Put file i h s s'
  := by
  simp only [sizeofPointer] at htable
  obtain ⟨d, hd⟩ : ∃ d, s.d.store (sizeofPointer * i) (bytesOf sizeofPointer s.currentOffset) =
      some d := by
    apply Block.exists_store
    rw [length_bytesOf]
    simp only [sizeofPointer]
    omega
  use { s with d := d }
  constructor
  · rw [putHeader, hd, Option.bind_eq_bind, Option.bind_some, if_pos hno]
    rfl
  · constructor
    case size => apply Block.size_store hd
    case currentOffset => rw [room_of_empty hno, Nat.add_zero]
    case currentSection => rw [kept_of_empty hno, List.length_nil, Nat.add_zero]
    case entered =>
        apply Block.loadNat_store_same hd
        exact lt_trans hoffset (by decide)
    case put =>
        intro hyes
        contradiction
    case others =>
        intro a k hapart _
        apply Block.load_store_apart hd
        rw [length_bytesOf]
        simp only [sizeofPointer] at *
        omega

/-- The address, the length and the bytes of a section are stored one after the other. -/
theorem exists_section {file : List (BitVec 8)} {h : Phdr} {d : Block} {p : ℕ}
    (hin : h.pOffset.toNat + h.pFilesz.toNat ≤ file.length)
    (hfits : p + mData + h.pFilesz.toNat ≤ d.size) :
  ∃ d₁ d₂ d₃, d.store p (bytesOf 4 h.pPaddr.toNat) = some d₁
    ∧ d₁.store (p + mLen) (bytesOf 4 h.pFilesz.toNat) = some d₂
    ∧ d₂.store (p + mData) (bytesIn file h) = some d₃ ∧ d₃.size = d.size
    ∧ Section file d₃ p h
    ∧ ∀ a k, a + k ≤ p ∨ p + mData + h.pFilesz.toNat ≤ a →
      d₁.load a k = d.load a k ∧ d₂.load a k = d.load a k ∧ d₃.load a k = d.load a k
  := by
  have hlen := length_bytesIn hin
  simp only [mData] at hfits
  obtain ⟨d₁, hd₁⟩ : ∃ d₁, d.store p (bytesOf 4 h.pPaddr.toNat) = some d₁ := by
    apply Block.exists_store
    rw [length_bytesOf]
    omega
  have hsize₁ := Block.size_store hd₁
  obtain ⟨d₂, hd₂⟩ : ∃ d₂, d₁.store (p + mLen) (bytesOf 4 h.pFilesz.toNat) = some d₂ := by
    apply Block.exists_store
    rw [length_bytesOf, mLen]
    omega
  have hsize₂ := Block.size_store hd₂
  obtain ⟨d₃, hd₃⟩ : ∃ d₃, d₂.store (p + mData) (bytesIn file h) = some d₃ := by
    apply Block.exists_store
    rw [hlen, mData]
    omega
  use d₁, d₂, d₃, hd₁, hd₂, hd₃
  refine ⟨?_, ?_, ?_⟩
  · rw [Block.size_store hd₃, hsize₂, hsize₁]
  · constructor
    case mStart =>
        rw [Block.loadNat_store_apart hd₃ (by simp only [mData]; omega),
          Block.loadNat_store_apart hd₂ (by simp only [mLen]; omega)]
        apply Block.loadNat_store_same hd₁ h.pPaddr.isLt
    case mLen =>
        rw [Block.loadNat_store_apart hd₃ (by simp only [mData, mLen]; omega)]
        apply Block.loadNat_store_same hd₂ h.pFilesz.isLt
    case mData =>
        have hload := Block.load_store_same hd₃
        rw [hlen] at hload
        apply hload
  · intro a k hapart
    simp only [mData] at hapart
    have hload₁ : d₁.load a k = d.load a k :=
      Block.load_store_apart hd₁ (by rw [length_bytesOf]; omega)
    have hload₂ : d₂.load a k = d₁.load a k :=
      Block.load_store_apart hd₂ (by rw [length_bytesOf, mLen]; omega)
    have hload₃ : d₃.load a k = d₂.load a k :=
      Block.load_store_apart hd₃ (by rw [hlen, mData]; omega)
    use hload₁, hload₂.trans hload₁, hload₃.trans (hload₂.trans hload₁)

/-- A header with bytes is entered into the table, and its section is put behind the others. -/
theorem putHeader_kept {file : List (BitVec 8)} {i : ℕ} {h : Phdr} {s : State}
    (hyes : h.pFilesz ≠ 0) (hle : h.pFilesz ≤ h.pMemsz) (hint : h.pFilesz.toNat < 2 ^ 31)
    (hin : h.pOffset.toNat + h.pFilesz.toNat ≤ file.length)
    (htable : sizeofPointer * (i + 1) ≤ s.currentOffset)
    (hfits : s.currentOffset + room [h] ≤ s.d.size)
    (hoffset : s.currentOffset + room [h] < 2 ^ 32)
    (hsection : s.currentSection + 1 < 2 ^ 32) :
  ∃ s', putHeader file i h s = some s' ∧ Put file i h s s'
  := by
  have hroom := room_of_kept hyes
  have hshort : h.pFilesz.toNat ≤ h.pMemsz.toNat := hle
  have hgt : ¬h.pFilesz > h.pMemsz := Nat.not_lt.mpr hshort
  simp only [sizeofPointer, sizeofSection] at htable hroom
  obtain ⟨d, hd⟩ : ∃ d, s.d.store (sizeofPointer * i) (bytesOf sizeofPointer s.currentOffset) =
      some d := by
    apply Block.exists_store
    rw [length_bytesOf]
    simp only [sizeofPointer]
    omega
  have hsize := Block.size_store hd
  have hentry : entry d i = some s.currentOffset := by
    apply Block.loadNat_store_same hd
    apply lt_trans (b := 2 ^ 32) (by omega) (by decide)
  obtain ⟨d₁, d₂, d₃, hd₁, hd₂, hd₃, hsize₃, hput, hothers⟩ :=
    exists_section (d := d) (p := s.currentOffset) hin (by rw [mData]; omega)
  -- the entry of the table stays as the section is stored
  obtain ⟨hentry₁, hentry₂, hentry₃⟩ := hothers (sizeofPointer * i) sizeofPointer
    (by simp only [sizeofPointer]; omega)
  have hentry₁' : entry d₁ i = some s.currentOffset := by
    rw [← hentry, entry, entry, Block.loadNat, Block.loadNat, hentry₁]
  have hentry₂' : entry d₂ i = some s.currentOffset := by
    rw [← hentry, entry, entry, Block.loadNat, Block.loadNat, hentry₂]
  use {
    d := d₃
    currentOffset := (s.currentOffset + (h.pMemsz.toNat + sizeofSection)) % 2 ^ 32
    currentSection := (s.currentSection + 1) % 2 ^ 32 }
  constructor
  · rw [putHeader, hd, Option.bind_eq_bind, Option.bind_some, if_neg hyes]
    simp only [hentry, Option.bind_eq_bind, Option.bind_some, hd₁, hentry₁', hd₂, hentry₂',
      if_neg hgt, read_eq hint hin, hd₃]
    rfl
  · constructor
    case size => rw [hsize₃, hsize]
    case currentOffset =>
        rw [room_of_kept hyes] at *
        apply Nat.mod_eq_of_lt hoffset
    case currentSection =>
        rw [kept_of_kept hyes]
        apply Nat.mod_eq_of_lt hsection
    case entered => rw [← hentry, entry, entry, Block.loadNat, Block.loadNat, hentry₃]
    case put =>
        intro _
        apply hput
    case others =>
        intro a k hapart hapart'
        rw [hroom] at hapart'
        simp only [sizeofPointer] at hapart hd
        rw [(hothers a k (by rw [mData]; omega)).2.2,
          Block.load_store_apart hd (by rw [length_bytesOf]; omega)]

/-- A header whose length is negative as an `int` is not read. -/
theorem putHeader_long {file : List (BitVec 8)} {i : ℕ} {h : Phdr} {s : State}
    (hle : h.pFilesz ≤ h.pMemsz) (hlong : 2 ^ 31 ≤ h.pFilesz.toNat) :
  putHeader file i h s = none
  := by
  have hyes : h.pFilesz ≠ 0 := by
    intro hzero
    rw [hzero] at hlong
    simp at hlong
  have hgt : ¬h.pFilesz > h.pMemsz := Nat.not_lt.mpr hle
  rw [putHeader, Option.bind_eq_bind]
  cases s.d.store (sizeofPointer * i) (bytesOf sizeofPointer s.currentOffset) with
  | none => rfl
  | some d =>
      rw [Option.bind_some, if_neg hyes]
      simp [hgt, read_long hlong]

/-- Nor is anything behind it. -/
theorem putHeaders_long {file : List (BitVec 8)} {i : ℕ} {hs : List Phdr} {s : State} {h : Phdr}
    (hmem : h ∈ hs) (hle : h.pFilesz ≤ h.pMemsz) (hlong : 2 ^ 31 ≤ h.pFilesz.toNat) :
  putHeaders file i hs s = none
  := by
  induction hs generalizing i s with
  | nil => cases hmem
  | cons h' hs ih =>
      rw [putHeaders, Option.bind_eq_bind]
      rcases List.mem_cons.mp hmem with rfl | hmem
      · rw [putHeader_long hle hlong, Option.bind_none]
      · cases putHeader file i h' s with
        | none => rfl
        | some s' => apply ih hmem

/-! ### What is done with all headers -/

/-- What the second loop has done after the headers `pre`, in a table of `n` headers. -/
structure Filled (n : ℕ) (file : List (BitVec 8)) (size : ℕ) (pre : List Phdr) (s : State) :
    Prop where
  size : s.d.size = size
  currentOffset : s.currentOffset = place n pre
  currentSection : s.currentSection = (kept pre).length
  entries : ∀ j < pre.length, entry s.d j = some (place n (pre.take j))
  sections : ∀ j h, pre[j]? = some h → h.pFilesz ≠ 0 → Section file s.d (place n (pre.take j)) h

theorem length_kept_le (hs : List Phdr) :
  (kept hs).length ≤ hs.length
  := List.length_filter_le _ hs

theorem le_place (n : ℕ) (hs : List Phdr) :
  sizeofPointer * (n + 1) ≤ place n hs
  := by
  rw [place, Nat.mul_comm]
  apply Nat.le_add_right

/-- The sections of the first headers come before those of more of them. -/
theorem place_take_le (n j : ℕ) (hs : List Phdr) :
  place n (hs.take j) ≤ place n hs
  := by
  conv_rhs => rw [← List.take_append_drop j hs, place_append]
  apply Nat.le_add_right

theorem place_take_mono {n j j' : ℕ} (hs : List Phdr) (hle : j ≤ j') :
  place n (hs.take j) ≤ place n (hs.take j')
  := by
  have htake := place_take_le n j (hs.take j')
  rw [List.take_take, Nat.min_eq_left hle] at htake
  apply htake

/-- A section ends where the next one is put, or before. -/
theorem place_take_succ {n j : ℕ} {hs : List Phdr} {h : Phdr} (hat : hs[j]? = some h) :
  place n (hs.take (j + 1)) = place n (hs.take j) + room [h]
  := by rw [List.take_add_one, hat, place_append, Option.toList_some]

/-- The loop goes on from header to header. -/
theorem filled_putHeader {n size : ℕ} {file : List (BitVec 8)} {pre : List Phdr} {h : Phdr}
    {s : State} (hfilled : Filled n file size pre s)
    (hle : ∀ h' ∈ pre ++ [h], h'.pFilesz ≤ h'.pMemsz) (hint : h.pFilesz.toNat < 2 ^ 31)
    (hin : h.pOffset.toNat + h.pFilesz.toNat ≤ file.length) (hn : pre.length < n)
    (hfits : place n (pre ++ [h]) ≤ size) (hsize : place n (pre ++ [h]) < 2 ^ 32) :
  ∃ s', putHeader file pre.length h s = some s' ∧ Filled n file size (pre ++ [h]) s'
  := by
  have htable := le_place n pre
  have hlen := length_kept_le pre
  have hoffset := hfilled.currentOffset
  have hcount := hfilled.currentSection
  rw [place_append] at hfits hsize
  simp only [sizeofPointer] at htable
  -- the header is put behind the others
  obtain ⟨s', hs', hput⟩ : ∃ s', putHeader file pre.length h s = some s' ∧
      Put file pre.length h s s' := by
    by_cases hno : h.pFilesz = 0
    · apply putHeader_empty hno
      · simp only [sizeofPointer]
        omega
      · rw [hfilled.size]
        omega
      · omega
    · apply putHeader_kept hno (hle h List.mem_append_cons_self) hint hin
      · simp only [sizeofPointer]
        omega
      · rw [hfilled.size]
        omega
      · omega
      · omega
  use s', hs'
  have hothers := hput.others
  simp only [sizeofPointer] at hothers
  constructor
  case size => rw [hput.size, hfilled.size]
  case currentOffset => rw [hput.currentOffset, hoffset, place_append]
  case currentSection => rw [hput.currentSection, hcount, kept_append, List.length_append]
  case entries =>
      intro j hj
      rw [List.length_append, List.length_singleton] at hj
      rcases Nat.lt_succ_iff_lt_or_eq.mp hj with hbefore | hnow
      · rw [List.take_append_of_le_length (Nat.le_of_lt hbefore), ← hfilled.entries j hbefore,
          entry, entry, Block.loadNat, Block.loadNat,
          hothers _ _ (by simp only [sizeofPointer]; omega) (by simp only [sizeofPointer]; omega)]
      · rw [hnow, hput.entered, hoffset, List.take_left]
  case sections =>
      intro j h' hat hyes
      rw [List.getElem?_append] at hat
      split_ifs at hat with hj
      · rw [List.take_append_of_le_length (Nat.le_of_lt hj)]
        have hstarts := le_place n (pre.take j)
        have hends := place_take_succ (n := n) hat
        have hbefore := place_take_le n (j + 1) pre
        have hshort : h'.pFilesz.toNat ≤ h'.pMemsz.toNat :=
          hle h' (List.mem_append_left [h] (List.mem_of_getElem? hat))
        rw [room_of_kept hyes] at hends
        apply section_of_load (hfilled.sections j h' hat hyes)
        intro a k hfrom hto
        simp only [sizeofPointer, sizeofSection, mData] at *
        apply hothers a k (by omega) (by omega)
      · have hnow : j = pre.length := by
          have hlast := (List.getElem?_eq_some_iff.mp hat).1
          rw [List.length_singleton] at hlast
          omega
        rw [hnow, Nat.sub_self, List.getElem?_cons_zero, Option.some.injEq] at hat
        rw [← hat, hnow, List.take_left, ← hoffset]
        apply hput.put
        rw [hat]
        apply hyes

/-- The loop comes to the end of the headers. -/
theorem filled_putHeaders {n size : ℕ} {file : List (BitVec 8)} {pre hs : List Phdr} {s : State}
    (hfilled : Filled n file size pre s) (hle : ∀ h ∈ pre ++ hs, h.pFilesz ≤ h.pMemsz)
    (hint : ∀ h ∈ hs, h.pFilesz.toNat < 2 ^ 31)
    (hin : ∀ h ∈ hs, h.pOffset.toNat + h.pFilesz.toNat ≤ file.length)
    (hn : pre.length + hs.length = n) (hfits : place n (pre ++ hs) ≤ size)
    (hsize : place n (pre ++ hs) < 2 ^ 32) :
  ∃ s', putHeaders file pre.length hs s = some s' ∧ Filled n file size (pre ++ hs) s'
  := by
  induction hs generalizing pre s with
  | nil =>
      use s
      rw [List.append_nil]
      constructor
      · rfl
      · apply hfilled
  | cons h hs ih =>
      have hsplit : pre ++ h :: hs = (pre ++ [h]) ++ hs := by
        rw [List.append_assoc, List.singleton_append]
      rw [hsplit] at hle hfits hsize ⊢
      have hfirst : place n (pre ++ [h]) ≤ place n ((pre ++ [h]) ++ hs) := by
        rw [place_append _ (pre ++ [h])]
        apply Nat.le_add_right
      rw [List.length_cons] at hn
      obtain ⟨s₁, hs₁, hfilled₁⟩ := filled_putHeader hfilled
        (fun h' hh' => hle h' (List.mem_append_left hs hh')) (hint h List.mem_cons_self)
        (hin h List.mem_cons_self) (by omega) (hfirst.trans hfits) (by omega)
      have hlength : (pre ++ [h]).length = pre.length + 1 := by
        rw [List.length_append, List.length_singleton]
      obtain ⟨s', hs', hfilled'⟩ := ih hfilled₁ hle
        (fun h' hh' => hint h' (List.mem_cons_of_mem h hh'))
        (fun h' hh' => hin h' (List.mem_cons_of_mem h hh')) (by omega) hfits hsize
      use s'
      constructor
      · rw [putHeaders, hs₁, Option.bind_eq_bind, Option.bind_some, ← hlength]
        apply hs'
      · apply hfilled'

end Zipelf

end ZBasic
