import ZBasic.Host.SectionTable

/-!
# The list of sections

What `elfread` returns lists the sections of the program, in order and apart from each other, unless
a header without bytes comes before one with bytes. Then the mark at the end of the list is put into
a section.
-/

namespace ZBasic

open Memory

namespace Zipelf

/-! ### What is to be returned -/

/-- No header without bytes comes before one with bytes. -/
def Ordered (hs : List Phdr) : Prop :=
  hs.Pairwise fun h h' => h.pFilesz = 0 → h'.pFilesz = 0

/-- The length of the section `j`, that of the last one being zero. -/
def lenOf (hs : List Phdr) (j : ℕ) : ℕ := (((kept hs).map fun h => h.pFilesz.toNat).getD j 0)

/-- The entries of the table, at the offsets `p`, are the sections of the headers with bytes, in
order; behind them is one of length zero. All are in the block and apart from each other. -/
structure Lists (hs : List Phdr) (file : List (BitVec 8)) (d : Block) (p : ℕ → ℕ) : Prop where
  entries : ∀ j ≤ (kept hs).length, entry d j = some (p j)
  sections : ∀ j h, (kept hs)[j]? = some h → Section file d (p j) h
  ends : d.loadNat (p (kept hs).length + mLen) 4 = some 0
  inside : ∀ j ≤ (kept hs).length, p j + mData + lenOf hs j ≤ d.size
  apart : ∀ j j', j < j' → j' ≤ (kept hs).length →
    p j + mData + lenOf hs j ≤ p j' ∨ p j' + mData + lenOf hs j' ≤ p j

/-- The files that can be read: the sections are in the file, and none is longer than what it
occupies. -/
structure Readable (hs : List Phdr) (file : List (BitVec 8)) : Prop where
  nonempty : hs ≠ []
  filesz_le : ∀ h ∈ hs, h.pFilesz ≤ h.pMemsz
  inFile : ∀ h ∈ hs, h.pOffset.toNat + h.pFilesz.toNat ≤ file.length

/-! ### The order of the headers -/

/-- The headers are ordered if the first ones are those with bytes. -/
theorem ordered_iff (hs : List Phdr) :
  Ordered hs ↔ hs.take (kept hs).length = kept hs
  := by
  induction hs with
  | nil => simp [Ordered, kept]
  | cons h hs ih =>
      have hcons : kept (h :: hs) = kept [h] ++ kept hs := kept_append [h] hs
      rw [Ordered, List.pairwise_cons, ← Ordered, hcons]
      by_cases hno : h.pFilesz = 0
      · rw [kept_of_empty hno, List.nil_append]
        constructor
        · rintro ⟨hall, -⟩
          have hnone : kept hs = [] := by
            rw [kept, List.filter_eq_nil_iff]
            intro h' hh'
            simpa using hall h' hh' hno
          rw [hnone, List.length_nil, List.take_zero]
        · intro htake
          have hnone : kept hs = [] := by
            cases hkept : kept hs with
            | nil => rfl
            | cons h' hs' =>
                rw [hkept, List.length_cons, List.take_succ_cons, List.cons.injEq] at htake
                have hin : h' ∈ kept hs := hkept ▸ List.mem_cons_self
                rw [kept, List.mem_filter, ← htake.1, hno] at hin
                simp at hin
          have hall : ∀ h' ∈ hs, h'.pFilesz = 0 := by
            intro h' hh'
            rw [kept, List.filter_eq_nil_iff] at hnone
            simpa using hnone h' hh'
          constructor
          · intro h' hh' _
            apply hall h' hh'
          · apply List.pairwise_of_forall_mem_list
            intro _ _ h' hh' _
            apply hall h' hh'
      · rw [kept_of_kept hno, List.singleton_append, List.length_cons, List.take_succ_cons,
          List.cons.injEq, ← ih]
        constructor
        · intro hordered
          exact ⟨rfl, hordered.2⟩
        · intro hordered
          exact ⟨fun h' _ hno' => absurd hno' hno, hordered.2⟩

/-- The headers are ordered if the first ones, as many as there are with bytes, all have some. -/
theorem ordered_of_kept {hs : List Phdr}
    (hfirst : ∀ j h, j < (kept hs).length → hs[j]? = some h → h.pFilesz ≠ 0) :
  Ordered hs
  := by
  have hall : kept (hs.take (kept hs).length) = hs.take (kept hs).length := by
    rw [kept, List.filter_eq_self]
    intro h hh
    obtain ⟨j, hj⟩ := List.mem_iff_getElem?.mp hh
    rw [List.getElem?_take] at hj
    split_ifs at hj with hlt
    simpa using hfirst j h hlt hj
  have hsplit : kept hs = hs.take (kept hs).length ++ kept (hs.drop (kept hs).length) := by
    conv_lhs => rw [← List.take_append_drop (kept hs).length hs, kept_append, hall]
  have hnone : kept (hs.drop (kept hs).length) = [] := by
    have hlength := congrArg List.length hsplit
    rw [List.length_append, List.length_take, Nat.min_eq_left (length_kept_le hs)] at hlength
    apply List.eq_nil_of_length_eq_zero
    omega
  rw [ordered_iff]
  conv_rhs => rw [hsplit, hnone, List.append_nil]

/-! ### What is returned -/

/-- What `elfread` returns: the table has the place of each header, the mark is at the place of
header `k`, and the sections that end before the mark are there. -/
structure Returned (hs : List Phdr) (file : List (BitVec 8)) (k : ℕ) (d : Block) : Prop where
  size : d.size = octets hs + sizeofSection + sizeofPointer
  entries : ∀ j ≤ hs.length, entry d j = some (place hs.length (hs.take j))
  ends : d.loadNat (place hs.length (hs.take k) + mLen) 4 = some 0
  sections : ∀ j h, hs[j]? = some h → h.pFilesz ≠ 0 → j < k →
    Section file d (place hs.length (hs.take j)) h

/-- At first no header has been read. -/
theorem filled_allocated {hs : List Phdr} {file : List (BitVec 8)} (junk : ℕ → BitVec 8)
    (hsize : octets hs < 2 ^ 32) (hoffset : place hs.length hs < 2 ^ 32) :
  Filled hs.length file (octets hs + sizeofSection + sizeofPointer) []
    { d := allocated hs junk
      currentOffset := (hs.length + 1) * sizeofPointer % 2 ^ 32
      currentSection := 0 }
  := by
  constructor
  case size => rw [allocated, totalOctets_eq hsize]
  case currentOffset =>
      rw [place] at hoffset ⊢
      apply Nat.mod_eq_of_lt
      omega
  case currentSection => rfl
  case entries =>
      intro j hj
      rw [List.length_nil] at hj
      omega
  case sections =>
      intro j h hat
      rw [List.getElem?_nil] at hat
      contradiction

theorem elfread_returned {hs : List Phdr} {file : List (BitVec 8)} (junk : ℕ → BitVec 8)
    (hreadable : Readable hs file) (hint : ∀ h ∈ hs, h.pFilesz.toNat < 2 ^ 31)
    (hsize : octets hs < 2 ^ 32) (hoffset : place hs.length hs < 2 ^ 32) :
  ∃ d, elfread hs file junk = some d ∧ Returned hs file (kept hs).length d
  := by
  have hle := place_le_octets hs
  obtain ⟨s, hs', hfilled⟩ := filled_putHeaders (filled_allocated junk hsize hoffset)
    hreadable.filesz_le hint hreadable.inFile (Nat.zero_add hs.length)
    (by rw [List.nil_append]; omega) hoffset
  rw [List.nil_append] at hfilled
  have htable := le_place hs.length (hs.take (kept hs).length)
  have hbelow := place_take_le hs.length (kept hs).length hs
  have hcount := length_kept_le hs
  have hwide : 2 ^ 32 ≤ 256 ^ sizeofPointer := by decide
  simp only [sizeofPointer, sizeofSection] at htable hle
  have hin : ∀ j < hs.length, sizeofPointer * j + sizeofPointer ≤ sizeofPointer * hs.length := by
    intro j hj
    simp only [sizeofPointer]
    omega
  -- the last entry of the table
  obtain ⟨d, hd⟩ : ∃ d, s.d.store (sizeofPointer * hs.length)
      (bytesOf sizeofPointer s.currentOffset) = some d := by
    apply Block.exists_store
    rw [length_bytesOf, hfilled.size]
    simp only [sizeofPointer, sizeofSection]
    omega
  have hsize₁ := Block.size_store hd
  have hentries : ∀ j ≤ hs.length, entry d j = some (place hs.length (hs.take j)) := by
    intro j hj
    rcases Nat.lt_or_eq_of_le hj with hlt | rfl
    · rw [← hfilled.entries j hlt, entry, entry, Block.loadNat_store_apart hd (Or.inl (hin j hlt))]
    · rw [List.take_length, ← hfilled.currentOffset]
      apply Block.loadNat_store_same hd
      rw [hfilled.currentOffset]
      apply lt_of_lt_of_le hoffset hwide
  -- the mark behind the last section
  have hmark := hentries (kept hs).length hcount
  obtain ⟨d₁, hd₁⟩ : ∃ d₁, d.store (place hs.length (hs.take (kept hs).length)) (bytesOf 4 0) =
      some d₁ := by
    apply Block.exists_store
    rw [length_bytesOf, hsize₁, hfilled.size]
    simp only [sizeofPointer, sizeofSection]
    omega
  have hsize₂ := Block.size_store hd₁
  have hentries₁ : ∀ j ≤ hs.length, entry d₁ j = some (place hs.length (hs.take j)) := by
    intro j hj
    rw [← hentries j hj]
    apply Block.loadNat_store_apart hd₁
    simp only [sizeofPointer]
    omega
  have hmark₁ := hentries₁ (kept hs).length hcount
  obtain ⟨d₂, hd₂⟩ : ∃ d₂, d₁.store (place hs.length (hs.take (kept hs).length) + mLen)
      (bytesOf 4 0) = some d₂ := by
    apply Block.exists_store
    rw [length_bytesOf, hsize₂, hsize₁, hfilled.size]
    simp only [sizeofPointer, sizeofSection, mLen]
    omega
  use d₂
  constructor
  · have hrun : putHeaders file 0 hs
        { d := allocated hs junk
          currentOffset := (hs.length + 1) * sizeofPointer % 2 ^ 32
          currentSection := 0 } = some s := hs'
    simp only [elfread, hrun, Option.bind_eq_bind, Option.bind_some, hd, hfilled.currentSection,
      hmark, hd₁, hmark₁, hd₂]
  · constructor
    case size => rw [Block.size_store hd₂, hsize₂, hsize₁, hfilled.size]
    case entries =>
        intro j hj
        rw [← hentries₁ j hj]
        apply Block.loadNat_store_apart hd₂
        simp only [sizeofPointer]
        omega
    case ends => apply Block.loadNat_store_same hd₂ (by decide)
    case sections =>
        intro j h hat hyes hbefore
        have hnext := place_take_succ (n := hs.length) hat
        have hend : place hs.length (hs.take (j + 1)) ≤
            place hs.length (hs.take (kept hs).length) := place_take_mono hs hbefore
        have hstart := le_place hs.length (hs.take j)
        have hshort : h.pFilesz.toNat ≤ h.pMemsz.toNat :=
          hreadable.filesz_le h (List.mem_of_getElem? hat)
        rw [room_of_kept hyes] at hnext
        apply section_of_load (hfilled.sections j h hat hyes)
        intro a k hfrom hto
        simp only [sizeofPointer, sizeofSection, mData, mLen] at *
        rw [Block.load_store_apart hd₂ (by rw [length_bytesOf]; omega),
          Block.load_store_apart hd₁ (by rw [length_bytesOf]; omega),
          Block.load_store_apart hd (by rw [length_bytesOf]; omega)]

/-! ### When the sections are listed -/

/-- Ordered headers are listed. -/
theorem lists_of_ordered {hs : List Phdr} {file : List (BitVec 8)} {d : Block}
    (hreadable : Readable hs file) (hordered : Ordered hs)
    (hreturned : Returned hs file (kept hs).length d) :
  Lists hs file d fun j => place hs.length (hs.take j)
  := by
  have htake := (ordered_iff hs).mp hordered
  have hcount := length_kept_le hs
  have hmember : ∀ j h, (kept hs)[j]? = some h →
      j < (kept hs).length ∧ hs[j]? = some h ∧ h.pFilesz ≠ 0 := by
    intro j h hat
    have hkept := List.mem_of_getElem? hat
    have hlt := (List.getElem?_eq_some_iff.mp hat).1
    rw [kept, List.mem_filter] at hkept
    rw [← htake, List.getElem?_take, if_pos hlt] at hat
    exact ⟨hlt, hat, by simpa using hkept.2⟩
  -- a section ends before the next one
  have hends : ∀ j < (kept hs).length,
      place hs.length (hs.take j) + mData + lenOf hs j ≤ place hs.length (hs.take (j + 1)) := by
    intro j hj
    obtain ⟨_, hat, hyes⟩ := hmember j (kept hs)[j] (List.getElem?_eq_getElem hj)
    have hshort : (kept hs)[j].pFilesz.toNat ≤ (kept hs)[j].pMemsz.toNat :=
      hreadable.filesz_le _ (List.mem_of_getElem? hat)
    rw [place_take_succ hat, room_of_kept hyes, lenOf, List.getD_eq_getElem _ _ (by simpa using hj),
      List.getElem_map]
    simp only [mData, sizeofSection]
    omega
  constructor
  case entries =>
      intro j hj
      apply hreturned.entries j (le_trans hj hcount)
  case sections =>
      intro j h hat
      obtain ⟨hlt, hat', hyes⟩ := hmember j h hat
      apply hreturned.sections j h hat' hyes hlt
  case ends => apply hreturned.ends
  case inside =>
      intro j hj
      have hle := place_le_octets hs
      have hbelow := place_take_le hs.length j hs
      have hbelow' := place_take_le hs.length (j + 1) hs
      rw [hreturned.size]
      simp only [sizeofSection] at hle ⊢
      rcases Nat.lt_or_eq_of_le hj with hlt | rfl
      · have hend := hends j hlt
        omega
      · rw [lenOf, List.getD_eq_default _ _ (by rw [List.length_map])]
        simp only [mData]
        omega
  case apart =>
      intro j j' hlt hle
      left
      apply le_trans (hends j (by omega))
      apply place_take_mono hs hlt

/-- Only ordered headers are listed: an entry of the table for a header without bytes has the same
place as the next one. -/
theorem ordered_of_lists {hs : List Phdr} {file : List (BitVec 8)} {d : Block} {p : ℕ → ℕ}
    (hreturned : Returned hs file (kept hs).length d) (hlists : Lists hs file d p) :
  Ordered hs
  := by
  have hcount := length_kept_le hs
  have hplace : ∀ j ≤ (kept hs).length, p j = place hs.length (hs.take j) := by
    intro j hj
    have hentry := hlists.entries j hj
    rw [hreturned.entries j (le_trans hj hcount), Option.some.injEq] at hentry
    apply hentry.symm
  apply ordered_of_kept
  intro j h hj hat hno
  have hsame : p (j + 1) = p j := by
    rw [hplace j (Nat.le_of_lt hj), hplace (j + 1) hj, place_take_succ hat, room_of_empty hno,
      Nat.add_zero]
  have hapart := hlists.apart j (j + 1) (Nat.lt_succ_self j) hj
  rw [hsame] at hapart
  simp only [mData] at hapart
  omega

/-- As long as the sizes and the offsets do not overflow, `elfread` returns a list of the sections
if and only if no header without bytes comes before one with bytes, and no section has so many
bytes that their number is negative as an `int`. -/
theorem elfread_lists_iff {hs : List Phdr} {file : List (BitVec 8)} {junk : ℕ → BitVec 8}
    (hreadable : Readable hs file) (hsize : octets hs < 2 ^ 32)
    (hoffset : place hs.length hs < 2 ^ 32) :
  (∃ d p, elfread hs file junk = some d ∧ Lists hs file d p)
    ↔ Ordered hs ∧ ∀ h ∈ hs, h.pFilesz.toNat < 2 ^ 31
  := by
  constructor
  · rintro ⟨d, p, hd, hlists⟩
    have hint : ∀ h ∈ hs, h.pFilesz.toNat < 2 ^ 31 := by
      intro h hh
      by_contra hlong
      have hnone : elfread hs file junk = none := by
        rw [elfread, putHeaders_long hh (hreadable.filesz_le h hh) (Nat.not_lt.mp hlong)]
        rfl
      rw [hnone] at hd
      contradiction
    obtain ⟨d', hd', hreturned⟩ := elfread_returned junk hreadable hint hsize hoffset
    rw [hd, Option.some.injEq] at hd'
    rw [← hd'] at hreturned
    use ordered_of_lists hreturned hlists
  · rintro ⟨hordered, hint⟩
    obtain ⟨d, hd, hreturned⟩ := elfread_returned junk hreadable hint hsize hoffset
    use d, fun j => place hs.length (hs.take j), hd
    apply lists_of_ordered hreadable hordered hreturned

/-- Two sections, the first of which occupies more than it has in the file, and a header without
bytes behind them. -/
theorem elfread_lists_iff_two :
  ∃ d p, elfread [⟨0, 0x1000, 2, 4⟩, ⟨2, 0x2000, 1, 1⟩, ⟨0, 0x3000, 0, 8⟩] [5, 6, 7]
      (fun _ => 0xff) = some d
    ∧ Lists [⟨0, 0x1000, 2, 4⟩, ⟨2, 0x2000, 1, 1⟩, ⟨0, 0x3000, 0, 8⟩] [5, 6, 7] d p
  := by
  have hreadable : Readable [⟨0, 0x1000, 2, 4⟩, ⟨2, 0x2000, 1, 1⟩, ⟨0, 0x3000, 0, 8⟩] [5, 6, 7] := by
    constructor
    · decide
    · decide
    · decide
  apply (elfread_lists_iff hreadable (by decide) (by decide)).mpr
  constructor
  · simp [Ordered]
  · decide

/-- A header without bytes before one with bytes: the mark at the end of the list is put into the
only section. -/
theorem not_lists_empty_first :
  ¬∃ d p, elfread [⟨0, 0, 0, 0⟩, ⟨0, 0x1000, 1, 1⟩] [5] (fun _ => 0) = some d ∧
    Lists [⟨0, 0, 0, 0⟩, ⟨0, 0x1000, 1, 1⟩] [5] d p
  := by
  rintro ⟨d, p, hd, hlists⟩
  have hreadable : Readable [⟨0, 0, 0, 0⟩, ⟨0, 0x1000, 1, 1⟩] [5] := by
    constructor
    · decide
    · decide
    · decide
  obtain ⟨d', hd', hreturned⟩ :=
    elfread_returned (fun _ => 0) hreadable (by decide) (by decide) (by decide)
  rw [hd, Option.some.injEq] at hd'
  rw [← hd'] at hreturned
  have hordered := ordered_of_lists hreturned hlists
  rw [ordered_iff] at hordered
  have hlength := congrArg (List.map Phdr.pFilesz) hordered
  revert hlength
  decide

end Zipelf

end ZBasic
