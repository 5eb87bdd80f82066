import ZBasic.Host.Flashdrvr
import Mathlib.Tactic.Ring

/-!
# What the flash driver writes

When every turn of the loop over the pages passes a fitting length to `page_program`, the flash
holds the data when `write` returns. As the length is computed from an uninitialized variable,
a turn may as well pass one that does not fit; then an assertion fails, or bytes are left out.
-/

namespace ZBasic

open Nor (Content word)

/-! ### Words -/

theorem byteOf_byteswap (v : BitVec 32) {i : ℕ} (hi : i < 4) :
  byteOf (byteswap v) i = v.extractLsb' (8 * (3 - i)) 8
  := by
  have hword : byteswap v = word (fun j => v.extractLsb' (8 * j) 8) 0 := rfl
  have hbyte := Nor.extract_word (fun j => v.extractLsb' (8 * j) 8) 0 (i := 3 - i) (by omega)
  rw [show 3 - (3 - i) = i by omega, Nat.zero_add] at hbyte
  rw [byteOf, hword, hbyte]

/-- The bytes of the buffer are those of the flash. -/
theorem byteOf_byteswap_word (flash : Content) (a : ℕ) {i : ℕ} (hi : i < 4) :
  byteOf (byteswap (word flash a)) i = flash (a + i)
  := by rw [byteOf_byteswap _ hi, Nor.extract_word flash a hi]

/-! ### Pages -/

theorem bus_of_flash {a : ℕ} (hlow : flashBase ≤ a) (hhigh : a < flashBase + flashLen) :
  flashBase + a % 2 ^ 24 = a
  := by
  rw [flashBase] at hlow
  rw [flashBase, flashLen] at hhigh
  rw [flashBase]
  omega

theorem pageOf_add (a : ℕ) :
  pageOf (a + pgLenB) = pageOf a + 256
  := by
  rw [pageOf, pageOf, pgLenB]
  omega

theorem InPage.end_le {addr len : ℕ} (h : InPage addr len) :
  addr + len ≤ pageOf addr + 256
  := by
  obtain ⟨hpos, -, hpage⟩ := h
  rw [hpage, pageOf, pgLenB]
  omega

namespace FlashState

section Call

variable (t : FlashState) (addr len k : ℕ) (data : ℕ → BitVec 8) (verify : Bool)

/-- A call is recorded. -/
theorem pageProgram_calls :
  (t.pageProgram addr len data k verify).2.calls = t.calls ++ [(addr, len)]
  := by
  simp only [pageProgram]
  split_ifs <;> rfl

/-- What was read stays read. -/
theorem reads_pageProgram {r : ℕ} (hr : r ∈ t.reads) :
  r ∈ (t.pageProgram addr len data k verify).2.reads
  := by
  simp only [pageProgram]
  split_ifs
  · apply List.mem_append_left _ hr
  · apply List.mem_append_left _ hr
  · apply hr

variable {addr len k}

/-- A call changes nothing but the bytes it is for. -/
theorem pageProgram_rest (hlow : flashBase ≤ addr) (hhigh : addr < flashBase + flashLen) {x : ℕ}
    (hx : x < addr ∨ addr + len ≤ x) :
  (t.pageProgram addr len data k verify).2.flash x = t.flash x
  := by
  simp only [pageProgram]
  split_ifs with hpage hempty
  · rfl
  · simp only [bus_of_flash hlow hhigh]
    apply Nor.program_of_out _ _ hx
  · rfl

/-- A call changes the flash in its page only, from its address on. -/
theorem pageProgram_frame (hlow : flashBase ≤ addr) (hhigh : addr < flashBase + flashLen) {x : ℕ}
    (hx : x < addr ∨ pageOf addr + 256 ≤ x) :
  (t.pageProgram addr len data k verify).2.flash x = t.flash x
  := by
  by_cases hpage : InPage addr len
  · have hend := hpage.end_le
    apply t.pageProgram_rest data verify hlow hhigh
    omega
  · simp only [pageProgram, if_neg hpage]

/-- A call that stays in its page reads whole words. -/
theorem mem_reads_pageProgram (hpage : InPage addr len) {r : ℕ} :
  r ∈ (t.pageProgram addr len data k verify).2.reads
    ↔ r ∈ t.reads ∨ k ≤ r ∧ r < k + 4 * ((len + 3) / 4)
  := by
  have hreads : (t.pageProgram addr len data k verify).2.reads
      = t.reads ++ (List.range (4 * ((len + 3) / 4))).map (k + ·) := by
    simp only [pageProgram, if_pos hpage]
    split_ifs <;> rfl
  rw [hreads, List.mem_append, List.mem_map]
  apply or_congr_right
  constructor
  · rintro ⟨i, hi, rfl⟩
    rw [List.mem_range] at hi
    omega
  · rintro ⟨hlow, hhigh⟩
    use r - k
    rw [List.mem_range]
    omega

/-- A call that stays in its page programs the data, where no bit needs to be set. -/
theorem pageProgram_of_inPage (hlow : flashBase ≤ addr) (hhigh : addr < flashBase + flashLen)
    (hpage : InPage addr len)
    (hclear : ∀ i < len, t.flash (addr + i) &&& data (k + i) = data (k + i)) :
  (t.pageProgram addr len data k verify).1 = some true
    ∧ ∀ i < len, (t.pageProgram addr len data k verify).2.flash (addr + i) = data (k + i)
  := by
  simp only [pageProgram, if_pos hpage]
  split_ifs with hempty
  · refine ⟨rfl, ?_⟩
    intro i hi
    have hword := hempty (i / 4) (by omega)
    have hones : data (k + i) = BitVec.allOnes 8 := by
      have hbyte := Nor.extract_word data (k + 4 * (i / 4)) (i := i % 4) (by omega)
      rw [hword, show k + 4 * (i / 4) + i % 4 = k + i by omega] at hbyte
      rw [← hbyte]
      obtain h | h | h | h : i % 4 = 0 ∨ i % 4 = 1 ∨ i % 4 = 2 ∨ i % 4 = 3 := by omega
      all_goals
        rw [h]
        rfl
    have hset := hclear i hi
    rw [hones, BitVec.and_allOnes] at hset
    rw [hset, hones]
  · have hflash : ∀ i < len, Nor.program pgLenB t.flash (flashBase + addr % 2 ^ 24) len
        (fun i => data (k + i)) (addr + i) = data (k + i) := by
      intro i hi
      rw [bus_of_flash hlow hhigh]
      have hsame : addr / pgLenB = (addr + len - 1) / pgLenB := by
        have := hpage.2.2
        rw [pageOf, pageOf, pgLenB] at this
        rw [pgLenB]
        omega
      have hdata : data (k + (addr + i - addr)) = data (k + i) := by
        rw [Nat.add_sub_cancel_left]
      rw [Nor.program_of_mem hsame (by omega) (by omega), hdata]
      rw [hdata]
      apply hclear i hi
    refine ⟨?_, hflash⟩
    have hverified : ∀ i < len / 4, word (Nor.program pgLenB t.flash (flashBase + addr % 2 ^ 24) len
        (fun i => data (k + i))) (addr + 4 * i) = word data (k + 4 * i) := by
      intro i hi
      apply Nor.word_inj.mpr
      intro j hj
      rw [Nat.add_assoc, hflash _ (by omega), Nat.add_assoc]
    rw [decide_eq_true hverified, Bool.or_true]

end Call

end FlashState

namespace FlashWrite

variable (w : FlashWrite)

/-- The arguments of a call of `write`. -/
structure Valid : Prop where
  low : flashBase ≤ w.addr
  high : w.stop ≤ flashBase + flashLen
  aligned : w.addr % 4 = 0
  nonempty : 1 ≤ w.len

/-- Every call of `page_program` so far stayed in its page, and read no byte after the data. -/
structure Safe (t : FlashState) : Prop where
  calls : ∀ c ∈ t.calls, InPage c.1 c.2
  reads : ∀ k ∈ t.reads, k < w.len

/-- The flash holds the data from `lo` to `hi`. -/
def Holds (flash : Content) (lo hi : ℕ) : Prop :=
  ∀ x, lo ≤ x → x < hi → flash x = w.data (x - w.addr)

/-- No bit needs to be set in the whole words of the range from `lo` to `hi`. -/
def Clear (flash : Content) (lo hi : ℕ) : Prop :=
  ∀ x, lo ≤ x → x < hi → x / 4 * 4 + 4 ≤ w.stop →
    flash x &&& w.data (x - w.addr) = w.data (x - w.addr)

/-- The end of the page of `p`, or of the range. -/
def pageEnd (p : ℕ) : ℕ := min (pageOf p + 256) w.stop

/-- The length that the turn at `p` passes is right: the call stays in its page, the words that
it reads are in the range, and the bytes that it leaves out hold the data already. -/
structure TurnFits (flash : Content) (p : ℕ) : Prop where
  inPage : InPage p (w.pageLen p)
  reads : p + 4 * ((w.pageLen p + 3) / 4) ≤ w.stop
  rest : w.Holds flash (p + w.pageLen p) (w.pageEnd p)

/-- The call of `page_program` of the turn at `p`. -/
def turn (t : FlashState) (p : ℕ) : Option Bool × FlashState :=
  t.pageProgram p (w.pageLen p) w.data (p - w.addr) w.verify

variable {w} {t : FlashState} {p : ℕ}

theorem TurnFits.congr {flash flash' : Content} (h : w.TurnFits flash p)
    (hsame : ∀ x, p ≤ x → x < pageOf p + 256 → flash' x = flash x) :
  w.TurnFits flash' p
  := by
  use h.inPage, h.reads
  intro x hx hx'
  have hpage := (lt_min_iff.mp hx').1
  rw [hsame x (by omega) hpage]
  apply h.rest x hx hx'

section Turn

variable (hvalid : w.Valid) (hlow : w.addr ≤ p) (hhigh : p < w.stop)
include hvalid hlow hhigh

/-- A turn changes the flash in its page only. -/
theorem turn_frame {x : ℕ} (hx : x < p ∨ pageOf p + 256 ≤ x) :
  (w.turn t p).2.flash x = t.flash x
  := by
  have := hvalid.low
  have := hvalid.high
  apply t.pageProgram_frame w.data w.verify (by omega) (by omega) hx

/-- A turn leaves alone what its call leaves out. -/
theorem turn_rest {x : ℕ} (hx : p + w.pageLen p ≤ x) :
  (w.turn t p).2.flash x = t.flash x
  := by
  have := hvalid.low
  have := hvalid.high
  apply t.pageProgram_rest w.data w.verify (by omega) (by omega) (Or.inr hx)

omit hvalid hlow hhigh in
/-- What went wrong before a turn stays wrong. -/
theorem safe_of_turn (hsafe : w.Safe (w.turn t p).2) :
  w.Safe t ∧ InPage p (w.pageLen p)
  := by
  have hcalls := t.pageProgram_calls p (w.pageLen p) (p - w.addr) w.data w.verify
  refine ⟨⟨?_, ?_⟩, ?_⟩
  · intro c hc
    apply hsafe.calls
    rw [turn, hcalls]
    apply List.mem_append_left _ hc
  · intro k hk
    apply hsafe.reads
    apply t.reads_pageProgram _ _ _ w.data w.verify hk
  · apply hsafe.calls (p, w.pageLen p)
    rw [turn, hcalls]
    simp

omit hvalid hhigh in
/-- A turn is safe when its call stays in its page and reads words of the range. -/
theorem safe_turn_iff :
  w.Safe (w.turn t p).2
    ↔ w.Safe t ∧ InPage p (w.pageLen p) ∧ p + 4 * ((w.pageLen p + 3) / 4) ≤ w.stop
  := by
  have hstop : w.stop = w.addr + w.len := rfl
  constructor
  · intro hsafe
    obtain ⟨hbefore, hpage⟩ := safe_of_turn hsafe
    use hbefore, hpage
    have hpos := hpage.1
    have hlast := hsafe.reads (p - w.addr + (4 * ((w.pageLen p + 3) / 4) - 1)) (by
      apply (t.mem_reads_pageProgram w.data w.verify hpage).mpr
      omega)
    omega
  · rintro ⟨hbefore, hpage, hreads⟩
    constructor
    · intro c hc
      rw [turn, t.pageProgram_calls, List.mem_append, List.mem_singleton] at hc
      rcases hc with hc | rfl
      · apply hbefore.calls c hc
      · apply hpage
    · intro k hk
      rcases (t.mem_reads_pageProgram w.data w.verify hpage).mp hk with hk | hk
      · apply hbefore.reads k hk
      · omega

variable (haligned : p % 4 = 0) (hclear : w.Clear t.flash p (pageOf p + 256))
include haligned hclear

/-- A safe turn programs the data. -/
theorem turn_of_safe (hsafe : w.Safe (w.turn t p).2) :
  (w.turn t p).1 = some true ∧ w.Holds (w.turn t p).2.flash p (p + w.pageLen p)
  := by
  have hlow' := hvalid.low
  have hhigh' := hvalid.high
  obtain ⟨-, hpage, hreads⟩ := (safe_turn_iff hlow).mp hsafe
  have hend := hpage.end_le
  have hclear' : ∀ i < w.pageLen p,
      t.flash (p + i) &&& w.data (p - w.addr + i) = w.data (p - w.addr + i) := by
    intro i hi
    rw [show p - w.addr + i = p + i - w.addr by omega]
    apply hclear _ (by omega) (by omega)
    omega
  obtain ⟨hends, hflash⟩ :=
    t.pageProgram_of_inPage w.data w.verify (by omega) (by omega) hpage hclear'
  use hends
  intro x hx hx'
  have hbyte := hflash (x - p) (by omega)
  rw [show p + (x - p) = x by omega, show p - w.addr + (x - p) = x - w.addr by omega] at hbyte
  apply hbyte

/-- The page holds the data after a turn if and only if its length is right. -/
theorem turn_iff :
  w.Safe (w.turn t p).2 ∧ w.Holds (w.turn t p).2.flash p (w.pageEnd p)
    ↔ w.Safe t ∧ w.TurnFits t.flash p
  := by
  constructor
  · rintro ⟨hsafe, hholds⟩
    obtain ⟨hbefore, hpage, hreads⟩ := (safe_turn_iff hlow).mp hsafe
    refine ⟨hbefore, hpage, hreads, ?_⟩
    intro x hx hx'
    rw [← turn_rest hvalid hlow hhigh hx]
    apply hholds x (by omega) hx'
  · rintro ⟨hbefore, hfits⟩
    have hsafe := (safe_turn_iff hlow).mpr ⟨hbefore, hfits.inPage, hfits.reads⟩
    use hsafe
    intro x hx hx'
    rcases Nat.lt_or_ge x (p + w.pageLen p) with hin | hout
    · apply (turn_of_safe hvalid hlow hhigh haligned hclear hsafe).2 x hx hin
    · rw [turn_rest hvalid hlow hhigh hout]
      apply hfits.rest x hout hx'

end Turn

/-! ### The loop over the pages -/

/-- The turns of the loop over the pages that starts at `p`. -/
def Turn (p q : ℕ) : Prop := q = p ∨ p < q ∧ q % 256 = 0

section Pages

variable {s n : ℕ}

theorem limit_le_stop (s : ℕ) :
  w.limit s ≤ w.stop
  := by
  rw [limit]
  split_ifs <;> omega

theorem limit_le_sector (s : ℕ) :
  w.limit s ≤ s + sectorSzB
  := by
  rw [limit]
  split_ifs <;> omega

theorem writePages_of_ge (hp : w.limit s ≤ p) :
  w.writePages s n p t = (some true, t)
  := by
  cases n with
  | zero => rfl
  | succ n =>
      rw [writePages, if_neg]
      rw [limit] at hp
      split_ifs at hp <;> omega

theorem writePages_of_true (hp : p < w.limit s) (hturn : (w.turn t p).1 = some true) :
  w.writePages s (n + 1) p t = w.writePages s n (pageOf p + 256) (w.turn t p).2
  := by
  have hin : p < s + sectorSzB ∧ p < w.stop :=
    ⟨lt_of_lt_of_le hp (limit_le_sector s), lt_of_lt_of_le hp (limit_le_stop s)⟩
  rw [writePages, if_pos hin, ← pageOf_add]
  rw [turn] at hturn ⊢
  generalize t.pageProgram p (w.pageLen p) w.data (p - w.addr) w.verify = out at hturn
  obtain ⟨ok, t'⟩ := out
  simp only at hturn
  subst hturn
  rfl

theorem writePages_of_ne (hp : p < w.limit s) (hturn : (w.turn t p).1 ≠ some true) :
  w.writePages s (n + 1) p t = w.turn t p
  := by
  have hin : p < s + sectorSzB ∧ p < w.stop :=
    ⟨lt_of_lt_of_le hp (limit_le_sector s), lt_of_lt_of_le hp (limit_le_stop s)⟩
  rw [writePages, if_pos hin]
  rw [turn] at hturn ⊢
  generalize t.pageProgram p (w.pageLen p) w.data (p - w.addr) w.verify = out at hturn
  obtain ⟨ok, t'⟩ := out
  obtain _ | _ | _ := ok
  · rfl
  · rfl
  · cases hturn rfl

/-- What went wrong before the loop stays wrong. -/
theorem safe_of_writePages (hsafe : w.Safe (w.writePages s n p t).2) :
  w.Safe t
  := by
  induction n generalizing p t with
  | zero => apply hsafe
  | succ n ih =>
      rcases Nat.lt_or_ge p (w.limit s) with hp | hp
      · by_cases hturn : (w.turn t p).1 = some true
        · rw [writePages_of_true hp hturn] at hsafe
          apply (safe_of_turn (ih hsafe)).1
        · rw [writePages_of_ne hp hturn] at hsafe
          apply (safe_of_turn hsafe).1
      · rw [writePages_of_ge hp] at hsafe
        apply hsafe

variable (hs : s % sectorSzB = 0)
include hs

theorem page_le_sector (hp : p < w.limit s) :
  pageOf p + 256 ≤ s + sectorSzB
  := by
  have hlimit : w.limit s ≤ s + sectorSzB := limit_le_sector s
  have hsize : sectorSzB = 65536 := rfl
  rw [hsize] at hs hlimit ⊢
  rw [pageOf, pgLenB]
  omega

variable (hvalid : w.Valid)
include hvalid

/-- The loop changes the flash in its sector only. -/
theorem writePages_frame (hlow : w.addr ≤ p) {x : ℕ} (hx : x < p ∨ s + sectorSzB ≤ x) :
  (w.writePages s n p t).2.flash x = t.flash x
  := by
  induction n generalizing p t with
  | zero => rfl
  | succ n ih =>
      rcases Nat.lt_or_ge p (w.limit s) with hp | hp
      · have hpage := page_le_sector hs hp
        have hnext : p < pageOf p + 256 := by
          rw [pageOf, pgLenB]
          omega
        have hturn : (w.turn t p).2.flash x = t.flash x := by
          apply turn_frame hvalid hlow (lt_of_lt_of_le hp (limit_le_stop s))
          omega
        by_cases hgoes : (w.turn t p).1 = some true
        · rw [writePages_of_true hp hgoes, ih (by omega) (by omega), hturn]
        · rw [writePages_of_ne hp hgoes, hturn]
      · rw [writePages_of_ge hp]

omit hs in
/-- Past a turn the flash is as before. -/
theorem turn_later (hlow : w.addr ≤ p) (hp : p < w.limit s) {x : ℕ} (hx : pageOf p + 256 ≤ x) :
  (w.turn t p).2.flash x = t.flash x
  := turn_frame hvalid hlow (lt_of_lt_of_le hp (limit_le_stop s)) (Or.inr hx)

omit hs in
/-- What has to be clear for the next turn. -/
theorem clear_next (hlow : w.addr ≤ p) (hp : p < w.limit s)
    (hclear : w.Clear t.flash p (s + sectorSzB)) :
  w.Clear (w.turn t p).2.flash (pageOf p + 256) (s + sectorSzB)
  := by
  intro x hx hx'
  have hnext : p < pageOf p + 256 := by
    rw [pageOf, pgLenB]
    omega
  rw [turn_later hvalid hlow hp hx]
  apply hclear x (by omega) hx'

/-- When every call is safe, no page fails. -/
theorem writePages_ends (hlow : w.addr ≤ p) (haligned : p % 4 = 0)
    (hclear : w.Clear t.flash p (s + sectorSzB)) (hsafe : w.Safe (w.writePages s n p t).2) :
  (w.writePages s n p t).1 = some true
  := by
  induction n generalizing p t with
  | zero => rfl
  | succ n ih =>
      rcases Nat.lt_or_ge p (w.limit s) with hp | hp
      · have hpage := page_le_sector hs hp
        have hsafe' : w.Safe (w.turn t p).2 := by
          by_cases hgoes : (w.turn t p).1 = some true
          · rw [writePages_of_true hp hgoes] at hsafe
            apply safe_of_writePages hsafe
          · rw [writePages_of_ne hp hgoes] at hsafe
            apply hsafe
        have hgoes : (w.turn t p).1 = some true := by
          apply (turn_of_safe hvalid hlow (lt_of_lt_of_le hp (limit_le_stop s)) haligned _ hsafe').1
          intro x hx hx'
          apply hclear x hx (by omega)
        rw [writePages_of_true hp hgoes] at hsafe ⊢
        apply ih _ _ (clear_next hvalid hlow hp hclear) hsafe
        · rw [pageOf, pgLenB]
          omega
        · rw [pageOf, pgLenB]
          omega
      · rw [writePages_of_ge hp]

omit hs hvalid in
/-- Nothing is left to write at the end of the range in the sector. -/
theorem writePages_iff_of_ge (hp : w.limit s ≤ p) :
  w.Safe (w.writePages s n p t).2 ∧ w.Holds (w.writePages s n p t).2.flash p (w.limit s)
    ↔ w.Safe t ∧ ∀ q, Turn p q → q < w.limit s → w.TurnFits t.flash q
  := by
  rw [writePages_of_ge hp]
  apply and_congr_right
  intro _
  constructor
  · rintro - q (rfl | ⟨hq, -⟩) hlimit <;> omega
  · intro _ x hx hx'
    omega

omit hs hvalid in
/-- What holds after the loop, when it leaves alone what is before `m`. -/
theorem holds_split {flash flash' : Content} {lo m hi : ℕ}
    (hkeeps : ∀ x < m, flash x = flash' x) (hm : lo ≤ m) :
  w.Holds flash lo hi ↔ w.Holds flash' lo (min m hi) ∧ w.Holds flash m hi
  := by
  constructor
  · intro hholds
    constructor
    · intro x hx hx'
      rw [lt_min_iff] at hx'
      rw [← hkeeps x hx'.1]
      apply hholds x hx hx'.2
    · intro x hx
      apply hholds x (by omega)
  · rintro ⟨hfirst, hlater⟩ x hx hx'
    rcases Nat.lt_or_ge x m with hin | hout
    · rw [hkeeps x hin]
      apply hfirst x hx (lt_min hin hx')
    · apply hlater x hout hx'

omit hs hvalid in
theorem min_limit (hpage : pageOf p + 256 ≤ s + sectorSzB) :
  min (pageOf p + 256) (w.limit s) = w.pageEnd p
  := by
  rw [pageEnd, limit]
  split_ifs <;> omega

omit hs hvalid in
/-- The first turn, and those after it. -/
theorem turns_split {F : ℕ → Prop} {l : ℕ} (hp : p < l) :
  (∀ q, Turn p q → q < l → F q) ↔ F p ∧ ∀ q, Turn (pageOf p + 256) q → q < l → F q
  := by
  have hpage : pageOf p = p / 256 * 256 := rfl
  constructor
  · intro hturns
    use hturns p (Or.inl rfl) hp
    intro q hq
    apply hturns q
    unfold Turn at *
    omega
  · rintro ⟨hfirst, hlater⟩ q (rfl | hq) hl
    · apply hfirst
    · apply hlater q _ hl
      unfold Turn
      omega

omit hs in
/-- A turn makes no difference to whether those after it are right. -/
theorem turnFits_turn (hlow : w.addr ≤ p) (hp : p < w.limit s) {q : ℕ}
    (hq : Turn (pageOf p + 256) q) :
  w.TurnFits (w.turn t p).2.flash q ↔ w.TurnFits t.flash q
  := by
  have hlater : pageOf p + 256 ≤ q := by
    rcases hq with rfl | ⟨hq, -⟩ <;> omega
  constructor
  · intro hfits
    apply hfits.congr
    intro x hx _
    rw [turn_later hvalid hlow hp (by omega)]
  · intro hfits
    apply hfits.congr
    intro x hx _
    apply turn_later hvalid hlow hp (by omega)

/-- The rest of the sector holds the data after the loop if and only if the length of every turn
is right. -/
theorem writePages_iff (hlow : w.addr ≤ p) (haligned : p % 4 = 0)
    (hclear : w.Clear t.flash p (s + sectorSzB)) (hn : s + sectorSzB ≤ pageOf p + 256 * n) :
  w.Safe (w.writePages s n p t).2 ∧ w.Holds (w.writePages s n p t).2.flash p (w.limit s)
    ↔ w.Safe t ∧ ∀ q, Turn p q → q < w.limit s → w.TurnFits t.flash q
  := by
  induction n generalizing p t with
  | zero =>
      apply writePages_iff_of_ge
      have : w.limit s ≤ s + sectorSzB := limit_le_sector s
      rw [pageOf, pgLenB] at hn
      omega
  | succ n ih =>
      rcases Nat.lt_or_ge p (w.limit s) with hp | hp
      · have hpage := page_le_sector hs hp
        have hstop := lt_of_lt_of_le hp (limit_le_stop s)
        have hnext : p < pageOf p + 256 ∧ (pageOf p + 256) % 256 = 0
            ∧ pageOf (pageOf p + 256) = pageOf p + 256 := by
          simp only [pageOf, pgLenB]
          omega
        have hclear' : w.Clear t.flash p (pageOf p + 256) := by
          intro x hx hx'
          apply hclear x hx (by omega)
        have hturn := turn_iff hvalid hlow hstop haligned hclear'
        by_cases hsafe : w.Safe (w.turn t p).2
        · have hgoes := (turn_of_safe hvalid hlow hstop haligned hclear' hsafe).1
          have hrest := ih (t := (w.turn t p).2) (p := pageOf p + 256) (by omega) (by omega)
            (clear_next hvalid hlow hp hclear) (by omega)
          have hkeeps : ∀ x < pageOf p + 256,
              (w.writePages s n (pageOf p + 256) (w.turn t p).2).2.flash x
                = (w.turn t p).2.flash x :=
            fun x hx => writePages_frame hs hvalid (by omega) (Or.inl hx)
          have hsame : ∀ q, Turn (pageOf p + 256) q →
              (w.TurnFits (w.turn t p).2.flash q ↔ w.TurnFits t.flash q) :=
            fun q hq => turnFits_turn hvalid hlow hp hq
          rw [writePages_of_true hp hgoes, holds_split hkeeps (by omega), min_limit hpage,
            turns_split hp]
          constructor
          · rintro ⟨hsafe', hfirst, hholds⟩
            obtain ⟨hsafe₀, hfits⟩ := hturn.mp ⟨hsafe, hfirst⟩
            use hsafe₀, hfits
            intro q hq hlimit
            apply (hsame q hq).mp ((hrest.mp ⟨hsafe', hholds⟩).2 q hq hlimit)
          · rintro ⟨hsafe₀, hfits, hpages⟩
            obtain ⟨-, hfirst⟩ := hturn.mpr ⟨hsafe₀, hfits⟩
            obtain ⟨hsafe', hholds⟩ := hrest.mpr
              ⟨hsafe, fun q hq hlimit => (hsame q hq).mpr (hpages q hq hlimit)⟩
            use hsafe', hfirst
        · constructor
          · rintro ⟨hsafe', -⟩
            by_cases hgoes : (w.turn t p).1 = some true
            · rw [writePages_of_true hp hgoes] at hsafe'
              cases hsafe (safe_of_writePages hsafe')
            · rw [writePages_of_ne hp hgoes] at hsafe'
              cases hsafe hsafe'
          · rintro ⟨hsafe₀, hpages⟩
            cases hsafe (hturn.mpr ⟨hsafe₀, hpages p (Or.inl rfl) hp⟩).1
      · apply writePages_iff_of_ge hp

end Pages

/-! ### Sectors -/

section Sectors

variable {flash : Content} {s : ℕ}

theorem sbuf_eq (flash : Content) (s i : ℕ) :
  w.sbuf flash s i = if i < 4 * (w.ln s / 4) then flash (w.base s + i) else w.junkBuf (w.base s + i)
  := by
  rw [sbuf]
  split_ifs
  · rw [byteOf_byteswap_word _ _ (by omega)]
    congr 1
    omega
  · rfl

/-- The loop over the buffer looks at the sector only. -/
theorem scan_congr {flash' : Content} {i n newv : ℕ}
    (hsame : ∀ j, i ≤ j → j < i + n → w.sbuf flash s j = w.sbuf flash' s j) :
  w.scan flash s i n newv = w.scan flash' s i n newv
  := by
  induction n generalizing i newv with
  | zero => rfl
  | succ n ih =>
      have hrest : ∀ newv, w.scan flash s (i + 1) n newv = w.scan flash' s (i + 1) n newv := by
        intro newv
        apply ih
        intro j hj hj'
        apply hsame j (by omega) (by omega)
      simp only [scan, hsame i (Nat.le_refl i) (by omega), hrest]

/-- A first difference that was found is kept. -/
theorem scan_of_ne {i n newv : ℕ} (hnewv : newv ≠ 0) (herase : (w.scan flash s i n newv).1 = false) :
  (w.scan flash s i n newv).2 = newv
  := by
  induction n generalizing i with
  | zero => rfl
  | succ n ih =>
      rw [scan] at herase ⊢
      split_ifs at herase ⊢ with hclear hdiffers
      · omega
      · apply ih herase

/-- When no erase is needed, no bit needs to be set. -/
theorem scan_clear {i n newv : ℕ} (herase : (w.scan flash s i n newv).1 = false) {j : ℕ}
    (hj : i ≤ j) (hj' : j < i + n) :
  w.sbuf flash s j &&& w.data (w.base s - w.addr + j) = w.data (w.base s - w.addr + j)
  := by
  induction n generalizing i newv with
  | zero => omega
  | succ n ih =>
      rw [scan] at herase
      rcases Nat.eq_or_lt_of_le hj with rfl | hlt
      · by_contra hclear
        rw [if_pos hclear] at herase
        cases herase
      · split_ifs at herase
        · apply ih herase hlt (by omega)
        · apply ih herase hlt (by omega)

/-- The first difference, when no erase is needed. -/
theorem scan_first {i n : ℕ} (hbase : 0 < w.base s) (herase : (w.scan flash s i n 0).1 = false)
    (hfound : (w.scan flash s i n 0).2 ≠ 0) :
  ∃ k, k < i + n ∧ (w.scan flash s i n 0).2 = k / 4 * 4 + w.base s
    ∧ ∀ j, i ≤ j → j < k → w.sbuf flash s j = w.data (w.base s - w.addr + j)
  := by
  induction n generalizing i with
  | zero => cases hfound rfl
  | succ n ih =>
      rw [scan] at herase hfound ⊢
      split_ifs at herase hfound ⊢ with hset hdiffers
      · use i, by omega
        rw [scan_of_ne (by omega) herase]
        use rfl
        intro j hj hj'
        omega
      · obtain ⟨k, hk, hfirst, hsame⟩ := ih herase hfound
        use k, by omega, hfirst
        intro j hj hj'
        rcases Nat.eq_or_lt_of_le hj with rfl | hlt
        · by_contra hne
          apply hdiffers ⟨hne, rfl⟩
        · apply hsame j hlt hj'

/-- The condition on the lengths of a sector. Where the buffer equals the data nothing is
written. Otherwise the turns start at the sector, which is erased, or at the first word that
differs. -/
def SectorFits (w : FlashWrite) (flash : Content) (s : ℕ) : Prop :=
  let found := w.scan flash s 0 (w.ln s) 0
  if found.2 = 0 then w.Holds flash (w.base s) (w.limit s)
  else if found.1 then
    ∀ q, Turn (w.base s) q → q < w.limit s → w.TurnFits (Nor.erase sectorSzB flash s) q
  else ∀ q, Turn found.2 q → q < w.limit s → w.TurnFits flash q

/-- A sector of the flash that the range touches. -/
structure Touched (w : FlashWrite) (s : ℕ) : Prop where
  sector : s % sectorSzB = 0
  above : w.addr < s + sectorSzB
  below : s < w.stop

theorem Touched.bounds (hvalid : w.Valid) (h : w.Touched s) :
  flashBase ≤ s ∧ s + sectorSzB ≤ flashBase + flashLen ∧ w.addr ≤ w.base s ∧ s ≤ w.base s
    ∧ w.base s < w.limit s ∧ w.base s % 4 = 0 ∧ 0 < w.base s
  := by
  obtain ⟨hs, habove, hbelow⟩ := h
  obtain ⟨hlow, hhigh, haligned, hnonempty⟩ := hvalid
  have hstop : w.stop = w.addr + w.len := rfl
  have hsize : sectorSzB = 65536 := rfl
  have hflash : flashBase = 16777216 := rfl
  have hlen : flashLen = 16777216 := rfl
  rw [hsize] at hs habove
  rw [base, limit, hsize]
  split_ifs <;> omega

theorem eraseSector_eq (hvalid : w.Valid) (h : w.Touched s) (verify : Bool) :
  t.eraseSector s verify = (true, { t with flash := Nor.erase sectorSzB t.flash s })
  := by
  obtain ⟨hlow, hhigh, -⟩ := h.bounds hvalid
  have hsize : sectorSzB = 65536 := rfl
  have hverified : ∀ i < nPages, ∀ j < szPageW,
      word (Nor.erase sectorSzB t.flash s) (s + i * pgLenB + 4 * j) = 0xffffffff := by
    intro i hi j hj
    have hones : ∀ k < 4, Nor.erase sectorSzB t.flash s (s + i * pgLenB + 4 * j + k)
        = BitVec.allOnes 8 := by
      intro k hk
      apply Nor.erase_of_mem
      have hs := h.sector
      rw [nPages] at hi
      rw [szPageW] at hj
      rw [hsize] at hs ⊢
      rw [pgLenB]
      omega
    have hword : word (fun _ => BitVec.allOnes 8) 0 = 0xffffffff := by decide
    rw [← hword]
    apply Nor.word_inj.mpr
    intro k hk
    apply hones k hk
  simp only [FlashState.eraseSector]
  rw [bus_of_flash hlow (by rw [hsize] at hhigh; omega), decide_eq_true hverified, Bool.or_true]

theorem writeSector_eq (hvalid : w.Valid) (h : w.Touched s) :
  w.writeSector s t
    = if (w.scan t.flash s 0 (w.ln s) 0).2 = 0 then (some true, t)
      else if (w.scan t.flash s 0 (w.ln s) 0).1 then
        w.writePages s nPages (w.base s) { t with flash := Nor.erase sectorSzB t.flash s }
      else w.writePages s nPages (w.scan t.flash s 0 (w.ln s) 0).2 t
  := by
  rw [writeSector]
  generalize w.scan t.flash s 0 (w.ln s) 0 = found
  obtain ⟨needErase, newv⟩ := found
  simp only [eraseSector_eq hvalid h]
  rw [← base]

/-- An erased sector is clear. -/
theorem clear_erase (h : w.Touched s) :
  w.Clear (Nor.erase sectorSzB flash s) (w.base s) (s + sectorSzB)
  := by
  intro x hx hx' _
  have hs := h.sector
  have hsize : sectorSzB = 65536 := rfl
  rw [Nor.erase_of_mem, BitVec.allOnes_and]
  rw [base] at hx
  rw [hsize] at hs hx' ⊢
  split_ifs at hx <;> omega

/-- Where no erase is needed, the sector is clear and holds the data up to the first word that
differs. -/
theorem found_first (hvalid : w.Valid) (h : w.Touched s)
    (herase : (w.scan flash s 0 (w.ln s) 0).1 = false)
    (hfound : (w.scan flash s 0 (w.ln s) 0).2 ≠ 0) :
  w.base s ≤ (w.scan flash s 0 (w.ln s) 0).2 ∧ (w.scan flash s 0 (w.ln s) 0).2 % 4 = 0
    ∧ w.Holds flash (w.base s) (w.scan flash s 0 (w.ln s) 0).2
    ∧ w.Clear flash (w.base s) (s + sectorSzB)
  := by
  obtain ⟨-, -, hlow, -, hlimit, haligned, hbase⟩ := h.bounds hvalid
  have hln : w.base s + w.ln s = w.limit s := by
    rw [ln]
    omega
  obtain ⟨k, hk, hfirst, hsame⟩ := scan_first hbase herase hfound
  refine ⟨by omega, by omega, ?_, ?_⟩
  · intro x hx hx'
    have hbyte := hsame (x - w.base s) (by omega) (by omega)
    rw [sbuf_eq, if_pos (by omega), show w.base s + (x - w.base s) = x by omega,
      show w.base s - w.addr + (x - w.base s) = x - w.addr by omega] at hbyte
    apply hbyte
  · intro x hx hx' hword
    have hs := h.sector
    have hsize : sectorSzB = 65536 := rfl
    have hin : x / 4 * 4 + 4 ≤ w.limit s := by
      rw [limit, hsize]
      rw [hsize] at hs hx'
      split_ifs <;> omega
    have hbyte := scan_clear herase (j := x - w.base s) (by omega) (by omega)
    rw [sbuf_eq, if_pos (by omega), show w.base s + (x - w.base s) = x by omega,
      show w.base s - w.addr + (x - w.base s) = x - w.addr by omega] at hbyte
    apply hbyte

section Turn

variable (hvalid : w.Valid) (h : w.Touched s)
include hvalid h

/-- What went wrong before a sector stays wrong. -/
theorem safe_of_writeSector (hsafe : w.Safe (w.writeSector s t).2) :
  w.Safe t
  := by
  rw [writeSector_eq hvalid h] at hsafe
  split_ifs at hsafe
  · apply hsafe
  · have hbefore := safe_of_writePages hsafe
    use hbefore.calls, hbefore.reads
  · apply safe_of_writePages hsafe

/-- A sector is written without a change to the others. -/
theorem writeSector_frame {x : ℕ} (hx : x < s ∨ s + sectorSzB ≤ x) :
  (w.writeSector s t).2.flash x = t.flash x
  := by
  obtain ⟨-, -, hlow, hbase, -⟩ := h.bounds hvalid
  have hs := h.sector
  have hsize : sectorSzB = 65536 := rfl
  rw [writeSector_eq hvalid h]
  split_ifs with hfound herase
  · rfl
  · rw [writePages_frame hs hvalid hlow (by omega)]
    apply Nor.erase_of_ne
    rw [hsize] at hs hx ⊢
    omega
  · rw [Bool.not_eq_true] at herase
    obtain ⟨hfirst, -⟩ := found_first hvalid h herase hfound
    apply writePages_frame hs hvalid (by omega) (by omega)

/-- When every call is safe, no sector fails. -/
theorem writeSector_ends (hsafe : w.Safe (w.writeSector s t).2) :
  (w.writeSector s t).1 = some true
  := by
  obtain ⟨-, -, hlow, -, -, haligned, -⟩ := h.bounds hvalid
  rw [writeSector_eq hvalid h] at hsafe ⊢
  split_ifs at hsafe ⊢ with hfound herase
  · rfl
  · apply writePages_ends h.sector hvalid hlow haligned (clear_erase h) hsafe
  · rw [Bool.not_eq_true] at herase
    obtain ⟨hfirst, haligned', -, hclear⟩ := found_first hvalid h herase hfound
    apply writePages_ends h.sector hvalid (by omega) haligned' _ hsafe
    intro x hx
    apply hclear x (by omega)

/-- A sector holds the data after its turn if and only if the lengths are right. -/
theorem writeSector_iff :
  w.Safe (w.writeSector s t).2 ∧ w.Holds (w.writeSector s t).2.flash (w.base s) (w.limit s)
    ↔ w.Safe t ∧ w.SectorFits t.flash s
  := by
  obtain ⟨-, -, hlow, hbase, -, haligned, -⟩ := h.bounds hvalid
  have hs := h.sector
  have hsize : sectorSzB = 65536 := rfl
  have hfuel : ∀ p, s ≤ p → s + sectorSzB ≤ pageOf p + 256 * nPages := by
    intro p hp
    rw [hsize] at hs ⊢
    rw [pageOf, pgLenB, nPages]
    omega
  rw [writeSector_eq hvalid h]
  simp only [SectorFits]
  split_ifs with hfound herase
  · rfl
  · rw [writePages_iff hs hvalid hlow haligned (clear_erase h) (hfuel _ hbase)]
    apply and_congr_left
    intro _
    constructor
    · intro hsafe
      use hsafe.calls, hsafe.reads
    · intro hsafe
      use hsafe.calls, hsafe.reads
  · rw [Bool.not_eq_true] at herase
    obtain ⟨hfirst, haligned', hholds, hclear⟩ := found_first hvalid h herase hfound
    rw [← writePages_iff hs hvalid (by omega) haligned' (fun x hx => hclear x (by omega))
      (hfuel _ (by omega))]
    apply and_congr_right
    intro _
    constructor
    · intro hrest x hx
      apply hrest x (by omega)
    · intro hrest x hx hx'
      rcases Nat.lt_or_ge x (w.scan t.flash s 0 (w.ln s) 0).2 with hin | hout
      · rw [writePages_frame hs hvalid (by omega) (Or.inl hin)]
        apply hholds x hx hin
      · apply hrest x hout hx'

/-- The condition is about the sector only. -/
theorem SectorFits.congr {flash' : Content} (hfits : w.SectorFits flash s)
    (hsame : ∀ x, s ≤ x → x < s + sectorSzB → flash' x = flash x) :
  w.SectorFits flash' s
  := by
  obtain ⟨-, -, -, hbase, -⟩ := h.bounds hvalid
  have hlimit : w.limit s ≤ s + sectorSzB := limit_le_sector s
  have hln : w.ln s = w.limit s - w.base s := rfl
  have hscan : w.scan flash' s 0 (w.ln s) 0 = w.scan flash s 0 (w.ln s) 0 := by
    apply scan_congr
    intro j _ hj
    rw [sbuf_eq, sbuf_eq]
    split_ifs
    · apply hsame _ (by omega) (by omega)
    · rfl
  rw [SectorFits, hscan]
  simp only [SectorFits] at hfits
  split_ifs at hfits ⊢ with hfound herase
  · intro x hx hx'
    rw [hsame x (by omega) (by omega)]
    apply hfits x hx hx'
  · intro q hturn hq
    have hlow : w.base s ≤ q := by
      rcases hturn with rfl | ⟨hq, -⟩ <;> omega
    have hpage := page_le_sector h.sector hq
    apply (hfits q hturn hq).congr
    intro x hx hx'
    simp only [Nor.erase, hsame x (by omega) (by omega)]
  · rw [Bool.not_eq_true] at herase
    obtain ⟨hfirst, -⟩ := found_first hvalid h herase hfound
    intro q hturn hq
    have hlow : w.base s ≤ q := by
      rcases hturn with rfl | ⟨hq, -⟩ <;> omega
    have hpage := page_le_sector h.sector hq
    apply (hfits q hturn hq).congr
    intro x hx hx'
    apply hsame x (by omega) (by omega)

end Turn

/-! ### The loop over the sectors -/

theorem writeSectors_of_true {n : ℕ} (hsector : (w.writeSector s t).1 = some true) :
  w.writeSectors (n + 1) s t = w.writeSectors n (s + sectorSzB) (w.writeSector s t).2
  := by
  rw [writeSectors]
  generalize w.writeSector s t = out at hsector
  obtain ⟨ok, t'⟩ := out
  simp only at hsector
  subst hsector
  rfl

theorem writeSectors_of_ne {n : ℕ} (hsector : (w.writeSector s t).1 ≠ some true) :
  w.writeSectors (n + 1) s t = w.writeSector s t
  := by
  rw [writeSectors]
  generalize w.writeSector s t = out at hsector
  obtain ⟨ok, t'⟩ := out
  obtain _ | _ | _ := ok
  · rfl
  · rfl
  · cases hsector rfl

section Loop

variable {n : ℕ} (hvalid : w.Valid) (hs : s % sectorSzB = 0) (habove : w.addr < s + sectorSzB)
include hvalid hs habove

omit hvalid in
/-- The sectors that are left. -/
theorem touched_of_left (hn : s + sectorSzB * (n + 1) = sectorOf (w.stop + sectorSzB - 1)) :
  w.Touched s
  := by
  use hs, habove
  have hsize : sectorSzB = 65536 := rfl
  rw [sectorOf, hsize] at hn
  rw [hsize] at hs
  omega

/-- What went wrong before the loop stays wrong. -/
theorem safe_of_writeSectors (hn : s + sectorSzB * n = sectorOf (w.stop + sectorSzB - 1))
    (hsafe : w.Safe (w.writeSectors n s t).2) :
  w.Safe t
  := by
  induction n generalizing s t with
  | zero => apply hsafe
  | succ n ih =>
      have htouched := touched_of_left hs habove hn
      apply safe_of_writeSector hvalid htouched
      by_cases hgoes : (w.writeSector s t).1 = some true
      · rw [writeSectors_of_true hgoes] at hsafe
        apply ih (by rw [Nat.add_mod_right, hs]) (by omega) (by rw [← hn]; ring) hsafe
      · rw [writeSectors_of_ne hgoes] at hsafe
        apply hsafe

/-- The loop leaves alone what is before its sectors, and what is after them. -/
theorem writeSectors_frame (hn : s + sectorSzB * n = sectorOf (w.stop + sectorSzB - 1)) {x : ℕ}
    (hx : x < s ∨ s + sectorSzB * n ≤ x) :
  (w.writeSectors n s t).2.flash x = t.flash x
  := by
  induction n generalizing s t with
  | zero => rfl
  | succ n ih =>
      have htouched := touched_of_left hs habove hn
      have hsize : 0 < sectorSzB := by decide
      have hstep : s + sectorSzB + sectorSzB * n = s + sectorSzB * (n + 1) := by ring
      have hsector : (w.writeSector s t).2.flash x = t.flash x := by
        apply writeSector_frame hvalid htouched
        have : sectorSzB ≤ sectorSzB * (n + 1) := Nat.le_mul_of_pos_right _ (Nat.succ_pos n)
        omega
      by_cases hgoes : (w.writeSector s t).1 = some true
      · rw [writeSectors_of_true hgoes, ih (by rw [Nat.add_mod_right, hs]) (by omega) (by omega)
          (by omega), hsector]
      · rw [writeSectors_of_ne hgoes, hsector]

/-- When every call is safe, no sector fails. -/
theorem writeSectors_ends (hn : s + sectorSzB * n = sectorOf (w.stop + sectorSzB - 1))
    (hsafe : w.Safe (w.writeSectors n s t).2) :
  (w.writeSectors n s t).1 = some true
  := by
  induction n generalizing s t with
  | zero => rfl
  | succ n ih =>
      have htouched := touched_of_left hs habove hn
      have hstep : s + sectorSzB + sectorSzB * n = s + sectorSzB * (n + 1) := by ring
      have hs' : (s + sectorSzB) % sectorSzB = 0 := by rw [Nat.add_mod_right, hs]
      by_cases hgoes : (w.writeSector s t).1 = some true
      · rw [writeSectors_of_true hgoes] at hsafe ⊢
        apply ih hs' (by omega) (by omega) hsafe
      · rw [writeSectors_of_ne hgoes] at hsafe
        cases hgoes (writeSector_ends hvalid htouched hsafe)

omit hvalid hs habove in
theorem min_stop (w : FlashWrite) (s : ℕ) :
  min (s + sectorSzB) w.stop = w.limit s
  := by
  rw [limit]
  split_ifs <;> omega

omit hs habove in
/-- Writing a sector makes no difference to whether those after it are right. -/
theorem sectorFits_writeSector (htouched : w.Touched s) {q : ℕ} (hq : s + sectorSzB ≤ q)
    (hq' : w.Touched q) :
  w.SectorFits (w.writeSector s t).2.flash q ↔ w.SectorFits t.flash q
  := by
  have hframe : ∀ x, s + sectorSzB ≤ x → (w.writeSector s t).2.flash x = t.flash x :=
    fun x hx => writeSector_frame hvalid htouched (Or.inr hx)
  constructor
  · intro hfits
    apply SectorFits.congr hvalid hq' hfits
    intro x hx _
    rw [hframe x (by omega)]
  · intro hfits
    apply SectorFits.congr hvalid hq' hfits
    intro x hx _
    apply hframe x (by omega)

/-- The range holds the data after the loop if and only if the lengths are right in every
sector. -/
theorem writeSectors_iff (hn : s + sectorSzB * n = sectorOf (w.stop + sectorSzB - 1)) :
  w.Safe (w.writeSectors n s t).2 ∧ w.Holds (w.writeSectors n s t).2.flash (w.base s) w.stop
    ↔ w.Safe t ∧ ∀ q, s ≤ q → w.Touched q → w.SectorFits t.flash q
  := by
  have hsize : sectorSzB = 65536 := rfl
  induction n generalizing s t with
  | zero =>
      have hover : w.stop ≤ s := by
        rw [sectorOf, hsize] at hn
        omega
      have hbase : s ≤ w.base s := by
        rw [base]
        split_ifs <;> omega
      apply and_congr_right
      intro _
      constructor
      · intro _ q hq htouched
        have := htouched.below
        omega
      · intro _ x hx hx'
        omega
  | succ n ih =>
      have htouched := touched_of_left hs habove hn
      have hstep : s + sectorSzB + sectorSzB * n = s + sectorSzB * (n + 1) := by ring
      have hs' : (s + sectorSzB) % sectorSzB = 0 := by rw [Nat.add_mod_right, hs]
      have hbase : w.base (s + sectorSzB) = s + sectorSzB := if_neg (by omega)
      have hlimit : w.limit s ≤ s + sectorSzB := limit_le_sector s
      have hbelow : w.base s < w.limit s := (htouched.bounds hvalid).2.2.2.2.1
      have hsector := writeSector_iff (t := t) hvalid htouched
      have hnext : ∀ q, s ≤ q → w.Touched q → q = s ∨ s + sectorSzB ≤ q := by
        intro q hq htouched
        have hq' := htouched.sector
        rw [hsize] at hq' hs ⊢
        omega
      by_cases hsafe : w.Safe (w.writeSector s t).2
      · have hrest := ih (t := (w.writeSector s t).2) (s := s + sectorSzB) hs' (by omega) (by omega)
        have hkeeps : ∀ x, x < s + sectorSzB →
            (w.writeSectors n (s + sectorSzB) (w.writeSector s t).2).2.flash x
              = (w.writeSector s t).2.flash x :=
          fun x hx => writeSectors_frame hvalid hs' (by omega) (by omega) (Or.inl hx)
        rw [hbase] at hrest
        rw [writeSectors_of_true (writeSector_ends hvalid htouched hsafe)]
        rw [holds_split hkeeps (by omega), min_stop]
        constructor
        · rintro ⟨hsafe', hfirst, hholds⟩
          obtain ⟨hsafe₀, hfits⟩ := hsector.mp ⟨hsafe, hfirst⟩
          use hsafe₀
          intro q hq hq'
          rcases hnext q hq hq' with rfl | hq
          · apply hfits
          · rw [← sectorFits_writeSector hvalid htouched hq hq' (t := t)]
            apply (hrest.mp ⟨hsafe', hholds⟩).2 q hq hq'
        · rintro ⟨hsafe₀, hfits⟩
          obtain ⟨-, hfirst⟩ := hsector.mpr ⟨hsafe₀, hfits s (Nat.le_refl s) htouched⟩
          have hlater : ∀ q, s + sectorSzB ≤ q → w.Touched q →
              w.SectorFits (w.writeSector s t).2.flash q := by
            intro q hq hq'
            rw [sectorFits_writeSector hvalid htouched hq hq']
            apply hfits q (by omega) hq'
          obtain ⟨hsafe', hholds⟩ := hrest.mpr ⟨hsafe, hlater⟩
          use hsafe', hfirst
      · constructor
        · rintro ⟨hsafe', -⟩
          by_cases hgoes : (w.writeSector s t).1 = some true
          · rw [writeSectors_of_true hgoes] at hsafe'
            cases hsafe (safe_of_writeSectors hvalid hs' (by omega) (by omega) hsafe')
          · rw [writeSectors_of_ne hgoes] at hsafe'
            cases hsafe hsafe'
        · rintro ⟨hsafe₀, hfits⟩
          cases hsafe (hsector.mpr ⟨hsafe₀, hfits s (Nat.le_refl s) htouched⟩).1

end Loop

end Sectors

/-! ### The whole range -/

/-- What `write` promises of a flash that held `flash`. -/
structure Succeeds (w : FlashWrite) (flash : Content) : Prop where
  /-- Every call of `page_program` stays in its page, and reads no byte after the data. -/
  safe : w.Safe (w.write flash).2
  /-- When it returns true the flash holds the data. -/
  holds : (w.write flash).1 = some true → ∀ i < w.len, (w.write flash).2.flash (w.addr + i) = w.data i
  /-- And the other sectors are as they were. -/
  others : (w.write flash).1 = some true → ∀ x,
    sectorOf x + sectorSzB ≤ w.addr ∨ w.stop ≤ sectorOf x → (w.write flash).2.flash x = flash x

/-- The length that the uninitialized variable gives is right in every turn. -/
def Fits (w : FlashWrite) (flash : Content) : Prop := ∀ s, w.Touched s → w.SectorFits flash s

/-- The promise is kept if and only if the lengths are right. -/
theorem succeeds_iff (hvalid : w.Valid) (flash : Content) :
  w.Succeeds flash ↔ w.Fits flash
  := by
  have hsize : sectorSzB = 65536 := rfl
  have hfirst : sectorOf w.addr % sectorSzB = 0 := Nat.mul_mod_left _ _
  have habove : w.addr < sectorOf w.addr + sectorSzB := by
    rw [sectorOf, hsize]
    omega
  have hstop : w.stop = w.addr + w.len := rfl
  have hturns : sectorOf w.addr
      + sectorSzB * ((sectorOf (w.stop + sectorSzB - 1) - sectorOf w.addr) / sectorSzB)
        = sectorOf (w.stop + sectorSzB - 1) := by
    have := hvalid.nonempty
    simp only [sectorOf, hsize]
    omega
  have hbase : w.base (sectorOf w.addr) = w.addr := by
    rw [base, sectorOf, hsize]
    split_ifs <;> omega
  have hwrite : w.write flash = w.writeSectors
      ((sectorOf (w.stop + sectorSzB - 1) - sectorOf w.addr) / sectorSzB) (sectorOf w.addr)
      ⟨flash, [], []⟩ := if_pos ⟨hvalid.low, hvalid.high⟩
  have hends := writeSectors_ends (t := ⟨flash, [], []⟩) hvalid hfirst habove hturns
  have hiff := writeSectors_iff (t := ⟨flash, [], []⟩) hvalid hfirst habove hturns
  rw [← hwrite] at hends
  rw [← hwrite, hbase] at hiff
  constructor
  · rintro ⟨hsafe, hholds, -⟩ s hs
    apply (hiff.mp ⟨hsafe, ?_⟩).2 s _ hs
    · intro x hx hx'
      have hbyte := hholds (hends hsafe) (x - w.addr) (by omega)
      rw [show w.addr + (x - w.addr) = x by omega] at hbyte
      apply hbyte
    · obtain ⟨hsector, hlow, -⟩ := hs
      rw [hsize] at hsector hlow
      rw [sectorOf, hsize]
      omega
  · intro hfits
    have hsafe₀ : w.Safe ⟨flash, [], []⟩ := by constructor <;> simp
    obtain ⟨hsafe, hholds⟩ := hiff.mpr ⟨hsafe₀, fun q _ hq => hfits q hq⟩
    refine ⟨hsafe, ?_, ?_⟩
    · intro _ i hi
      rw [hholds (w.addr + i) (by omega) (by omega), Nat.add_sub_cancel_left]
    · intro _ x hx
      rw [hwrite]
      apply writeSectors_frame hvalid hfirst habove hturns
      rw [hturns]
      simp only [sectorOf, hsize] at hx ⊢
      omega

/-- The last bytes of a page, the page after it, which is the last one of its sector, and the first
word of the next sector are written. The uninitialized variable holds the length. -/
def threePages : FlashWrite where
  addr := flashBase + 0xfefc
  len := 264
  data i := BitVec.ofNat 8 (i + 1)
  verify := true
  junkLen _ := 264
  junkBuf _ := 0

/-- The first sector has to be erased. -/
def halfErased (x : ℕ) : BitVec 8 := if x < flashBase + 0x10000 then 0 else 0xff

theorem succeeds_threePages :
  threePages.Succeeds halfErased
  := by
  have hvalid : threePages.Valid := by constructor <;> decide
  apply (succeeds_iff hvalid halfErased).mpr
  rintro s ⟨hs, habove, hbelow⟩
  change s % 65536 = 0 at hs
  change 0x100fefc < s + 65536 at habove
  change s < 0x1010004 at hbelow
  obtain rfl | rfl : s = 0x1000000 ∨ s = 0x1010000 := by omega
  · -- The sector is erased, and two calls write its last bytes.
    have hscan : threePages.scan halfErased 0x1000000 0 (threePages.ln 0x1000000) 0
        = (true, 0x100fefc) := by decide +kernel
    simp only [SectorFits, hscan]
    rw [if_neg (by decide), if_pos trivial]
    intro q hturn hq
    change q < 0x1010000 at hq
    obtain rfl | rfl : q = 0x100fefc ∨ q = 0x100ff00 := by
      change q = 0x100fefc ∨ 0x100fefc < q ∧ q % 256 = 0 at hturn
      omega
    · constructor
      · decide
      · decide
      · intro x hx hx'
        change 0x100ff00 ≤ x at hx
        change x < 0x100ff00 at hx'
        omega
    · constructor
      · decide
      · decide
      · intro x hx hx'
        change 0x1010000 ≤ x at hx
        change x < 0x1010000 at hx'
        omega
  · -- The next one has only to be programmed.
    have hscan : threePages.scan halfErased 0x1010000 0 (threePages.ln 0x1010000) 0
        = (false, 0x1010000) := by decide +kernel
    simp only [SectorFits, hscan]
    rw [if_neg (by decide), if_neg (by decide)]
    intro q hturn hq
    change q < 0x1010004 at hq
    obtain rfl : q = 0x1010000 := by
      change q = 0x1010000 ∨ 0x1010000 < q ∧ q % 256 = 0 at hturn
      omega
    constructor
    · decide
    · decide
    · intro x hx hx'
      change 0x1010004 ≤ x at hx
      change x < 0x1010004 at hx'
      omega

/-- Four bytes are written, and the uninitialized variable has the value `junk`. -/
def fourBytes (junk : BitVec 32) : FlashWrite where
  addr := flashBase
  len := 4
  data i := BitVec.ofNat 8 (i + 1)
  verify := false
  junkLen _ := junk
  junkBuf _ := 0

theorem fourBytes_valid (junk : BitVec 32) :
  (fourBytes junk).Valid
  := by
  constructor
  · apply Nat.le_refl
  · change flashBase + 4 ≤ flashBase + flashLen
    decide
  · change flashBase % 4 = 0
    decide
  · apply Nat.le_add_left

/-- When the variable is zero, the whole page is programmed, from bytes after the data. -/
theorem write_beyond :
  (fourBytes 0).Valid ∧ ((fourBytes 0).write fun _ => 0xff).2.calls = [(flashBase, 256)]
    ∧ ¬ (fourBytes 0).Succeeds fun _ => 0xff
  := by
  refine ⟨fourBytes_valid 0, by decide, ?_⟩
  intro hsucceeds
  have hread : 255 ∈ ((fourBytes 0).write fun _ => 0xff).2.reads := by decide
  have hbound := hsucceeds.safe.reads 255 hread
  change 255 < 4 at hbound
  omega

end FlashWrite

end ZBasic
