import ZBasic.Memory.Nor
import Mathlib.Data.List.Range

/-!
# The flash driver

`FLASHDRVR::write` goes through the sectors of a range. Where a sector differs from the data it
is erased, if some bit needs to be set, and programmed page by page. The commands to the flash
succeed, so each of them is modelled by what it does to the content of the flash, which is
indexed by bus addresses. The local variable `len` of the loop over the pages hides the
argument of the same name, and is read in its own initialization.
-/

namespace ZBasic

open Nor (Content word)

/-- `FLASHBASE`, and `R_FLASH` -/
def flashBase : ℕ := 0x01000000

/-- `FLASHLEN` -/
def flashLen : ℕ := 0x01000000

/-- `PGLENB`, and `SZPAGEB` -/
def pgLenB : ℕ := 256

/-- `SZPAGEW` -/
def szPageW : ℕ := 64

/-- `NPAGES` -/
def nPages : ℕ := 256

/-- `SECTORSZB` -/
def sectorSzB : ℕ := nPages * pgLenB

/-- `SECTOROF` -/
def sectorOf (a : ℕ) : ℕ := a / sectorSzB * sectorSzB

/-- `PAGEOF` -/
def pageOf (a : ℕ) : ℕ := a / pgLenB * pgLenB

/-- The bytes of a word in the opposite order. -/
def byteswap (v : BitVec 32) : BitVec 32 :=
  v.extractLsb' 0 8 ++ v.extractLsb' 8 8 ++ v.extractLsb' 16 8 ++ v.extractLsb' 24 8

/-- Byte `i` of a word in the memory of the host. -/
def byteOf (v : BitVec 32) (i : ℕ) : BitVec 8 := v.extractLsb' (8 * i) 8

/-- The assertions of `page_program`: the call stays in its page. -/
def InPage (addr len : ℕ) : Prop :=
  0 < len ∧ len ≤ pgLenB ∧ pageOf addr = pageOf (addr + len - 1)

instance (addr len : ℕ) : Decidable (InPage addr len) :=
  inferInstanceAs (Decidable (_ ∧ _ ∧ _))

/-- The flash, the calls of `page_program` so far, with their addresses and lengths, and the
bytes of the data that they read. -/
structure FlashState where
  flash : Content
  calls : List (ℕ × ℕ)
  reads : List ℕ

namespace FlashState

/-- `FLASHDRVR::erase_sector` -/
def eraseSector (s : FlashState) (sector : ℕ) (verifyErase : Bool) : Bool × FlashState :=
  let flashaddr := flashBase + sector % 2 ^ 24
  let flash := Nor.erase sectorSzB s.flash flashaddr
  let page i j := word flash (flashaddr + i * pgLenB + 4 * j)
  (!verifyErase || decide (∀ i < nPages, ∀ j < szPageW, page i j = 0xffffffff),
    { s with flash := flash })

/-- `FLASHDRVR::page_program` of `len` bytes, from byte `k` of the data on. There is no value
where an assertion fails. -/
def pageProgram (s : FlashState) (addr len : ℕ) (data : ℕ → BitVec 8) (k : ℕ)
    (verifyWrite : Bool) : Option Bool × FlashState :=
  let called := { s with calls := s.calls ++ [(addr, len)] }
  if InPage addr len then
    let words := (len + 3) / 4
    let bswapd i := word data (k + 4 * i)
    let read := { called with reads := called.reads ++ (List.range (4 * words)).map (k + ·) }
    if ∀ i < words, bswapd i = 0xffffffff then (some true, read)
    else
      let flashaddr := flashBase + addr % 2 ^ 24
      let flash := Nor.program pgLenB s.flash flashaddr len (fun i => data (k + i))
      let buf i := word flash (addr + 4 * i)
      (some (!verifyWrite || decide (∀ i < len / 4, buf i = bswapd i)),
        { read with flash := flash })
  else (none, called)

end FlashState

/-- The arguments of `FLASHDRVR::write`, and what its uninitialized variables hold: the `len` of
the turn of the page loop at each address, and the byte of `sbuf` for each address. -/
structure FlashWrite where
  addr : ℕ
  len : ℕ
  data : ℕ → BitVec 8
  verify : Bool
  junkLen : ℕ → BitVec 32
  junkBuf : ℕ → BitVec 8

namespace FlashWrite

variable (w : FlashWrite)

/-- The end of the range. -/
def stop : ℕ := w.addr + w.len

/-- `base`, where the range starts in a sector -/
def base (s : ℕ) : ℕ := if s < w.addr then w.addr else s

/-- Where the range ends in a sector. -/
def limit (s : ℕ) : ℕ := if s + sectorSzB < w.stop then s + sectorSzB else w.stop

/-- `ln` -/
def ln (s : ℕ) : ℕ := w.limit s - w.base s

/-- The buffer of a sector. Only whole words are read from the flash. -/
def sbuf (flash : Content) (s i : ℕ) : BitVec 8 :=
  if i < 4 * (w.ln s / 4) then byteOf (byteswap (word flash (w.base s + 4 * (i / 4)))) (i % 4)
  else w.junkBuf (w.base s + i)

/-- The loop over the bytes of the buffer from `i` on, with `n` bytes left: `need_erase` and
`newv`. -/
def scan (flash : Content) (s : ℕ) : (i n newv : ℕ) → Bool × ℕ
  | _, 0, newv => (false, newv)
  | i, n + 1, newv =>
      let dp := w.data (w.base s - w.addr + i)
      if w.sbuf flash s i &&& dp ≠ dp then (true, i / 4 * 4 + w.base s)
      else if w.sbuf flash s i ≠ dp ∧ newv = 0 then
        scan flash s (i + 1) n (i / 4 * 4 + w.base s)
      else scan flash s (i + 1) n newv

/-- The length that the turn at `p` passes to `page_program`. -/
def pageLen (p : ℕ) : ℕ :=
  let len := (BitVec.ofNat 32 w.addr + w.junkLen p - BitVec.ofNat 32 p).toNat
  if pageOf ((p + len - 1) % 2 ^ 32) ≠ pageOf p then pageOf (p + pgLenB) - p else len

/-- The loop over the pages of a sector, of at most `n` turns. -/
def writePages (s : ℕ) : (n p : ℕ) → FlashState → Option Bool × FlashState
  | 0, _, t => (some true, t)
  | n + 1, p, t =>
      if p < s + sectorSzB ∧ p < w.stop then
        match t.pageProgram p (w.pageLen p) w.data (p - w.addr) w.verify with
        | (some true, t') => writePages s n (pageOf (p + pgLenB)) t'
        | out => out
      else (some true, t)

/-- One turn of the loop over the sectors. -/
def writeSector (s : ℕ) (t : FlashState) : Option Bool × FlashState :=
  let (needErase, newv) := w.scan t.flash s 0 (w.ln s) 0
  if newv = 0 then (some true, t)
  else if needErase then
    match t.eraseSector s w.verify with
    | (true, t') => w.writePages s nPages (if s < w.addr then w.addr else s) t'
    | (false, t') => (some false, t')
  else w.writePages s nPages newv t

/-- The loop over the sectors, with `n` turns left. -/
def writeSectors : (n s : ℕ) → FlashState → Option Bool × FlashState
  | 0, _, t => (some true, t)
  | n + 1, s, t =>
      match w.writeSector s t with
      | (some true, t') => writeSectors n (s + sectorSzB) t'
      | out => out

/-- `FLASHDRVR::write`, of a flash that holds `flash`. -/
def write (flash : Content) : Option Bool × FlashState :=
  if flashBase ≤ w.addr ∧ w.stop ≤ flashBase + flashLen then
    w.writeSectors ((sectorOf (w.stop + sectorSzB - 1) - sectorOf w.addr) / sectorSzB)
      (sectorOf w.addr) ⟨flash, [], []⟩
  else (none, ⟨flash, [], []⟩)

end FlashWrite

end ZBasic
