import Mathlib.Data.BitVec
import Mathlib.Data.List.Basic
import Mathlib.Data.List.Flatten
import Mathlib.Logic.Function.Basic

/-!
# Commands of the host

`TTYBUS` turns calls of `readv` and `writev` into characters. A command is a list of
groups of six bits, each sent as one character; newlines stand between commands.
-/

namespace ZBasic

/-- `charenc` -/
def charenc (sixbitval : BitVec 6) : BitVec 8 :=
  if sixbitval < 10#6 then 0x30 + sixbitval.setWidth 8
  else if sixbitval < 36#6 then 0x41 - 10 + sixbitval.setWidth 8
  else if sixbitval < 62#6 then 0x61 - 10 - 26 + sixbitval.setWidth 8
  else if sixbitval = 0x3e#6 then 0x40
  else 0x25

/-- The newline character. -/
def hostNewline : BitVec 8 := 0x0a

/-- A command, as the groups handed to `charenc`. -/
abbrev Command := List (BitVec 6)

/-- What the host sends: a command, or a newline. -/
inductive Item where
  | command (gs : Command)
  | newline
deriving DecidableEq, Repr

/-- The characters of an item. -/
def Item.chars : Item → List (BitVec 8)
  | command gs => gs.map charenc
  | newline => [hostNewline]

/-- The members of `TTYBUS` that decide what is sent. -/
structure Ttybus where
  mAddrSet : Bool
  mLastaddr : BitVec 32
  mWraddr : BitVec 8
  mWrloaded : Bool
  mWritetbl : BitVec 8 → BitVec 32

namespace Ttybus

/-- The members that `init` sets. -/
structure Initial (h : Ttybus) : Prop where
  mAddrSet : h.mAddrSet = false
  mWraddr : h.mWraddr = 0
  mWrloaded : h.mWrloaded = false

/-- `MAXRDLEN` -/
def maxRdLen : ℕ := 1024

/-- `MAXWRLEN` -/
def maxWrLen : ℕ := 32

/-! ### Addresses -/

/-- `encode` -/
def encode (hb : BitVec 4) (val : BitVec 32) : Command :=
  [hb ++ val.extractLsb' 30 2, val.extractLsb' 24 6, val.extractLsb' 18 6, val.extractLsb' 12 6,
    val.extractLsb' 6 6, val.extractLsb' 0 6]

/-- The command that moves the address by `diffaddr`, if there is one that is short
enough. -/
def encodeDiff (diffaddr : BitVec 32) : Command :=
  if -32 ≤ diffaddr.toInt ∧ diffaddr.toInt < 32 then
    [0x09, diffaddr.extractLsb' 0 6]
  else if -2048 ≤ diffaddr.toInt ∧ diffaddr.toInt < 2048 then
    [0x0b, diffaddr.extractLsb' 6 6, diffaddr.extractLsb' 0 6]
  else if -2 ^ 17 ≤ diffaddr.toInt ∧ diffaddr.toInt < 2 ^ 17 then
    [0x0d, diffaddr.extractLsb' 12 6, diffaddr.extractLsb' 6 6, diffaddr.extractLsb' 0 6]
  else if -2 ^ 23 ≤ diffaddr.toInt ∧ diffaddr.toInt < 2 ^ 23 then
    [0x0f, diffaddr.extractLsb' 18 6, diffaddr.extractLsb' 12 6, diffaddr.extractLsb' 6 6,
      diffaddr.extractLsb' 0 6]
  else []

/-- `encode_address`, for an aligned address: nothing if the address is set already, else
the shorter of an absolute and a relative address. -/
def encodeAddress (h : Ttybus) (a : BitVec 32) : Command :=
  let addr := a >>> 2
  let ptr := if h.mAddrSet then encodeDiff ((a - h.mLastaddr) >>> 2) else []
  if h.mAddrSet ∧ a = h.mLastaddr then []
  else if addr ≤ 0x3f#32 ∧ (ptr = [] ∨ 2 ≤ ptr.length) then
    [0x08, addr.extractLsb' 0 6]
  else if addr ≤ 0xfff#32 ∧ (ptr = [] ∨ 3 ≤ ptr.length) then
    [0x0a, addr.extractLsb' 6 6, addr.extractLsb' 0 6]
  else if addr ≤ 0x3ffff#32 ∧ (ptr = [] ∨ 4 ≤ ptr.length) then
    [0x0c, addr.extractLsb' 12 6, addr.extractLsb' 6 6, addr.extractLsb' 0 6]
  else if addr ≤ 0xffffff#32 ∧ (ptr = [] ∨ 5 ≤ ptr.length) then
    [0x0e, addr.extractLsb' 18 6, addr.extractLsb' 12 6, addr.extractLsb' 6 6,
      addr.extractLsb' 0 6]
  else if ptr = [] then encode 0 addr
  else ptr

/-- The address command as an item, if there is one. -/
def addressItems (h : Ttybus) (a : BitVec 32) : List Item :=
  if h.encodeAddress a = [] then [] else [.command (h.encodeAddress a)]

/-! ### Reads -/

/-- `readcmd` -/
def readcmd (inc : Bool) (len : ℕ) : Command :=
  if len ≤ 8 then
    [BitVec.ofNat 6 (0x20 + (((len - 1) &&& 0x07) <<< 1) + inc.toNat)]
  else
    [BitVec.ofNat 6 (0x30 + (((len - 9) >>> 5) &&& 0x0e) + inc.toNat),
      BitVec.ofNat 6 ((len - 9) &&& 0x3f)]

/-- `READAHEAD` -/
def readAhead : ℕ := maxRdLen / 2

/-- `READBLOCK` -/
def readBlock : ℕ := if maxRdLen / 2 > 512 then 512 else maxRdLen / 2

/-- The length `nrd` of the next read command. -/
def nextRead (len cmdrd nread : ℕ) : ℕ :=
  let nrd := if len - cmdrd > readBlock then readBlock else len - cmdrd
  if cmdrd - nread + nrd > readAhead + readBlock then readAhead + readBlock - (cmdrd - nread)
  else nrd

/-- The inner loop of `readv`: the lengths of the read commands of one line, and how many
words have been asked for after it. -/
def readLine (len cmdrd nread : ℕ) : List ℕ × ℕ :=
  let nrd := nextRead len cmdrd nread
  if _h : cmdrd + nrd - nread < readAhead + readBlock ∧ cmdrd + nrd < len then
    (nrd :: (readLine len (cmdrd + nrd) nread).1, (readLine len (cmdrd + nrd) nread).2)
  else ([nrd], cmdrd + nrd)
termination_by len - cmdrd
decreasing_by all_goals (simp only [nrd, nextRead, readAhead, readBlock, maxRdLen] at *; grind)

theorem nextRead_pos {len cmdrd nread : ℕ} (h : cmdrd < len) (hahead : cmdrd - nread ≤ readAhead) :
  0 < nextRead len cmdrd nread
  := by
  simp only [nextRead, readAhead, readBlock, maxRdLen] at *
  grind

theorem le_readLine (len cmdrd nread : ℕ) :
  cmdrd + nextRead len cmdrd nread ≤ (readLine len cmdrd nread).2
  := by
  induction cmdrd using readLine.induct len nread with
  | case1 cmdrd nrd h ih =>
      rw [readLine, dif_pos h]
      apply le_trans (Nat.le_add_right _ _) ih
  | case2 cmdrd nrd h => rw [readLine, dif_neg h]

/-- The outer loop of `readv`: the lengths of the read commands, line by line. After each
line all but `READAHEAD` of the words asked for are read. -/
def readLines (len cmdrd nread : ℕ) (hahead : cmdrd - nread ≤ readAhead) : List (List ℕ) :=
  if h : cmdrd < len then
    (readLine len cmdrd nread).1
      :: readLines len (readLine len cmdrd nread).2
        (max nread ((readLine len cmdrd nread).2 - readAhead)) (by omega)
  else []
termination_by len - cmdrd
decreasing_by
  have := le_readLine len cmdrd nread
  have := nextRead_pos h hahead
  omega

/-- `readv` -/
def readv (h : Ttybus) (a : BitVec 32) (inc : Bool) (len : ℕ) : List Item :=
  h.addressItems a ++ (readLines len 0 0 (Nat.zero_le _)).flatMap fun line =>
    line.map (fun nrd => .command (readcmd inc nrd)) ++ [.newline]

/-! ### Writes -/

/-- `caddr`: how far back in the table the word was written last, or zero. -/
def caddr (h : Ttybus) (val : BitVec 32) : BitVec 8 :=
  let tstaddr (i : ℕ) := h.mWraddr - BitVec.ofNat 8 i
  match ((List.range' 1 255).takeWhile fun i => h.mWrloaded || !(h.mWraddr < tstaddr i)).find?
      fun i => h.mWritetbl (tstaddr i) == val with
  | some i => h.mWraddr - tstaddr i
  | none => 0

/-- The first group of a write: two bits, the increment bit and the prefix `base`. -/
def writePrefix (base : BitVec 6) (hi : BitVec 2) (p : Bool) : BitVec 6 :=
  (hi.setWidth 6 <<< 1) + (if p then 1 else 0) + base

/-- One word of `writev`. -/
def writeWord (h : Ttybus) (p : Bool) (val : BitVec 32) : Ttybus × Command :=
  let h' := if p then { h with mLastaddr := h.mLastaddr + 4 } else h
  if h.caddr val ≠ 0#8 then
    (h', [writePrefix 0x10 ((h.caddr val).extractLsb' 6 2) p, (h.caddr val).extractLsb' 0 6])
  else
    ({ h' with
        mWritetbl := Function.update h.mWritetbl h.mWraddr val
        mWraddr := h.mWraddr + 1
        mWrloaded := h.mWrloaded || h.mWraddr + 1 == 0#8 },
      [writePrefix 0x18 (val.extractLsb' 30 2) p, val.extractLsb' 24 6, val.extractLsb' 18 6,
        val.extractLsb' 12 6, val.extractLsb' 6 6, val.extractLsb' 0 6])

/-- The words of a block. -/
def writeWords (h : Ttybus) (p : Bool) : List (BitVec 32) → Ttybus × List Command
  | [] => (h, [])
  | val :: buf =>
      (((h.writeWord p val).1.writeWords p buf).1,
        (h.writeWord p val).2 :: ((h.writeWord p val).1.writeWords p buf).2)

/-- The length `ln` of the next block, of the words that are left. -/
def blockLen (left : ℕ) : ℕ := if left > maxWrLen then maxWrLen else left

theorem blockLen_pos {left : ℕ} (h : 0 < left) :
  0 < blockLen left
  := by
  unfold blockLen maxWrLen
  grind

theorem blockLen_le (left : ℕ) :
  blockLen left ≤ left
  := by
  unfold blockLen
  grind

/-- The loop of `writev`: blocks of up to `MAXWRLEN` words, the last one followed by a
newline. -/
def writeBlocks (h : Ttybus) (p : Bool) (buf : List (BitVec 32)) : Ttybus × List Item :=
  if _h : buf = [] then (h, [])
  else
    let ln := blockLen buf.length
    let block := h.writeWords p (buf.take ln)
    let rest := block.1.writeBlocks p (buf.drop ln)
    (rest.1, block.2.map .command ++ (if ln = buf.length then [.newline] else []) ++ rest.2)
termination_by buf.length
decreasing_by
  have hpos := List.length_pos_iff.mpr _h
  have := blockLen_pos hpos
  rw [List.length_drop]
  omega

/-- `writev`. The address command is sent with the first block. -/
def writev (h : Ttybus) (a : BitVec 32) (p : Bool) (buf : List (BitVec 32)) :
    Ttybus × List Item :=
  let written := { h with mLastaddr := a, mAddrSet := true }.writeBlocks p buf
  (written.1, if buf = [] then [] else h.addressItems a ++ written.2)

/-! ### Sessions -/

/-- A call of the host. -/
inductive Call where
  | readv (a : BitVec 32) (inc : Bool) (len : ℕ)
  | writev (a : BitVec 32) (p : Bool) (buf : List (BitVec 32))

/-- What a call sends. -/
def call (h : Ttybus) : Call → Ttybus × List Item
  | .readv a inc len => (h, h.readv a inc len)
  | .writev a p buf => h.writev a p buf

/-- What the answers read during a call make of `m_addr_set` and `m_lastaddr`, if they
change them. -/
abbrev Answers := Option (Bool × BitVec 32)

/-- The host after the answers. -/
def heard (h : Ttybus) : Answers → Ttybus
  | some (addrSet, lastaddr) => { h with mAddrSet := addrSet, mLastaddr := lastaddr }
  | none => h

/-- What a sequence of calls sends, whatever is answered. -/
def session (h : Ttybus) : List (Call × Answers) → List Item
  | [] => []
  | (c, ans) :: cs => (h.call c).2 ++ ((h.call c).1.heard ans).session cs

/-- The address is aligned and there is something to read or write. -/
def Call.WellFormed : Call → Prop
  | readv a _ len => a.extractLsb' 0 2 = 0#2 ∧ 1 ≤ len
  | writev a _ buf => a.extractLsb' 0 2 = 0#2 ∧ buf ≠ []

end Ttybus

end ZBasic
