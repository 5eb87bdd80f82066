import ZBasic.Memory.Block

/-!
# Reading an ELF file

`elfread` puts all sections of a program into one block of memory, behind a table of pointers to
them. The headers and the bytes of the file are those that `libelf` and `read` return. A pointer
into the block is its offset in the block.
-/

namespace ZBasic

open Memory

namespace Zipelf

/-- What is used of a `GElf_Phdr`, in a file of 32 bits. -/
structure Phdr where
  pOffset : BitVec 32
  pPaddr : BitVec 32
  pFilesz : BitVec 32
  pMemsz : BitVec 32

/-- `sizeof(ELFSECTION *)` -/
def sizeofPointer : ℕ := 8

/-- `sizeof(ELFSECTION)` -/
def sizeofSection : ℕ := 12

/-- Where `m_len` is in an `ELFSECTION`. -/
def mLen : ℕ := 4

/-- Where `m_data` is in an `ELFSECTION`. -/
def mData : ℕ := 8

/-- `total_octets` -/
def totalOctets (hs : List Phdr) : ℕ :=
  hs.foldl
    (fun t h => ((t + (sizeofPointer + sizeofSection)) % 2 ^ 32 + h.pMemsz.toNat) % 2 ^ 32) 0

/-- `lseek` and `read`, which gives the bytes that are asked for as far as there are any. Their
number is compared with the one asked for as an `int`. -/
def read (file : List (BitVec 8)) (offset n : ℕ) : Option (List (BitVec 8)) :=
  if (((file.drop offset).take n).length : ℤ) = (BitVec.ofNat 32 n).toInt then
    some ((file.drop offset).take n)
  else none

/-- The variables of the second loop. -/
structure State where
  d : Block
  currentOffset : ℕ
  currentSection : ℕ

/-- `r[i]` -/
def entry (d : Block) (i : ℕ) : Option ℕ := d.loadNat (sizeofPointer * i) sizeofPointer

/-- What the second loop does with a header. -/
def putHeader (file : List (BitVec 8)) (i : ℕ) (phdr : Phdr) (s : State) : Option State := do
  let d ← s.d.store (sizeofPointer * i) (bytesOf sizeofPointer s.currentOffset)
  if phdr.pFilesz = 0 then
    return { s with d := d }
  else
    let d ← d.store (← entry d i) (bytesOf 4 phdr.pPaddr.toNat)
    let d ← d.store ((← entry d i) + mLen) (bytesOf 4 phdr.pFilesz.toNat)
    let filesz := if phdr.pFilesz > phdr.pMemsz then 0 else phdr.pFilesz.toNat
    let d ← d.store ((← entry d i) + mData) (← read file phdr.pOffset.toNat filesz)
    return {
      d := d
      currentOffset := (s.currentOffset + (phdr.pMemsz.toNat + sizeofSection)) % 2 ^ 32
      currentSection := (s.currentSection + 1) % 2 ^ 32 }

/-- The second loop, from header `i` on. -/
def putHeaders (file : List (BitVec 8)) : ℕ → List Phdr → State → Option State
  | _, [], s => some s
  | i, phdr :: hs, s => do putHeaders file (i + 1) hs (← putHeader file i phdr s)

/-- The block that `elfread` allocates, with zeros in it as far as it is cleared. -/
def allocated (hs : List Phdr) (junk : ℕ → BitVec 8) : Block where
  size := totalOctets hs + sizeofSection + sizeofPointer
  bytes := fun a => if a < totalOctets hs then 0 else junk a

/-- `elfread`: the block of the sections. -/
def elfread (hs : List Phdr) (file : List (BitVec 8)) (junk : ℕ → BitVec 8) : Option Block := do
  let s ← putHeaders file 0 hs
    { d := allocated hs junk
      currentOffset := (hs.length + 1) * sizeofPointer % 2 ^ 32
      currentSection := 0 }
  let d ← s.d.store (sizeofPointer * hs.length) (bytesOf sizeofPointer s.currentOffset)
  let d ← d.store (← entry d s.currentSection) (bytesOf 4 0)
  d.store ((← entry d s.currentSection) + mLen) (bytesOf 4 0)

end Zipelf

end ZBasic
