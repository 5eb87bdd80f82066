import Mathlib.Data.BitVec
import ZBasic.Host.Commands

/-!
# The loops of a read

`readv` writes lines of read commands and reads words in between, so that some words are
always on their way. Its two loops come down to a list of actions, the same whatever is
answered. Every line fits in `m_buf`, and never are more words asked for ahead of those read
than `READAHEAD + READBLOCK`.
-/

namespace ZBasic

namespace Ttybus

/-! ### The buffer -/

/-- The length of a new buffer. -/
def newBuflen (len : ℕ) : ℕ := (BitVec.ofNat 32 len &&& BitVec.ofInt 32 (-0x3f)).toNat + 0x40

/-- `bufalloc`: the length of `m_buf` afterwards, given its length before, if there was
one. -/
def bufalloc (mBuf : Option ℕ) (len : ℕ) : ℕ :=
  match mBuf with
  | some mBuflen => if len ≤ mBuflen then mBuflen else newBuflen len
  | none => newBuflen len

/-- The lengths that `m_buf` can have once `init` has allocated it. -/
inductive Allocated : ℕ → Prop where
  | init : Allocated (bufalloc none 64)
  | again {mBuflen : ℕ} (h : Allocated mBuflen) (len : ℕ) :
      Allocated (bufalloc (some mBuflen) len)

theorem Allocated.le {mBuflen : ℕ} (h : Allocated mBuflen) :
  0x40 ≤ mBuflen
  := by
  induction h with
  | init => apply Nat.le_add_left
  | again _ len ih =>
      rw [bufalloc]
      split
      · apply ih
      · apply Nat.le_add_left

/-! ### The actions -/

/-- What `readv` does on its link: it writes a line, made of an address command, if any, and
read commands of the lengths `asks`; or it reads a word. -/
inductive Action where
  | write (address : Command) (asks : List ℕ)
  | read
deriving DecidableEq

/-- The text of a line in `m_buf`. -/
def text (inc : Bool) (address : Command) (asks : List ℕ) : List (BitVec 8) :=
  address.map charenc ++ asks.flatMap (fun nrd => (readcmd inc nrd).map charenc) ++ [hostNewline]

/-- The characters written by an action. -/
def Action.chars (inc : Bool) : Action → List (BitVec 8)
  | write address asks => text inc address asks
  | read => []

/-- After a line at most `READAHEAD` of the words asked for remain to be read. -/
theorem ahead_le (len cmdrd nread : ℕ) :
  (readLine len cmdrd nread).2 - max nread ((readLine len cmdrd nread).2 - readAhead) ≤ readAhead
  := by omega

-- `hahead` is what the termination proof needs.
set_option linter.unusedVariables false in
/-- The loops of `readv`, with the command that is in `m_buf` already: after each line all but
`READAHEAD` of the words asked for are read, and in the end the others. -/
def readvLoop (len cmdrd nread : ℕ) (ptr : Command) (hahead : cmdrd - nread ≤ readAhead) :
    List Action :=
  if h : cmdrd < len then
    let stop := max nread ((readLine len cmdrd nread).2 - readAhead)
    .write ptr (readLine len cmdrd nread).1
      :: (List.replicate (stop - nread) .read
        ++ readvLoop len (readLine len cmdrd nread).2 stop [] (ahead_le len cmdrd nread))
  else List.replicate (len - nread) .read
termination_by len - cmdrd
decreasing_by
  have := le_readLine len cmdrd nread
  have := nextRead_pos h hahead
  omega

/-- What `readv` does. For an address that is not aligned `encode_address` throws a
`BUSERR`. -/
def readvActions (h : Ttybus) (a : BitVec 32) (len : ℕ) : List Action :=
  if a.extractLsb' 0 2 ≠ 0#2 then []
  else readvLoop len 0 0 (h.encodeAddress a) (Nat.zero_le _)

theorem chars_replicate_read (inc : Bool) (k : ℕ) :
  (List.replicate k Action.read).flatMap (Action.chars inc) = []
  := by
  rw [List.flatMap_eq_nil_iff]
  intro act hact
  rw [(List.mem_replicate.mp hact).2]
  rfl

theorem chars_readvLoop (inc : Bool) {len cmdrd nread : ℕ} (ptr : Command)
    (hahead : cmdrd - nread ≤ readAhead) (hptr : len ≤ cmdrd → ptr = []) :
  (readvLoop len cmdrd nread ptr hahead).flatMap (Action.chars inc)
    = ptr.map charenc ++ ((readLines len cmdrd nread hahead).flatMap fun line =>
        line.map (fun nrd => .command (readcmd inc nrd)) ++ [.newline]).flatMap Item.chars
  := by
  induction cmdrd, nread, hahead using readLines.induct len generalizing ptr with
  | case1 cmdrd nread hahead h ih =>
      rw [readvLoop, dif_pos h, readLines, dif_pos h, List.flatMap_cons, List.flatMap_append,
        chars_replicate_read, List.nil_append, ih [] (fun _ => rfl), List.flatMap_cons,
        List.flatMap_append, List.flatMap_append, List.flatMap_map]
      simp only [Action.chars, text, Item.chars, List.map_nil, List.nil_append,
        List.flatMap_cons, List.flatMap_nil, List.append_nil, List.append_assoc]
  | case2 cmdrd nread hahead h =>
      rw [readvLoop, dif_neg h, readLines, dif_neg h, chars_replicate_read,
        hptr (Nat.le_of_not_lt h)]
      rfl

/-- The characters written are those of the commands. -/
theorem chars_readvActions (h : Ttybus) {a : BitVec 32} (inc : Bool) {len : ℕ}
    (ha : a.extractLsb' 0 2 = 0#2) (hlen : 1 ≤ len) :
  (h.readvActions a len).flatMap (Action.chars inc) = (h.readv a inc len).flatMap Item.chars
  := by
  have haddress : (h.addressItems a).flatMap Item.chars = (h.encodeAddress a).map charenc := by
    rw [addressItems]
    split_ifs with hnil
    · rw [hnil]
      rfl
    · simp [Item.chars]
  rw [readvActions, if_neg (not_not_intro ha), chars_readvLoop inc _ _ (by omega), readv,
    List.flatMap_append, haddress]

/-! ### The window -/

/-- From `asked` words asked for and `nread` read on, the actions ask for `len` words in all
and read them. Every line has read commands of a legal length and fits in `m_buf`, no more
than 1024 words are asked for ahead of those read, and no word is read that has not been
asked for. -/
def Windowed (inc : Bool) (mBuflen len : ℕ) : ℕ → ℕ → List Action → Prop
  | asked, nread, [] => asked = len ∧ nread = len
  | asked, nread, .write address asks :: acts =>
      (∀ n ∈ asks, 0 < n ∧ n < 520) ∧ (text inc address asks).length + 1 ≤ mBuflen
        ∧ asked + asks.sum ≤ len ∧ asked + asks.sum ≤ nread + maxRdLen
        ∧ Windowed inc mBuflen len (asked + asks.sum) nread acts
  | asked, nread, .read :: acts => nread < asked ∧ Windowed inc mBuflen len asked (nread + 1) acts

/-- What a line asks for. -/
structure LineOf (len cmdrd nread : ℕ) (line : List ℕ × ℕ) : Prop where
  lens : ∀ n ∈ line.1, 0 < n ∧ n ≤ 512
  sum : cmdrd + line.1.sum = line.2
  stop : line.2 = min len (nread + maxRdLen)
  length : line.1.length ≤ if cmdrd < nread + readAhead then 2 else 1

theorem nextRead_eq_min {len cmdrd nread : ℕ} (hroom : cmdrd < nread + maxRdLen) :
  nextRead len cmdrd nread = min (min (len - cmdrd) 512) (nread + maxRdLen - max cmdrd nread)
  := by
  simp only [nextRead, readAhead, readBlock, maxRdLen] at *
  grind

/-- A line has one command or two. -/
theorem readLine_lineOf {len cmdrd nread : ℕ} (h : cmdrd < len) (hle : nread ≤ cmdrd)
    (hroom : cmdrd < nread + maxRdLen) :
  LineOf len cmdrd nread (readLine len cmdrd nread)
  := by
  have hahead : readAhead = 512 := rfl
  have hblock : readAhead + readBlock = maxRdLen := rfl
  have hmax : maxRdLen = 1024 := rfl
  induction cmdrd using readLine.induct len nread with
  | case1 cmdrd nrd hmore ih =>
      have hnrd : nrd = min (min (len - cmdrd) 512) (nread + maxRdLen - max cmdrd nread) :=
        nextRead_eq_min hroom
      have hrest := ih hmore.2 (by omega) (by omega)
      rw [readLine, dif_pos hmore]
      constructor
      · intro n hn
        rcases List.mem_cons.mp hn with rfl | hn
        · show 0 < nrd ∧ nrd ≤ 512
          omega
        · apply hrest.lens n hn
      · rw [List.sum_cons, ← Nat.add_assoc]
        apply hrest.sum
      · apply hrest.stop
      · have hlength := hrest.length
        rw [List.length_cons]
        rw [if_neg (by omega)] at hlength
        rw [if_pos (by omega)]
        apply Nat.succ_le_succ hlength
  | case2 cmdrd nrd hmore =>
      have hnrd : nrd = min (min (len - cmdrd) 512) (nread + maxRdLen - max cmdrd nread) :=
        nextRead_eq_min hroom
      rw [readLine, dif_neg hmore]
      constructor
      · intro n hn
        rw [List.mem_singleton.mp hn]
        show 0 < nrd ∧ nrd ≤ 512
        omega
      · simp
      · show cmdrd + nrd = min len (nread + maxRdLen)
        omega
      · rw [List.length_singleton]
        split <;> decide

theorem length_readcmd_le (inc : Bool) (len : ℕ) :
  (readcmd inc len).length ≤ 2
  := by
  rw [readcmd]
  split <;> simp

theorem length_encodeAddress_le (h : Ttybus) (a : BitVec 32) :
  (h.encodeAddress a).length ≤ 6
  := by
  rcases h.encodeAddress_cases a with ⟨hnil, -⟩ | hfull | ⟨j, -, hj, heq, -⟩ | ⟨j, -, hj, heq, -⟩
  · simp [hnil]
  · simp [hfull, encode]
  · rw [heq, List.length_cons, length_digits]
    omega
  · rw [heq, List.length_cons, length_digits]
    omega

theorem length_text_le (inc : Bool) (address : Command) (asks : List ℕ) :
  (text inc address asks).length ≤ address.length + 2 * asks.length + 1
  := by
  have hasks :
      (asks.flatMap fun nrd => (readcmd inc nrd).map charenc).length ≤ 2 * asks.length := by
    induction asks with
    | nil => simp
    | cons nrd asks ih =>
        have := length_readcmd_le inc nrd
        rw [List.flatMap_cons, List.length_append, List.length_map, List.length_cons]
        omega
  rw [text, List.length_append, List.length_append, List.length_map, List.length_singleton]
  omega

section

variable {inc : Bool} {mBuflen len : ℕ}

theorem windowed_replicate {asked nread k : ℕ} {acts : List Action} (hk : nread + k ≤ asked)
    (h : Windowed inc mBuflen len asked (nread + k) acts) :
  Windowed inc mBuflen len asked nread (List.replicate k .read ++ acts)
  := by
  induction k generalizing nread with
  | zero => apply h
  | succ k ih =>
      rw [List.replicate_succ, List.cons_append]
      constructor
      · omega
      · apply ih (by omega)
        rwa [Nat.add_assoc, Nat.add_comm 1]

theorem windowed_readvLoop (hbuf : 0x40 ≤ mBuflen) {cmdrd nread : ℕ} {ptr : Command}
    (hahead : cmdrd - nread ≤ readAhead) (hle : nread ≤ cmdrd) (hlen : cmdrd ≤ len)
    (hptr : ptr.length ≤ 6) :
  Windowed inc mBuflen len cmdrd nread (readvLoop len cmdrd nread ptr hahead)
  := by
  have hread : readAhead = 512 := rfl
  have hmax : maxRdLen = 1024 := rfl
  induction cmdrd, nread, hahead using readLines.induct len generalizing ptr with
  | case1 cmdrd nread hahead h ih =>
      have hline := readLine_lineOf h hle (by omega)
      have hsum := hline.sum
      have hstop := hline.stop
      have htext : (text inc ptr (readLine len cmdrd nread).1).length + 1 ≤ mBuflen := by
        have := length_text_le inc ptr (readLine len cmdrd nread).1
        have := hline.length
        grind
      rw [readvLoop, dif_pos h]
      refine ⟨?_, htext, ?_, ?_, ?_⟩
      · intro n hn
        have := hline.lens n hn
        omega
      · omega
      · omega
      · rw [hsum]
        apply windowed_replicate
        · omega
        · rw [Nat.add_sub_cancel' (Nat.le_max_left _ _)]
          apply ih
          · omega
          · omega
          · apply Nat.zero_le
  | case2 cmdrd nread hahead h =>
      rw [readvLoop, dif_neg h, ← List.append_nil (List.replicate _ _)]
      obtain rfl : cmdrd = len := by omega
      apply windowed_replicate
      · omega
      · use rfl
        omega

/-- The actions of `readv` keep to the window. -/
theorem windowed_readvActions (h : Ttybus) {a : BitVec 32} (ha : a.extractLsb' 0 2 = 0#2)
    (hbuf : Allocated mBuflen) :
  Windowed inc mBuflen len 0 0 (h.readvActions a len)
  := by
  rw [readvActions, if_neg (not_not_intro ha)]
  apply windowed_readvLoop hbuf.le
  · apply Nat.le_refl
  · apply Nat.zero_le
  · apply length_encodeAddress_le

end

end Ttybus

end ZBasic
