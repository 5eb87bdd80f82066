import ZBasic.Host.Session

/-!
# The dictionary of written words

The host refers to words it has written before by how far back they are in a table that
the device keeps as well. Wherever the pointer of the device starts, the tables stay in
agreement, and each word comes out of the device as it was given to `writev`, also when
calls are cut short by an exception.
-/

namespace ZBasic

open Clocked

namespace Ttybus

/-! ### Calls that may be cut short -/

/-- A call of `writev`. After each block `readidle` may throw: `more` is the number of
blocks that are allowed after the first. -/
structure Writev where
  a : BitVec 32
  p : Bool
  buf : List (BitVec 32)
  more : ℕ

/-- The loop of `writev`, left after `n` blocks. -/
def writeBlocksUpTo (h : Ttybus) (p : Bool) : ℕ → List (BitVec 32) → Ttybus × List Item
  | 0, _ => (h, [])
  | n + 1, buf =>
      if buf = [] then (h, [])
      else
        let ln := blockLen buf.length
        let block := h.writeWords p (buf.take ln)
        let rest := block.1.writeBlocksUpTo p n (buf.drop ln)
        (rest.1, block.2.map .command ++ (if ln = buf.length then [.newline] else []) ++ rest.2)

theorem writeBlocksUpTo_succ (h : Ttybus) (p : Bool) (n : ℕ) {buf : List (BitVec 32)} {ln : ℕ}
    (hbuf : buf ≠ []) (hln : blockLen buf.length = ln) :
  h.writeBlocksUpTo p (n + 1) buf
    = ((((h.writeWords p (buf.take ln)).1).writeBlocksUpTo p n (buf.drop ln)).1,
      (h.writeWords p (buf.take ln)).2.map .command
        ++ (if ln = buf.length then [.newline] else [])
        ++ (((h.writeWords p (buf.take ln)).1).writeBlocksUpTo p n (buf.drop ln)).2)
  := by rw [writeBlocksUpTo, if_neg hbuf, hln]

/-- With blocks enough the loop is never left early. -/
theorem writeBlocksUpTo_eq_writeBlocks (h : Ttybus) (p : Bool) {n : ℕ} {buf : List (BitVec 32)}
    (hn : buf.length ≤ n) :
  h.writeBlocksUpTo p n buf = h.writeBlocks p buf
  := by
  induction n generalizing h buf with
  | zero =>
      obtain rfl := List.length_eq_zero_iff.mp (Nat.le_zero.mp hn)
      rw [writeBlocksUpTo, writeBlocks, dif_pos rfl]
  | succ n ih =>
      by_cases hbuf : buf = []
      · rw [writeBlocksUpTo, if_pos hbuf, writeBlocks, dif_pos hbuf]
      · have hpos := blockLen_pos (List.length_pos_iff.mpr hbuf)
        rw [writeBlocksUpTo_succ h p n hbuf rfl, ih, writeBlocks.eq_def h, dif_neg hbuf]
        rw [List.length_drop]
        omega

/-- `writev`, as far as it gets: `encode_address` refuses an address that is not
aligned. -/
def writevUpTo (h : Ttybus) (c : Writev) : Ttybus × List Item :=
  if c.a.extractLsb' 0 2 = 0#2 then
    let written := (h.addressed c.a).writeBlocksUpTo c.p (c.more + 1) c.buf
    (written.1, if c.buf = [] then [] else h.addressItems c.a ++ written.2)
  else (h, [])

/-- What a sequence of calls of `writev` sends, whatever is answered in between. -/
def writes (h : Ttybus) : List (Writev × Answers) → List Item
  | [] => []
  | (c, ans) :: cs => (h.writevUpTo c).2 ++ ((h.writevUpTo c).1.heard ans).writes cs

/-- The words of a call that are sent, each with the increment flag. -/
def Writev.sent (c : Writev) : List (Bool × BitVec 32) :=
  if c.a.extractLsb' 0 2 = 0#2 then
    (c.buf.take (maxWrLen * (c.more + 1))).map fun val => (c.p, val)
  else []

/-! ### Reading the calls -/

/-- The first `n` blocks are the words in them; the newline is sent if they are all. -/
theorem writeBlocksUpTo_eq (h : Ttybus) (p : Bool) (n : ℕ) (buf : List (BitVec 32)) :
  h.writeBlocksUpTo p n buf
    = ((h.writeWords p (buf.take (maxWrLen * n))).1,
      (h.writeWords p (buf.take (maxWrLen * n))).2.map .command
        ++ if buf ≠ [] ∧ buf.length ≤ maxWrLen * n then [.newline] else [])
  := by
  induction n generalizing h buf with
  | zero =>
      rw [writeBlocksUpTo, Nat.mul_zero, List.take_zero, writeWords, if_neg]
      · rfl
      · rintro ⟨hne, hlen⟩
        apply hne (List.length_eq_zero_iff.mp (Nat.le_zero.mp hlen))
  | succ n ih =>
      by_cases hbuf : buf = []
      · rw [writeBlocksUpTo, if_pos hbuf, hbuf, List.take_nil, writeWords]
        simp
      · have hmul : maxWrLen * (n + 1) = maxWrLen + maxWrLen * n := by
          rw [Nat.mul_succ, Nat.add_comm]
        rcases Nat.lt_or_ge maxWrLen buf.length with hlong | hshort
        · have hln : blockLen buf.length = maxWrLen := by rw [blockLen, if_pos hlong]
          have htake : buf.take (maxWrLen * (n + 1))
              = buf.take maxWrLen ++ (buf.drop maxWrLen).take (maxWrLen * n) := by
            rw [hmul, List.take_add]
          have hdrop : buf.drop maxWrLen ≠ [] := by
            rw [Ne, List.drop_eq_nil_iff]
            omega
          rw [writeBlocksUpTo_succ h p n hbuf hln, if_neg (by omega), ih, htake, writeWords_append]
          simp only [hbuf, hdrop, ne_eq, not_false_eq_true, true_and, List.length_drop, hmul,
            List.map_append, List.append_nil, List.append_assoc]
          congr 4
          rw [eq_iff_iff]
          omega
        · have hln : blockLen buf.length = buf.length := by rw [blockLen, if_neg (by omega)]
          have hall : buf.take (maxWrLen * (n + 1)) = buf := by
            apply List.take_of_length_le
            omega
          have hlen : buf.length ≤ maxWrLen * (n + 1) := by omega
          rw [writeBlocksUpTo_succ h p n hbuf hln, if_pos rfl, List.take_length, List.drop_length,
            ih, hall]
          simp [writeWords, hbuf, hlen]

/-- The commands of a call, as the device reads them. -/
def writevCommands (h : Ttybus) (c : Writev) : List Command :=
  if c.a.extractLsb' 0 2 = 0#2 ∧ c.buf ≠ [] then
    h.addressCommands c.a
      ++ (((h.addressed c.a).writeWords c.p (c.buf.take (maxWrLen * (c.more + 1)))).2
        ++ if c.buf.length ≤ maxWrLen * (c.more + 1) then [[0x2e]] else [])
  else []

/-- What a call sends is read as its commands. -/
theorem yields_writevUpTo (h : Ttybus) (c : Writev) (wr : Bool) :
  ∃ wr', Yields wr (h.writevUpTo c).2 (h.writevCommands c) wr'
  := by
  rw [writevUpTo, writevCommands]
  by_cases ha : c.a.extractLsb' 0 2 = 0#2
  · by_cases hbuf : c.buf = []
    · use wr
      simp only [ha, hbuf, if_true, ne_eq, not_true_eq_false, and_false, if_false]
      apply yields_nil
    · dsimp only
      rw [if_pos ha, if_neg hbuf, if_pos ⟨ha, hbuf⟩, writeBlocksUpTo_eq]
      simp only [hbuf, ne_eq, not_false_eq_true, true_and]
      obtain ⟨wr', haddr⟩ := h.yields_address c.a wr
      have hwords : ((h.addressed c.a).writeWords c.p
          (c.buf.take (maxWrLen * (c.more + 1)))).2 ≠ [] := by
        obtain ⟨val, buf, hcons⟩ := List.exists_cons_of_ne_nil hbuf
        rw [hcons, Nat.mul_succ, maxWrLen, List.take_succ_cons]
        apply List.cons_ne_nil
      have hwrites := yields_commands hwords ((h.addressed c.a).writeWords_framed c.p _) wr'
      by_cases hall : c.buf.length ≤ maxWrLen * (c.more + 1)
      · use false
        rw [if_pos hall, if_pos hall]
        apply haddr.append (hwrites.append (yields_newline true))
      · use true
        rw [if_neg hall, if_neg hall]
        apply haddr.append (hwrites.append (yields_nil true))
  · use wr
    rw [if_neg ha, if_neg (fun hc => ha hc.1)]
    apply yields_nil

/-- The commands of a sequence of calls. -/
def writesCommands (h : Ttybus) : List (Writev × Answers) → List Command
  | [] => []
  | (c, ans) :: cs => h.writevCommands c ++ ((h.writevUpTo c).1.heard ans).writesCommands cs

theorem yields_writes (h : Ttybus) (cs : List (Writev × Answers)) (wr : Bool) :
  ∃ wr', Yields wr (h.writes cs) (h.writesCommands cs) wr'
  := by
  induction cs generalizing h wr with
  | nil =>
      use wr
      apply yields_nil
  | cons c cs ih =>
      obtain ⟨wr', hcall⟩ := h.yields_writevUpTo c.1 wr
      obtain ⟨wr'', hrest⟩ := ih ((h.writevUpTo c.1).1.heard c.2) wr'
      use wr''
      apply hcall.append hrest

/-! ### The words that come out -/

/-- A write codeword of the word `pv.2`, with the increment flag `pv.1`. -/
def WritesWord (pv : Bool × BitVec 32) (w : Codeword) : Prop := IsWriteOf pv.1 pv.2 w

variable {t : Table} {h : Ttybus} {raw : List Codeword}

theorem isWrite_of_isAbsolute {w : Codeword} (h : w.isAbsolute = true) :
  w.isWrite = false
  := by
  rw [Codeword.isAbsolute, beq_iff_eq] at h
  have hfield := extract_extract w (a := 32) (b := 2) (m := 2) (n := 4) (by decide)
  rw [Codeword.isWrite, ← hfield, h]
  decide

theorem isWrite_of_isRelative {w : Codeword} (h : w.isRelative = true) :
  w.isWrite = false
  := by
  rw [Codeword.isRelative, beq_iff_eq] at h
  have hfield := extract_extract w (a := 33) (b := 1) (m := 2) (n := 3) (by decide)
  rw [Codeword.isWrite, ← hfield, h]
  decide

theorem isWrite_of_isEndOfWrite {w : Codeword} (h : w.isEndOfWrite = true) :
  w.isWrite = false
  := by
  by_contra hw
  have hend := Codeword.isEndOfWrite_of_isWrite (by simpa using hw)
  rw [h] at hend
  cases hend

/-- An address command is no write. -/
theorem IntendedAddress.filter {a : BitVec 32} {ws : List Codeword}
    (haddr : h.IntendedAddress a ws) :
  ws.filter (·.isWrite) = []
  := by
  rcases haddr with ⟨rfl, -⟩ | ⟨w, rfl, hmoves⟩
  · rfl
  · have hw : w.isWrite = false := by
      rcases hmoves with ⟨habs, -⟩ | ⟨hrel, -⟩
      · apply isWrite_of_isAbsolute habs
      · apply isWrite_of_isRelative hrel
    simp [hw]

/-- The end of a call is an end of write, or nothing. -/
theorem end_out (hsync : Synced t h) {b : Prop} [Decidable b]
    (hraw : List.Forall₂ Carries raw (if b then [[0x2e]] else [])) :
  (t.outAll raw).filter (·.isWrite) = [] ∧ Synced (t.nextAll raw) h
  := by
  by_cases hb : b
  · rw [if_pos hb] at hraw
    cases hraw with
    | @cons w _ raw _ hw hnil =>
        cases hnil
        have h0 : group w 0 = 0x2e#6 := hw 0 (Nat.zero_lt_succ _)
        have hend : (t.out w).isEndOfWrite = true := by
          rw [Table.out_isEndOfWrite, h0]
          rfl
        constructor
        · simp [Table.outAll, isWrite_of_isEndOfWrite hend]
        · apply hsync.next
          rw [isFullWrite_group, h0]
          decide
  · rw [if_neg hb] at hraw
    cases hraw
    exact ⟨rfl, hsync⟩

theorem filter_writes {p : Bool} {buf : List (BitVec 32)} {ws : List Codeword}
    (h : List.Forall₂ (IsWriteOf p) buf ws) :
  List.Forall₂ WritesWord (buf.map fun val => (p, val)) (ws.filter (·.isWrite))
  := by
  induction h with
  | nil => apply List.Forall₂.nil
  | cons hwrite _ ih =>
      rw [List.map_cons, List.filter_cons_of_pos hwrite.1]
      constructor
      · apply hwrite
      · apply ih

/-- The words of a call come out, and the tables stay in agreement. -/
theorem writevCommands_out (hsync : Synced t h) (c : Writev)
    (hraw : List.Forall₂ Carries raw (h.writevCommands c)) :
  List.Forall₂ WritesWord c.sent ((t.outAll raw).filter (·.isWrite))
    ∧ Synced (t.nextAll raw) (h.writevUpTo c).1
  := by
  rw [writevCommands] at hraw
  by_cases ha : c.a.extractLsb' 0 2 = 0#2
  · rw [Writev.sent, if_pos ha, writevUpTo, if_pos ha, writeBlocksUpTo_eq]
    by_cases hbuf : c.buf = []
    · rw [if_neg (fun hc => hc.2 hbuf)] at hraw
      cases hraw
      rw [hbuf, List.take_nil]
      exact ⟨List.Forall₂.nil, hsync.wrAddr, hsync.tbl⟩
    · rw [if_pos ⟨ha, hbuf⟩] at hraw
      obtain ⟨raw₁, raw', rfl, haddr, hraw⟩ := split_carries hraw
      obtain ⟨raw₂, raw₃, rfl, hwords, hend⟩ := split_carries hraw
      obtain ⟨haddr, hsync⟩ := intendedAddress_out hsync ha haddr
      have haddressed : Synced (t.nextAll raw₁) (h.addressed c.a) := ⟨hsync.wrAddr, hsync.tbl⟩
      obtain ⟨hwrites, hsync⟩ := writes_out haddressed hwords
      obtain ⟨hlast, hsync⟩ := end_out hsync hend
      rw [Table.outAll_append, Table.outAll_append, Table.nextAll_append, Table.nextAll_append,
        List.filter_append, List.filter_append, haddr.filter, hlast, List.append_nil,
        List.nil_append]
      exact ⟨filter_writes hwrites, hsync⟩
  · rw [if_neg (fun hc => ha hc.1)] at hraw
    cases hraw
    rw [Writev.sent, if_neg ha, writevUpTo, if_neg ha]
    exact ⟨List.Forall₂.nil, hsync⟩

/-- The words of a sequence of calls come out. -/
theorem writesCommands_out (hsync : Synced t h) {cs : List (Writev × Answers)}
    (hraw : List.Forall₂ Carries raw (h.writesCommands cs)) :
  List.Forall₂ WritesWord (cs.flatMap fun c => c.1.sent) ((t.outAll raw).filter (·.isWrite))
  := by
  induction cs generalizing t h raw with
  | nil =>
      cases hraw
      apply List.Forall₂.nil
  | cons c cs ih =>
      obtain ⟨raw₁, raw₂, rfl, hcall, hrest⟩ := split_carries hraw
      obtain ⟨hcall, hsync⟩ := writevCommands_out hsync c.1 hcall
      have hheard : Synced (t.nextAll raw₁) ((h.writevUpTo c.1).1.heard c.2) := by
        cases c.2 <;> exact ⟨hsync.wrAddr, hsync.tbl⟩
      rw [Table.outAll_append, List.filter_append, List.flatMap_cons]
      apply List.rel_append hcall (ih hheard hrest)

/-- The words given to a sequence of calls of `writev`, as far as the calls get, come out
of the device one by one, whether they were sent in full or as a place in the table, and
wherever the pointer of the device's table started. -/
theorem writes_recovered {s₀ : Wbudecompress} {inp : ℕ → Option Codeword} {N : ℕ} {wr : Bool}
    (cs : List (Writev × Answers)) (h₀ : s₀.Idle) (hh : h.Initial)
    (hspaced : Wbudecompress.Spaced inp) (hend : ∀ n, N ≤ n → inp n = none)
    (hread : List.Forall₂ Carries (Wbudecompress.taken inp N)
      (Reader.feedAll ⟨[], wr⟩ ((h.writes cs).flatMap Item.symbols)).2) (n : ℕ) (hn : N + 4 ≤ n) :
  List.Forall₂ WritesWord (cs.flatMap fun c => c.1.sent)
    ((Wbudecompress.letOut s₀ inp n).filter (·.isWrite))
  := by
  obtain ⟨wr', hyields⟩ := h.yields_writes cs wr
  rw [hyields] at hread
  have htaken : Wbudecompress.taken inp n = Wbudecompress.taken inp N := by
    apply log_eq_of_silent (by omega)
    intro k hk _
    rw [hend k hk]
    rfl
  have hzero : (s₀.table.rotate (-s₀.table.wrAddr)).wrAddr = 0 := by simp [Table.rotate]
  rw [Wbudecompress.letOut_eq h₀ hspaced hend hn, htaken,
    ← Table.rotate_outAll _ (-s₀.table.wrAddr)]
  apply writesCommands_out (hh.synced hzero) hread

/-! ### One word twice -/

/-- A codeword every five clocks. -/
def fiveApart (ws : List Codeword) (n : ℕ) : Option Codeword :=
  if n % 5 = 0 then ws[n / 5]? else none

theorem fiveApart_spaced (ws : List Codeword) :
  Wbudecompress.Spaced (fiveApart ws)
  := by
  have hmul : ∀ n, (fiveApart ws n).isSome = true → n % 5 = 0 := by
    intro n hn
    by_contra hne
    simp [fiveApart, hne] at hn
  intro m n hmn hm hn
  have := hmul m hm
  have := hmul n hn
  omega

theorem fiveApart_end (ws : List Codeword) {n : ℕ} (hn : 5 * ws.length ≤ n) :
  fiveApart ws n = none
  := by
  rw [fiveApart]
  split
  · rw [List.getElem?_eq_none_iff]
    omega
  · rfl

/-- Expanding with a table whose pointer is at seven. -/
def atSeven : Wbudecompress where
  table := ⟨7, fun _ => 0⟩
  rWord := 0
  cmdAddr := 0
  rAddr := 0
  rdLen := 0
  cword := 0
  rStb := 0
  oStb := false
  oWord := 0

/-- The same word twice: an address, a full write, a place in the table and the end. -/
theorem writes_recovered_twice :
  List.Forall₂ WritesWord [(true, 5#32), (true, 5#32)]
    ((Wbudecompress.letOut atSeven
      (fiveApart [0x290000000#36, 0x640000005#36, 0x441000000#36, 0xb80000000#36]) 24).filter
      (·.isWrite))
  := by
  have hread : List.Forall₂ Carries (Wbudecompress.taken
      (fiveApart [0x290000000#36, 0x640000005#36, 0x441000000#36, 0xb80000000#36]) 20)
      (Reader.feedAll ⟨[], false⟩
        ((init.writes [(⟨0x1000, true, [5, 5], 0⟩, none)]).flatMap Item.symbols)).2 := by
    have hcmds : (Reader.feedAll ⟨[], false⟩
        ((init.writes [(⟨0x1000, true, [5, 5], 0⟩, none)]).flatMap Item.symbols)).2
        = [[0x0a, 0x10, 0x00], [0x19, 0, 0, 0, 0, 5], [0x11, 0x01], [0x2e]] := by
      decide
    rw [hcmds]
    refine .cons ?_ (.cons ?_ (.cons ?_ (.cons ?_ .nil))) <;> unfold Carries <;> decide
  apply writes_recovered [(⟨0x1000, true, [5, 5], 0⟩, none)] ⟨rfl, rfl⟩ init_initial
    (fiveApart_spaced _) (fun n hn => fiveApart_end _ hn) hread 24 (by decide)

end Ttybus

end ZBasic
