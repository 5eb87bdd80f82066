import ZBasic.Host.Commands
import ZBasic.Wbubus.Wbuinput

/-!
# Framing of a session

The characters of a session of calls, fed to the command input path, come out as the
codewords that the calls are meant to be, except where a `readv` asks for eight words
from one address.
-/

namespace ZBasic

open Clocked

/-! ### Reading items -/

/-- An item as the reader sees it. -/
def Item.symbols : Item → List (Option (BitVec 6))
  | command gs => gs.map some
  | newline => [none]

theorem hexbitsOf_charenc (v : BitVec 6) :
  Wbuinput.hexbitsOf (charenc v) = some v
  := by
  revert v
  decide

theorem hexbitsOf_chars (it : Item) :
  it.chars.map Wbuinput.hexbitsOf = it.symbols
  := by
  cases it with
  | command gs => simp [Item.chars, Item.symbols, Function.comp_def, hexbitsOf_charenc]
  | newline => decide

/-- Between codewords, the last of which was a write if `wr`, the items are read as the
codewords with the groups `cmds`; `wr'` tells whether the last one of them is a write. -/
def Yields (wr : Bool) (items : List Item) (cmds : List Command) (wr' : Bool) : Prop :=
  Reader.feedAll ⟨[], wr⟩ (items.flatMap Item.symbols) = (⟨[], wr'⟩, cmds)

theorem yields_nil (wr : Bool) :
  Yields wr [] [] wr
  := rfl

theorem Yields.append {wr wr' wr'' : Bool} {items items' : List Item} {cmds cmds' : List Command}
    (h : Yields wr items cmds wr') (h' : Yields wr' items' cmds' wr'') :
  Yields wr (items ++ items') (cmds ++ cmds') wr''
  := by
  rw [Yields] at h h'
  rw [Yields, List.flatMap_append, Reader.feedAll_append, h, h']

/-- The groups of a command complete it when its length is reached. -/
theorem feedAll_rest {g : BitVec 6} {gs : Command} (hlen : (g :: gs).length = (cwLength g).toNat)
    (wr : Bool) {part ys : List (BitVec 6)} (hys : ys ≠ []) (hpart : part ++ ys = g :: gs) :
  Reader.feedAll ⟨part, wr⟩ (ys.map some) = (⟨[], startsWrite g⟩, [g :: gs])
  := by
  induction ys generalizing part with
  | nil => cases hys rfl
  | cons y ys ih =>
      have hsplit : part ++ [y] ++ ys = g :: gs := by simpa using hpart
      have hhead : (part ++ [y]).headD 0 = g := by
        cases part with
        | nil => apply (List.cons.inj hsplit).1
        | cons x part => apply (List.cons.inj hsplit).1
      have hcount := congrArg List.length hsplit
      rw [List.length_append, hlen] at hcount
      rw [List.map_cons, Reader.feedAll]
      by_cases hlast : ys = []
      · subst hlast
        rw [List.append_nil] at hsplit
        simp only [Reader.feed, hhead]
        rw [if_pos (by simpa using hcount)]
        simp [Reader.feedAll, hsplit]
      · have := List.length_pos_iff.mpr hlast
        simp only [Reader.feed, hhead]
        rw [if_neg (by omega), ih hlast hsplit]
        rfl

theorem yields_command {g : BitVec 6} {gs : Command}
    (hlen : (g :: gs).length = (cwLength g).toNat) (wr : Bool) :
  Yields wr [.command (g :: gs)] [g :: gs] (startsWrite g)
  := by
  have := feedAll_rest hlen wr (List.cons_ne_nil g gs) (List.nil_append _)
  simpa [Yields, Item.symbols] using this

theorem yields_newline (wr : Bool) :
  Yields wr [.newline] (if wr then [[0x2e]] else []) false
  := by cases wr <;> rfl

/-- Commands of one kind. -/
theorem yields_commands {cmds : List Command} {b : Bool} (hne : cmds ≠ [])
    (h : ∀ c ∈ cmds, ∃ g gs, c = g :: gs ∧ (g :: gs).length = (cwLength g).toNat
      ∧ startsWrite g = b) (wr : Bool) :
  Yields wr (cmds.map .command) cmds b
  := by
  induction cmds generalizing wr with
  | nil => cases hne rfl
  | cons c cmds ih =>
      rw [List.forall_mem_cons] at h
      obtain ⟨⟨g, gs, rfl, hlen, hstart⟩, hrest⟩ := h
      have hfirst := yields_command hlen wr
      rw [hstart] at hfirst
      by_cases hlast : cmds = []
      · rw [hlast]
        apply hfirst
      · apply hfirst.append (ih hlast hrest b)

namespace Ttybus

/-! ### Reading calls -/

/-- The address command, if there is one. -/
def addressCommands (h : Ttybus) (a : BitVec 32) : List Command :=
  if h.encodeAddress a = [] then [] else [h.encodeAddress a]

theorem yields_address (h : Ttybus) (a : BitVec 32) (wr : Bool) :
  ∃ wr', Yields wr (h.addressItems a) (h.addressCommands a) wr'
  := by
  by_cases hne : h.encodeAddress a = []
  · use wr
    simp only [addressItems, addressCommands, if_pos hne]
    apply yields_nil
  · obtain ⟨g, gs, hcmd, hlen, -⟩ := encodeAddress_framed hne
    use startsWrite g
    rw [addressItems, addressCommands, if_neg hne, if_neg hne, hcmd]
    apply yields_command hlen

theorem readLine_ne_nil (len cmdrd nread : ℕ) :
  (readLine len cmdrd nread).1 ≠ []
  := by
  rw [readLine]
  split <;> simp

theorem readLines_ne_nil {len cmdrd nread : ℕ} (hahead : cmdrd - nread ≤ readAhead) :
  ∀ line ∈ readLines len cmdrd nread hahead, line ≠ []
  := by
  induction cmdrd, nread, hahead using readLines.induct len with
  | case1 cmdrd nread hahead h ih =>
      rw [readLines, dif_pos h, List.forall_mem_cons]
      use readLine_ne_nil _ _ _
  | case2 cmdrd nread hahead h =>
      rw [readLines, dif_neg h]
      simp

/-- Lines of reads are read as these reads, with nothing at the newlines. -/
theorem yields_lines {lines : List (List ℕ)} (hne : ∀ line ∈ lines, line ≠ [])
    (hlen : ∀ n ∈ lines.flatten, 0 < n ∧ n ≤ 512) (inc wr : Bool)
    (hwr : lines ≠ []) :
  Yields wr
    (lines.flatMap fun line => line.map (fun nrd => .command (readcmd inc nrd)) ++ [.newline])
    (lines.flatten.map (readcmd inc)) false
  := by
  induction lines generalizing wr with
  | nil => cases hwr rfl
  | cons line lines ih =>
      rw [List.forall_mem_cons] at hne
      have hcmds : Yields wr ((line.map (readcmd inc)).map .command) (line.map (readcmd inc))
          false := by
        apply yields_commands (by simpa using hne.1)
        intro c hc
        obtain ⟨n, hn, rfl⟩ := List.mem_map.mp hc
        obtain ⟨hpos, hle⟩ := hlen n (by simp [hn])
        apply readcmd_framed hpos hle
      have hline := hcmds.append (yields_newline false)
      simp only [List.map_map, Function.comp_def] at hline
      rw [List.flatMap_cons, List.flatten_cons, List.map_append]
      by_cases hlast : lines = []
      · subst hlast
        simpa using hline
      · have hrest := ih hne.2 (fun n hn => hlen n (by simp [hn])) false hlast
        have := hline.append hrest
        simpa using this

theorem writeWords_append (h : Ttybus) (p : Bool) (buf buf' : List (BitVec 32)) :
  h.writeWords p (buf ++ buf')
    = (((h.writeWords p buf).1.writeWords p buf').1,
      (h.writeWords p buf).2 ++ ((h.writeWords p buf).1.writeWords p buf').2)
  := by
  induction buf generalizing h with
  | nil => rfl
  | cons val buf ih => simp only [List.cons_append, writeWords, ih]

/-- The blocks of a write are its words, with one newline at the end. -/
theorem writeBlocks_eq (h : Ttybus) (p : Bool) {buf : List (BitVec 32)} (hne : buf ≠ []) :
  h.writeBlocks p buf
    = ((h.writeWords p buf).1, (h.writeWords p buf).2.map .command ++ [.newline])
  := by
  induction h, buf using writeBlocks.induct p with
  | case1 => cases hne rfl
  | case2 h buf hbuf ln block ih =>
      have hsplit := writeWords_append h p (buf.take ln) (buf.drop ln)
      rw [List.take_append_drop] at hsplit
      have hunfold : h.writeBlocks p buf = ((block.1.writeBlocks p (buf.drop ln)).1,
          block.2.map .command ++ (if ln = buf.length then [.newline] else [])
            ++ (block.1.writeBlocks p (buf.drop ln)).2) := by
        conv_lhs => rw [writeBlocks, dif_neg hbuf]
      rw [hunfold]
      by_cases hlast : ln = buf.length
      · have hdrop : buf.drop ln = [] := by rw [hlast, List.drop_length]
        have hnil : block.1.writeBlocks p [] = (block.1, []) := by
          rw [writeBlocks, dif_pos rfl]
        have hall : h.writeWords p buf = block := by
          rw [hsplit, hdrop]
          simp [writeWords, block]
        rw [hdrop, hnil, if_pos hlast, hall, List.append_nil]
      · have hdrop : buf.drop ln ≠ [] := by
          intro hdrop
          have := List.drop_eq_nil_iff.mp hdrop
          have hle : ln ≤ buf.length := blockLen_le buf.length
          omega
        rw [ih hdrop, if_neg hlast, hsplit]
        simp [block]

theorem writeWords_framed (h : Ttybus) (p : Bool) (buf : List (BitVec 32)) :
  ∀ c ∈ (h.writeWords p buf).2, ∃ g gs, c = g :: gs ∧ (g :: gs).length = (cwLength g).toNat
    ∧ startsWrite g = true
  := by
  induction buf generalizing h with
  | nil => simp [writeWords]
  | cons val buf ih =>
      rw [writeWords, List.forall_mem_cons]
      use h.writeWord_framed p val, ih _

/-- The host while it writes to `a`. -/
def addressed (h : Ttybus) (a : BitVec 32) : Ttybus := { h with mLastaddr := a, mAddrSet := true }

/-- The commands of a call, as the device reads them. -/
def callCommands (h : Ttybus) : Call → List Command
  | .readv a inc len => h.addressCommands a ++ (readLens len).map (readcmd inc)
  | .writev a p buf => h.addressCommands a ++ ((h.addressed a).writeWords p buf).2 ++ [[0x2e]]

/-- What a call sends is read as its commands. -/
theorem yields_call (h : Ttybus) {c : Call} (hc : c.WellFormed) :
  Yields false (h.call c).2 (h.callCommands c) false
  := by
  cases c with
  | readv a inc len =>
      obtain ⟨wr, haddr⟩ := h.yields_address a false
      have hpos : 0 < len := hc.2
      have hlines : readLines len 0 0 (Nat.zero_le _) ≠ [] := by
        rw [readLines, dif_pos hpos]
        apply List.cons_ne_nil
      have hmem : ∀ n ∈ readLens len, 0 < n ∧ n ≤ 512 := by
        intro n hn
        rw [readLens_eq] at hn
        apply mem_blocks hn
      apply haddr.append (yields_lines (readLines_ne_nil _) hmem inc _ hlines)
  | writev a p buf =>
      obtain ⟨wr, haddr⟩ := h.yields_address a false
      have hbuf : buf ≠ [] := hc.2
      have hwords : ((h.addressed a).writeWords p buf).2 ≠ [] := by
        obtain ⟨val, buf', rfl⟩ := List.exists_cons_of_ne_nil hbuf
        apply List.cons_ne_nil
      have hblocks : (h.call (.writev a p buf)).2 = h.addressItems a
          ++ (((h.addressed a).writeWords p buf).2.map .command ++ [.newline]) := by
        rw [call, writev, ← addressed, writeBlocks_eq _ p hbuf, if_neg hbuf]
      have hwrites := yields_commands hwords ((h.addressed a).writeWords_framed p buf) wr
      rw [hblocks, callCommands, List.append_assoc]
      apply haddr.append (hwrites.append (yields_newline true))

/-- The commands of a session. -/
def sessionCommands (h : Ttybus) : List (Call × Answers) → List Command
  | [] => []
  | (c, ans) :: cs => h.callCommands c ++ ((h.call c).1.heard ans).sessionCommands cs

/-- What a session sends is read as its commands. -/
theorem yields_session (h : Ttybus) {cs : List (Call × Answers)}
    (hcs : ∀ c ∈ cs, c.1.WellFormed) :
  Yields false (h.session cs) (h.sessionCommands cs) false
  := by
  induction cs generalizing h with
  | nil => apply yields_nil
  | cons c cs ih =>
      rw [List.forall_mem_cons] at hcs
      apply (h.yields_call hcs.1).append (ih _ hcs.2)

/-! ### What the calls are meant to be -/

/-- No address command, where the address is set already, or one that moves it to `a`. -/
def IntendedAddress (h : Ttybus) (a : BitVec 32) (ws : List Codeword) : Prop :=
  (ws = [] ∧ h.mAddrSet = true ∧ a = h.mLastaddr) ∨ ∃ w, ws = [w] ∧ h.MovesAddress a w

/-- The codewords a call is meant to be: at most one address command, and one read for each
read command, of `len` words together; or one write for each word and an end of write. -/
def IntendedCall (h : Ttybus) : Call → List Codeword → Prop
  | .readv a inc len, ws => ∃ addr reads, ws = addr ++ reads ∧ h.IntendedAddress a addr
      ∧ List.Forall₂ (IsReadOf inc) (readLens len) reads
      ∧ (reads.map fun w => w.readLen.toNat).sum = len
  | .writev a p buf, ws => ∃ addr writes last, ws = addr ++ (writes ++ [last])
      ∧ h.IntendedAddress a addr ∧ List.Forall₂ (IsWriteOf p) buf writes
      ∧ last.isEndOfWrite = true

/-- The codewords a session is meant to be. -/
def Intended (h : Ttybus) : List (Call × Answers) → List Codeword → Prop
  | [], ws => ws = []
  | (c, ans) :: cs, ws => ∃ ws₁ ws₂, ws = ws₁ ++ ws₂ ∧ h.IntendedCall c ws₁
      ∧ ((h.call c).1.heard ans).Intended cs ws₂

/-- A read of which the last eight words are asked for from one address. -/
def Call.ReadsEightInPlace : Call → Prop
  | readv _ inc len => inc = false ∧ len % 512 = 8
  | writev .. => False

instance (c : Call) : Decidable c.ReadsEightInPlace := by
  cases c <;> simp only [Call.ReadsEightInPlace] <;> infer_instance

variable {t : Table} {h : Ttybus} {raw : List Codeword}

theorem intendedAddress_out (hsync : Synced t h) {a : BitVec 32} (ha : a.extractLsb' 0 2 = 0#2)
    (hraw : List.Forall₂ Carries raw (h.addressCommands a)) :
  h.IntendedAddress a (t.outAll raw) ∧ Synced (t.nextAll raw) h
  := by
  by_cases hne : h.encodeAddress a = []
  · rw [addressCommands, if_pos hne] at hraw
    cases hraw
    constructor
    · left
      rcases h.encodeAddress_cases a with ⟨-, hset, hlast⟩ | hfull | ⟨j, -, -, heq, -⟩
        | ⟨j, -, -, heq, -⟩
      · exact ⟨rfl, hset, hlast⟩
      · rw [hfull] at hne
        cases hne
      · rw [heq] at hne
        cases hne
      · rw [heq] at hne
        cases hne
    · apply hsync
  · obtain ⟨g, gs, hcmd, -, -, hkind⟩ := encodeAddress_framed hne
    rw [addressCommands, if_neg hne] at hraw
    cases hraw with
    | @cons w _ raw _ hw hnil =>
        cases hnil
        constructor
        · right
          use t.out w, rfl
          apply out_encodeAddress t ha hne hw
        · apply hsync.next
          rw [hcmd] at hw
          have h0 : group w 0 = g := hw 0 (Nat.zero_lt_succ _)
          rw [isFullWrite_group, h0, beq_eq_false_iff_ne]
          apply hkind

/-- Reads are let out as reads, unless one is of eight words from one address. -/
theorem reads_out (hsync : Synced t h) {inc : Bool} {ns : List ℕ}
    (hns : ∀ n ∈ ns, (0 < n ∧ n ≤ 512) ∧ ¬ (inc = false ∧ n = 8))
    (hraw : List.Forall₂ Carries raw (ns.map (readcmd inc))) :
  List.Forall₂ (IsReadOf inc) ns (t.outAll raw) ∧ Synced (t.nextAll raw) h
  := by
  induction ns generalizing t raw with
  | nil =>
      cases hraw
      exact ⟨List.Forall₂.nil, hsync⟩
  | cons n ns ih =>
      rw [List.forall_mem_cons] at hns
      obtain ⟨⟨⟨hpos, hle⟩, hne⟩, hrest⟩ := hns
      cases hraw with
      | @cons w _ raw _ hw hraw =>
          have hnext : Synced (t.next w) h := by
            obtain ⟨g, gs, hcmd, -, hstart⟩ := @readcmd_framed inc n hpos hle
            rw [hcmd] at hw
            have h0 : group w 0 = g := hw 0 (Nat.zero_lt_succ _)
            apply hsync.next
            apply isFullWrite_of_startsWrite
            rw [h0, hstart]
          obtain ⟨hreads, hsync'⟩ := ih hnext hrest hraw
          exact ⟨List.Forall₂.cons (out_readcmd t hpos hle hne hw) hreads, hsync'⟩

theorem lens_of_reads {inc : Bool} {ns : List ℕ} {ws : List Codeword}
    (h : List.Forall₂ (IsReadOf inc) ns ws) :
  (ws.map fun w => w.readLen.toNat) = ns
  := by
  induction h with
  | nil => rfl
  | cons hread _ ih => rw [List.map_cons, hread.2.2, ih]

/-- Words are let out as writes of these words. -/
theorem writes_out (hsync : Synced t h) {p : Bool} {buf : List (BitVec 32)}
    (hraw : List.Forall₂ Carries raw (h.writeWords p buf).2) :
  List.Forall₂ (IsWriteOf p) buf (t.outAll raw)
    ∧ Synced (t.nextAll raw) (h.writeWords p buf).1
  := by
  induction buf generalizing t h raw with
  | nil =>
      cases hraw
      exact ⟨List.Forall₂.nil, hsync⟩
  | cons val buf ih =>
      rw [writeWords] at hraw
      cases hraw with
      | @cons w _ raw _ hw hraw =>
          obtain ⟨hwrite, hnext⟩ := out_writeWord hsync hw
          obtain ⟨hwrites, hsync'⟩ := ih hnext hraw
          exact ⟨List.Forall₂.cons hwrite hwrites, hsync'⟩

/-- A list of codewords carrying the groups of two lists of commands splits between
them. -/
theorem split_carries {cmds cmds' : List Command}
    (hraw : List.Forall₂ Carries raw (cmds ++ cmds')) :
  ∃ raw₁ raw₂, raw = raw₁ ++ raw₂ ∧ List.Forall₂ Carries raw₁ cmds
    ∧ List.Forall₂ Carries raw₂ cmds'
  := by
  use raw.take cmds.length, raw.drop cmds.length
  exact ⟨(List.take_append_drop _ _).symm, List.forall₂_take_append _ _ _ hraw,
    List.forall₂_drop_append _ _ _ hraw⟩

/-- A call comes out as it is meant to be. -/
theorem intendedCall_out (hsync : Synced t h) {c : Call} (hc : c.WellFormed)
    (hok : ¬ c.ReadsEightInPlace) (hraw : List.Forall₂ Carries raw (h.callCommands c)) :
  h.IntendedCall c (t.outAll raw) ∧ Synced (t.nextAll raw) (h.call c).1
  := by
  cases c with
  | readv a inc len =>
      obtain ⟨raw₁, raw₂, rfl, haddr, hreads⟩ := split_carries hraw
      obtain ⟨haddr, hsync⟩ := intendedAddress_out hsync hc.1 haddr
      have hns : ∀ n ∈ readLens len, (0 < n ∧ n ≤ 512) ∧ ¬ (inc = false ∧ n = 8) := by
        intro n hn
        rw [readLens_eq] at hn
        use mem_blocks hn
        rintro ⟨hinc, rfl⟩
        apply hok ⟨hinc, (eight_mem_blocks len).mp hn⟩
      obtain ⟨hreads, hsync⟩ := reads_out hsync hns hreads
      rw [Table.outAll_append, Table.nextAll_append]
      refine ⟨⟨_, _, rfl, haddr, hreads, ?_⟩, hsync⟩
      rw [lens_of_reads hreads, readLens_eq, sum_blocks]
  | writev a p buf =>
      rw [callCommands, List.append_assoc] at hraw
      obtain ⟨raw₁, raw', rfl, haddr, hraw⟩ := split_carries hraw
      obtain ⟨raw₂, raw₃, rfl, hwords, hend⟩ := split_carries hraw
      obtain ⟨haddr, hsync⟩ := intendedAddress_out hsync hc.1 haddr
      have haddressed : Synced (t.nextAll raw₁) (h.addressed a) := ⟨hsync.wrAddr, hsync.tbl⟩
      obtain ⟨hwrites, hsync⟩ := writes_out haddressed hwords
      cases hend with
      | @cons w _ raw _ hw hnil =>
          cases hnil
          have h0 : group w 0 = 0x2e#6 := hw 0 (Nat.zero_lt_succ _)
          have hcall : (h.call (.writev a p buf)).1 = ((h.addressed a).writeWords p buf).1 := by
            rw [call, writev, ← addressed, writeBlocks_eq _ p hc.2]
          rw [Table.outAll_append, Table.outAll_append, Table.nextAll_append,
            Table.nextAll_append, hcall]
          refine ⟨⟨_, _, _, rfl, haddr, hwrites, ?_⟩, ?_⟩
          · rw [Table.out_isEndOfWrite, h0]
            rfl
          · apply hsync.next
            rw [isFullWrite_group, h0]
            decide

/-- A session comes out as it is meant to be. -/
theorem intended_out (hsync : Synced t h) {cs : List (Call × Answers)}
    (hcs : ∀ c ∈ cs, c.1.WellFormed) (hok : ∀ c ∈ cs, ¬ c.1.ReadsEightInPlace)
    (hraw : List.Forall₂ Carries raw (h.sessionCommands cs)) :
  h.Intended cs (t.outAll raw)
  := by
  induction cs generalizing t h raw with
  | nil =>
      cases hraw
      rfl
  | cons c cs ih =>
      rw [List.forall_mem_cons] at hcs hok
      obtain ⟨raw₁, raw₂, rfl, hcall, hrest⟩ := split_carries hraw
      obtain ⟨hcall, hsync⟩ := intendedCall_out hsync hcs.1 hok.1 hcall
      have hheard : Synced (t.nextAll raw₁) ((h.call c.1).1.heard c.2) := by
        cases c.2 <;> exact ⟨hsync.wrAddr, hsync.tbl⟩
      rw [Table.outAll_append]
      exact ⟨_, _, rfl, hcall, ih hheard hcs.2 hok.2 hrest⟩

/-! ### Counting ends of writes -/

/-- A command that is read as an end of write. -/
def endsWrite (c : Command) : Bool := c.head? == some 0x2e#6

/-- A call of `writev`. -/
def Call.isWritev : Call → Bool
  | readv .. => false
  | writev .. => true

/-- The number of reads of a call that look like ends of writes. -/
def Call.badReads : Call → ℕ
  | readv _ inc len => (readLens len).countP fun n => !inc && n == 8
  | writev .. => 0

theorem Call.badReads_pos {c : Call} (hc : c.ReadsEightInPlace) :
  0 < c.badReads
  := by
  cases c with
  | readv a inc len =>
      obtain ⟨rfl, hlen⟩ := hc
      rw [badReads, List.countP_pos_iff]
      use 8
      rw [readLens_eq, eight_mem_blocks]
      use hlen
      rfl
  | writev => cases hc

theorem countP_out {cmds : List Command} (hne : ∀ c ∈ cmds, c ≠ [])
    (hraw : List.Forall₂ Carries raw cmds) :
  (t.outAll raw).countP (·.isEndOfWrite) = cmds.countP endsWrite
  := by
  induction hraw generalizing t with
  | nil => rfl
  | @cons w c raw cmds hw _ ih =>
      rw [List.forall_mem_cons] at hne
      obtain ⟨g, gs, rfl⟩ := List.exists_cons_of_ne_nil hne.1
      have h0 : group w 0 = g := hw 0 (Nat.zero_lt_succ _)
      have hend : (t.out w).isEndOfWrite = endsWrite (g :: gs) := by
        rw [Table.out_isEndOfWrite, h0]
        simp [endsWrite]
      rw [Table.outAll, List.countP_cons, List.countP_cons, ih hne.2, hend]

theorem IntendedAddress.countP {a : BitVec 32} {ws : List Codeword}
    (haddr : h.IntendedAddress a ws) :
  ws.countP (·.isEndOfWrite) = 0
  := by
  rcases haddr with ⟨rfl, -⟩ | ⟨w, rfl, hmoves⟩
  · rfl
  · have hend : w.isEndOfWrite = false := by
      rcases hmoves with ⟨habs, -⟩ | ⟨hrel, -⟩
      · apply Codeword.isEndOfWrite_of_isAbsolute habs
      · apply Codeword.isEndOfWrite_of_isRelative hrel
    simp [hend]

theorem countP_reads {inc : Bool} {ns : List ℕ} {ws : List Codeword}
    (h : List.Forall₂ (IsReadOf inc) ns ws) :
  ws.countP (·.isEndOfWrite) = 0
  := by
  induction h with
  | nil => rfl
  | cons hread _ ih => rw [List.countP_cons, ih, Codeword.isEndOfWrite_of_isRead hread.1]; rfl

theorem countP_writes {p : Bool} {buf : List (BitVec 32)} {ws : List Codeword}
    (h : List.Forall₂ (IsWriteOf p) buf ws) :
  ws.countP (·.isEndOfWrite) = 0
  := by
  induction h with
  | nil => rfl
  | cons hwrite _ ih => rw [List.countP_cons, ih, Codeword.isEndOfWrite_of_isWrite hwrite.1]; rfl

/-- An intended session has one end of write for each `writev`. -/
theorem Intended.countP {cs : List (Call × Answers)} {ws : List Codeword}
    (hws : h.Intended cs ws) :
  ws.countP (·.isEndOfWrite) = cs.countP fun c => c.1.isWritev
  := by
  induction cs generalizing h ws with
  | nil =>
      rw [Intended] at hws
      rw [hws]
      rfl
  | cons c cs ih =>
      obtain ⟨ws₁, ws₂, rfl, hcall, hrest⟩ := hws
      have hfirst : ws₁.countP (·.isEndOfWrite) = if c.1.isWritev then 1 else 0 := by
        cases hc : c.1 with
        | readv a inc len =>
            rw [hc] at hcall
            obtain ⟨addr, reads, rfl, haddr, hreads, -⟩ := hcall
            rw [List.countP_append, haddr.countP, countP_reads hreads]
            rfl
        | writev a p buf =>
            rw [hc] at hcall
            obtain ⟨addr, writes, last, rfl, haddr, hwrites, hlast⟩ := hcall
            rw [List.countP_append, List.countP_append, haddr.countP, countP_writes hwrites]
            simp [hlast, Call.isWritev]
      rw [List.countP_append, hfirst, ih hrest, List.countP_cons, Nat.add_comm]

theorem countP_addressCommands (h : Ttybus) (a : BitVec 32) :
  (h.addressCommands a).countP endsWrite = 0 ∧ ∀ d ∈ h.addressCommands a, d ≠ []
  := by
  by_cases hne : h.encodeAddress a = []
  · simp [addressCommands, hne]
  · obtain ⟨g, gs, hcmd, -, hend, -⟩ := encodeAddress_framed hne
    simp [addressCommands, hcmd, endsWrite, hend]

/-- The commands of a call have an end of write for a `writev`, and one for each bad
read. -/
theorem countP_callCommands (h : Ttybus) {c : Call} (hc : c.WellFormed) :
  (h.callCommands c).countP endsWrite = (if c.isWritev then 1 else 0) + c.badReads
    ∧ ∀ d ∈ h.callCommands c, d ≠ []
  := by
  cases c with
  | readv a inc len =>
      obtain ⟨haddr, hne⟩ := h.countP_addressCommands a
      have hread : ∀ n ∈ readLens len, endsWrite (readcmd inc n) = (!inc && n == 8)
          ∧ readcmd inc n ≠ [] := by
        intro n hn
        rw [readLens_eq] at hn
        obtain ⟨hpos, hle⟩ := mem_blocks hn
        obtain ⟨g, gs, hcmd, -⟩ := @readcmd_framed inc n hpos hle
        have hhead := @head_readcmd inc n hpos hle
        constructor
        · rw [endsWrite, Bool.eq_iff_iff, beq_iff_eq, hhead]
          simp
        · simp [hcmd]
      rw [callCommands]
      constructor
      · rw [List.countP_append, haddr, List.countP_map, Call.badReads]
        have : (readLens len).countP (endsWrite ∘ readcmd inc)
            = (readLens len).countP fun n => !inc && n == 8 := by
          apply List.countP_congr
          intro n hn
          rw [Function.comp, (hread n hn).1]
        rw [this]
        rfl
      · simp only [List.mem_append, List.mem_map]
        rintro d (hd | ⟨n, hn, rfl⟩)
        · apply hne d hd
        · apply (hread n hn).2
  | writev a p buf =>
      obtain ⟨haddr, hne⟩ := h.countP_addressCommands a
      have hframed := (h.addressed a).writeWords_framed p buf
      have hwords : ((h.addressed a).writeWords p buf).2.countP endsWrite = 0 := by
        rw [List.countP_eq_zero]
        intro c hc
        obtain ⟨g, gs, rfl, -, hstart⟩ := hframed c hc
        have hall : ∀ g : BitVec 6, startsWrite g = true → g ≠ 0x2e#6 := by decide
        simp [endsWrite, hall g hstart]
      rw [callCommands]
      constructor
      · rw [List.countP_append, List.countP_append, haddr, hwords]
        rfl
      · simp only [List.mem_append, List.mem_singleton]
        rintro d ((hd | hd) | rfl)
        · apply hne d hd
        · obtain ⟨g, gs, rfl, -⟩ := hframed d hd
          apply List.cons_ne_nil
        · apply List.cons_ne_nil

theorem countP_sessionCommands (h : Ttybus) {cs : List (Call × Answers)}
    (hcs : ∀ c ∈ cs, c.1.WellFormed) :
  (h.sessionCommands cs).countP endsWrite
      = (cs.countP fun c => c.1.isWritev) + (cs.map fun c => c.1.badReads).sum
    ∧ ∀ d ∈ h.sessionCommands cs, d ≠ []
  := by
  induction cs generalizing h with
  | nil => simp [sessionCommands]
  | cons c cs ih =>
      rw [List.forall_mem_cons] at hcs
      obtain ⟨hcount, hne⟩ := h.countP_callCommands hcs.1
      obtain ⟨hcount', hne'⟩ := ih ((h.call c.1).1.heard c.2) hcs.2
      constructor
      · rw [sessionCommands, List.countP_append, hcount, hcount', List.countP_cons, List.map_cons,
          List.sum_cons]
        omega
      · rw [sessionCommands]
        simp only [List.mem_append]
        rintro d (hd | hd)
        · apply hne d hd
        · apply hne' d hd

/-- A session that comes out as it is meant to be has no bad read. -/
theorem not_readsEightInPlace (cs : List (Call × Answers)) (hcs : ∀ c ∈ cs, c.1.WellFormed)
    (hraw : List.Forall₂ Carries raw (h.sessionCommands cs)) (hws : h.Intended cs (t.outAll raw)) :
  ∀ c ∈ cs, ¬ c.1.ReadsEightInPlace
  := by
  obtain ⟨hcount, hne⟩ := h.countP_sessionCommands hcs
  have hout := countP_out (t := t) hne hraw
  rw [hws.countP, hcount] at hout
  intro c hc hbad
  have hpos := Call.badReads_pos hbad
  have hzero : (cs.map fun c => c.1.badReads).sum = 0 := by omega
  have hnone := List.sum_eq_zero_iff_forall_eq_nat.mp hzero _ (List.mem_map_of_mem hc)
  omega

end Ttybus

end ZBasic
