import ZBasic.Clocked.Ring
import ZBasic.Clocked.Run
import ZBasic.Wbubus.Exec

/-!
# Compressing the returns to the host

`wbucompress` shortens addresses, and replaces a data word that is among the last ones
sent by how far back it is. The search through the table of the words sent is a pipeline
that runs for as long as the codeword waits for the next stage: one slot is read at a
clock, compared at the next, and found at the one after.
-/

namespace ZBasic

open Clocked

namespace Codeword

/-- `i_codword[35:33] == 3'b111`: a data word. -/
def isData (w : Codeword) : Bool := w.extractLsb' 33 3 == 7#3

/-- `i_codword[35:33] == 3'b001`: an address, in full or compressed. -/
def isAddress (w : Codeword) : Bool := w.extractLsb' 33 3 == 1#3

end Codeword

/-! ### What is done to a codeword -/

/-- `a_addrword`: addresses are shortened, other codewords stay as they are. -/
def addrword (i_codword : Codeword) : Codeword :=
  let w_addr : BitVec 32 := i_codword.extractLsb' 0 32
  let addr_zcheck0 := w_addr.extractLsb' 6 6 == 0
  let addr_zcheck1 := w_addr.extractLsb' 12 6 == 0
  let addr_zcheck2 := w_addr.extractLsb' 18 6 == 0
  let addr_zcheck3 := w_addr.extractLsb' 24 8 == 0
  if i_codword.extractLsb' 32 4 ≠ 2#4 then i_codword
  else
    match addr_zcheck3, addr_zcheck2, addr_zcheck1, addr_zcheck0 with
    | true, true, true, true => 0xc#6 ++ w_addr.extractLsb' 0 6 ++ 0#24
    | true, true, true, false => 0xd#6 ++ w_addr.extractLsb' 0 12 ++ 0#18
    | true, true, false, _ => 0xe#6 ++ w_addr.extractLsb' 0 18 ++ 0#12
    | true, false, _, _ => 0xf#6 ++ w_addr.extractLsb' 0 24 ++ 0#6
    | _, _, _, _ => i_codword

/-- `r_cword` for a data word found in the table, from the registers that tell where. -/
def tableWord (r_word : Codeword) (zmatch hmatch : Bool) (adr_hlfd : BitVec 3)
    (adr_dbld : BitVec 10) : Codeword :=
  if zmatch then 3#5 ++ r_word.extractLsb' 30 1 ++ r_word.extractLsb' 0 30
  else if hmatch then 2#2 ++ adr_hlfd ++ r_word.extractLsb' 30 1 ++ r_word.extractLsb' 0 30
  else
    1#2 ++ adr_dbld.extractLsb' 6 3 ++ r_word.extractLsb' 30 1 ++ adr_dbld.extractLsb' 0 6
      ++ r_word.extractLsb' 0 24

/-- The registers of `wbucompress`. -/
structure Wbucompress where
  awordValid : Bool
  aAddrword : Codeword
  rWord : Codeword
  tblAddr : BitVec 10
  tblFilled : Bool
  compressionTbl : BitVec 10 → BitVec 32
  rdAddr : BitVec 10
  pmatch : Bool
  dmatch : Bool
  vaddr : Bool
  cword : BitVec 32
  maddr : BitVec 10
  matched : Bool
  zmatch : Bool
  hmatch : Bool
  adrDbld : BitVec 10
  adrHlfd : BitVec 3
  rCword : Codeword
  dffaddr : BitVec 10
  addrWithinTable : Bool
  oStb : Bool

namespace Wbucompress

/-- The inputs of `wbucompress` at a clock. -/
structure Input where
  iReset : Bool
  iStb : Bool
  iCodword : Codeword
  iBusy : Bool

/-- The registers that have an initial value; the others may hold anything. -/
structure Initial (s : Wbucompress) : Prop where
  awordValid : s.awordValid = false
  tblAddr : s.tblAddr = 0
  tblFilled : s.tblFilled = false
  compressionTbl : s.compressionTbl = fun _ => 0
  rdAddr : s.rdAddr = 0
  pmatch : s.pmatch = false
  dmatch : s.dmatch = false
  vaddr : s.vaddr = false
  matched : s.matched = false
  zmatch : s.zmatch = false
  hmatch : s.hmatch = false
  dffaddr : s.dffaddr = 0
  addrWithinTable : s.addrWithinTable = true
  oStb : s.oStb = false

section Wires

variable (s : Wbucompress) (i : Input)

/-- `tbl_busy` -/
def tblBusy : Bool := s.oStb && i.iBusy

/-- `o_busy` -/
def oBusy : Bool := s.awordValid && s.tblBusy i

/-- `w_accepted` -/
def wAccepted : Bool := s.oStb && !s.tblBusy i

/-- `clear_table` -/
def clearTable : Bool := i.iReset || s.oStb && !i.iBusy && s.rCword.isAddress

/-- `w_match` -/
def wMatch : Bool := s.addrWithinTable && s.dmatch && s.rWord.isData

/-- One clock of `wbucompress`. -/
def step : Wbucompress where
  awordValid :=
    if i.iReset then false
    else if i.iStb then true
    else if !s.tblBusy i then false
    else s.awordValid
  aAddrword := if !s.awordValid || !s.tblBusy i then addrword i.iCodword else s.aAddrword
  rWord := if !s.tblBusy i then s.aAddrword else s.rWord
  tblAddr :=
    if s.clearTable i then 0
    else if s.wAccepted i && s.rCword.isData then s.tblAddr + 1
    else s.tblAddr
  tblFilled :=
    if s.clearTable i then false
    else if s.tblAddr == 0x3ff then true
    else s.tblFilled
  compressionTbl := Function.update s.compressionTbl s.tblAddr s.rWord.codData
  rdAddr :=
    if s.clearTable i then -1
    else if !s.oStb || !i.iBusy then
      s.tblAddr - (if s.oStb && s.rCword.isData then 0 else 1)
    else s.rdAddr - 1
  cword := s.compressionTbl s.rdAddr
  dmatch :=
    if !s.oStb || !i.iBusy then false
    else s.cword == s.rWord.codData && s.pmatch && !s.matched && s.vaddr
  maddr := s.dffaddr
  dffaddr := if s.clearTable i || !s.oStb || !i.iBusy then 1 else s.dffaddr + 1
  vaddr :=
    if i.iReset || !i.iBusy then false
    else 0#1 ++ s.rdAddr < BitVec.ofBool s.tblFilled ++ s.tblAddr
  addrWithinTable :=
    if i.iReset || !i.iBusy then true
    else if s.addrWithinTable then s.dffaddr ≤ 521#10
    else s.addrWithinTable
  pmatch := if i.iReset then false else s.tblBusy i
  matched :=
    if i.iReset then false
    else if !i.iBusy || !s.oStb then false
    else if !s.matched then s.wMatch
    else s.matched
  zmatch :=
    if i.iReset || (!s.oStb || !i.iBusy) || !s.pmatch then false else s.dffaddr == 2#10
  hmatch :=
    if i.iReset || (!s.oStb || !i.iBusy) || !s.pmatch then false else s.dffaddr < 11#10
  adrHlfd :=
    if !s.matched && !s.wMatch then s.maddr.extractLsb' 0 3 - 2#3 else s.adrHlfd
  adrDbld := if !s.matched && !s.wMatch then s.maddr - 10#10 else s.adrDbld
  rCword :=
    if !s.tblBusy i then s.aAddrword
    else if !s.matched && s.wMatch then tableWord s.rWord s.zmatch s.hmatch s.adrHlfd s.adrDbld
    else s.rCword
  oStb :=
    if i.iReset then false
    else if s.awordValid then true
    else if !i.iBusy then false
    else s.oStb

/-- The codeword taken in at a clock. -/
def accepted : List Codeword := if i.iStb && !s.oBusy i then [i.iCodword] else []

/-- The codeword let out at a clock. -/
def emitted : List Codeword := if s.oStb && !i.iBusy then [s.rCword] else []

/-- The codeword, before its compression, that is let out at a clock. -/
def taken : List Codeword := if s.oStb && !i.iBusy then [s.rWord] else []

/-- The codewords on their way. -/
def held : List Codeword :=
  (if s.oStb then [s.rWord] else []) ++ (if s.awordValid then [s.aAddrword] else [])

end Wires

/-- What is taken in is let out later, in order; two codewords fit in between. -/
theorem step_held (s : Wbucompress) (i : Input) (hreset : i.iReset = false) :
  s.taken i ++ (s.step i).held = s.held ++ (s.accepted i).map addrword
  := by
  cases hstb : s.oStb <;> cases ha : s.awordValid <;> cases hi : i.iStb <;>
    cases hb : i.iBusy <;> simp [taken, held, accepted, step, oBusy, tblBusy, *]

theorem held_length (s : Wbucompress) :
  s.held.length ≤ 2
  := by
  unfold held
  split <;> split <;> simp

theorem taken_length (s : Wbucompress) (i : Input) :
  (s.taken i).length = (s.emitted i).length
  := by
  unfold taken emitted
  split <;> rfl

end Wbucompress

/-! ### What the table amounts to -/

/-- The data words that can be referred to after the codeword `c` was sent, the most
recent one first: those sent in full since the last address. -/
def pastAfter (past : List (BitVec 32)) (c : Codeword) : List (BitVec 32) :=
  if c.isAddress then [] else if c.isData then c.codData :: past else past

/-- A data word as the one sent `k` words ago. -/
def reference (w : Codeword) (k : BitVec 10) : Codeword :=
  tableWord w (k == 1) (k < 10#10) (k.extractLsb' 0 3 - 2#3) (k - 10#10)

/-- The codeword `c` stands for the codeword `w` where the words `past` were sent
before. -/
inductive Encodes (past : List (BitVec 32)) (w : Codeword) : Codeword → Prop
  | plain : Encodes past w w
  | back (k : BitVec 10) : w.isData = true → 1 ≤ k.toNat → k.toNat ≤ 520 →
      past[k.toNat - 1]? = some w.codData → Encodes past w (reference w k)

/-- The codewords `cs` stand, one by one, for the codewords `ws`. -/
def EncodesAll (past : List (BitVec 32)) : List Codeword → List Codeword → Prop
  | [], [] => True
  | w :: ws, c :: cs => Encodes past w c ∧ EncodesAll (pastAfter past c) ws cs
  | _, _ => False

theorem EncodesAll.append {past : List (BitVec 32)} {ws cs ws' cs' : List Codeword}
    (h : EncodesAll past ws cs) (h' : EncodesAll (cs.foldl pastAfter past) ws' cs') :
  EncodesAll past (ws ++ ws') (cs ++ cs')
  := by
  induction ws generalizing past cs with
  | nil =>
      cases cs with
      | nil => apply h'
      | cons c cs => cases h
  | cons w ws ih =>
      cases cs with
      | nil => cases h
      | cons c cs => apply And.intro h.1 (ih h.2 h')

section Fields

variable (w : Codeword) (hmatch : Bool) (adr_hlfd : BitVec 3) (adr_dbld : BitVec 10)

theorem tableWord_last :
  (tableWord w true hmatch adr_hlfd adr_dbld).extractLsb' 30 6 = 3#5 ++ w.extractLsb' 30 1
  := by
  rw [tableWord, if_pos rfl, extract_append_high _ _ (by decide)]
  apply extract_all

theorem tableWord_near :
  (tableWord w false true adr_hlfd adr_dbld).extractLsb' 30 6
    = 2#2 ++ adr_hlfd ++ w.extractLsb' 30 1
  := by
  rw [tableWord, if_neg Bool.false_ne_true, if_pos rfl, extract_append_high _ _ (by decide)]
  apply extract_all

theorem tableWord_far :
  (tableWord w false false adr_hlfd adr_dbld).extractLsb' 30 6
    = 1#2 ++ adr_dbld.extractLsb' 6 3 ++ w.extractLsb' 30 1
  := by
  rw [tableWord, if_neg Bool.false_ne_true, if_neg Bool.false_ne_true,
    extract_append_high _ _ (by decide), extract_append_high _ _ (by decide)]
  apply extract_all

theorem tableWord_far_low :
  (tableWord w false false adr_hlfd adr_dbld).extractLsb' 24 6 = adr_dbld.extractLsb' 0 6
  := by
  rw [tableWord, if_neg Bool.false_ne_true, if_neg Bool.false_ne_true,
    extract_append_high _ _ (by decide), extract_append_low _ _ (by decide)]
  apply extract_all

end Fields

/-- A reference is neither an address nor a data word sent in full. -/
theorem tableWord_kind
    (w : Codeword) (zmatch hmatch : Bool) (adr_hlfd : BitVec 3) (adr_dbld : BitVec 10) :
  (tableWord w zmatch hmatch adr_hlfd adr_dbld).isAddress = false
    ∧ (tableWord w zmatch hmatch adr_hlfd adr_dbld).isData = false
  := by
  have htop : ∀ c : Codeword, c.extractLsb' 33 3 = (c.extractLsb' 30 6).extractLsb' 3 3 := by
    intro c
    rw [extract_extract _ (by decide)]
  simp only [Codeword.isAddress, Codeword.isData, htop]
  cases zmatch with
  | true =>
      rw [tableWord_last]
      generalize w.extractLsb' 30 1 = b
      revert b
      decide
  | false =>
      cases hmatch with
      | true =>
          rw [tableWord_near]
          generalize w.extractLsb' 30 1 = b
          revert b adr_hlfd
          decide
      | false =>
          rw [tableWord_far]
          generalize w.extractLsb' 30 1 = b
          generalize adr_dbld.extractLsb' 6 3 = d
          revert b d
          decide

/-- Only a data word that is sent in full is sent as a data word. -/
theorem Encodes.eq_of_isData
    {past : List (BitVec 32)} {w c : Codeword} (h : Encodes past w c) (hc : c.isData = true) :
  c = w
  := by
  cases h with
  | plain => rfl
  | back k => simp [reference, (tableWord_kind _ _ _ _ _).2] at hc

theorem Codeword.isData_of_isAddress {w : Codeword} (h : w.isAddress = true) :
  w.isData = false
  := by
  rw [isAddress, beq_iff_eq] at h
  simp [isData, h]

namespace Wbucompress

/-- What the registers of `wbucompress` say about the words `past` sent since the last
address. The distance `dffaddr` of the slot being read runs ahead of the search by one
clock at `cword` and by two at `dmatch`. -/
structure Inv (s : Wbucompress) (past : List (BitVec 32)) : Prop where
  recent : Recent s.compressionTbl s.tblAddr past
  tblAddr : s.tblAddr = BitVec.ofNat 10 past.length
  long : s.tblFilled = true → 1023 ≤ past.length
  filled : 1024 ≤ past.length → s.tblFilled = true
  rdAddr : s.rdAddr = s.tblAddr - s.dffaddr
  idle : s.oStb = false → s.addrWithinTable = true ∧ s.dffaddr.toNat ≤ 1
  range : s.oStb = true → s.addrWithinTable = true →
    1 ≤ s.dffaddr.toNat ∧ s.dffaddr.toNat ≤ 522
  read : s.pmatch = true → s.oStb = true ∧ (s.addrWithinTable = true →
    2 ≤ s.dffaddr.toNat ∧ s.maddr = s.dffaddr - 1
      ∧ (s.vaddr = true → past[s.dffaddr.toNat - 2]? = some s.cword))
  found : s.dmatch = true → s.oStb = true ∧ (s.addrWithinTable = true →
    3 ≤ s.dffaddr.toNat ∧ past[s.dffaddr.toNat - 3]? = some s.rWord.codData
      ∧ s.zmatch = (s.dffaddr == 3) ∧ s.hmatch = decide (s.dffaddr < 12#10)
      ∧ (s.matched = false → s.adrHlfd = (s.dffaddr - 2).extractLsb' 0 3 - 2#3
        ∧ s.adrDbld = s.dffaddr - 2 - 10#10))
  matched : s.matched = true → s.oStb = true
  raw : s.oStb = true → s.matched = false → s.rCword = s.rWord
  encodes : s.oStb = true → Encodes past s.rWord s.rCword

theorem Initial.inv {s : Wbucompress} (h : s.Initial) :
  s.Inv []
  := by
  constructor <;> simp [Recent.nil, h.tblAddr, h.tblFilled, h.rdAddr, h.dffaddr, h.oStb, h.pmatch,
    h.dmatch, h.matched, h.addrWithinTable]

variable {s : Wbucompress} {past : List (BitVec 32)} {i : Input}

/-- The words that can be referred to after a clock. -/
def pastNext (s : Wbucompress) (past : List (BitVec 32)) (i : Input) : List (BitVec 32) :=
  (s.emitted i).foldl pastAfter past

/-- What becomes of the words that can be referred to, in the terms of the table. -/
theorem pastNext_eq (h : s.Inv past) (hreset : i.iReset = false) :
  s.pastNext past i
    = if s.clearTable i then []
      else if s.wAccepted i && s.rCword.isData then s.rWord.codData :: past
      else past
  := by
  by_cases hout : s.oStb = true ∧ i.iBusy = false
  · obtain ⟨hstb, hbusy⟩ := hout
    cases hdata : s.rCword.isData with
    | true =>
        have hraw := (h.encodes hstb).eq_of_isData hdata
        rw [hraw] at hdata
        simp [pastNext, emitted, pastAfter, clearTable, wAccepted, tblBusy, *]
    | false => simp [pastNext, emitted, pastAfter, clearTable, wAccepted, tblBusy, *]
  · have hnot : (s.oStb && !i.iBusy) = false := by simpa using hout
    have hacc : s.wAccepted i = false := by
      rw [← hnot, wAccepted, tblBusy]
      cases s.oStb <;> rfl
    simp [pastNext, emitted, clearTable, hnot, hacc, hreset]

/-- The table after a clock: cleared by an address, extended by a data word sent in full,
and otherwise as it was but for the slot at its end. -/
theorem Inv.step_table (h : s.Inv past) (hreset : i.iReset = false) :
  Recent (s.step i).compressionTbl (s.step i).tblAddr (s.pastNext past i)
    ∧ (s.step i).tblAddr = BitVec.ofNat 10 (s.pastNext past i).length
    ∧ ((s.step i).tblFilled = true → 1023 ≤ (s.pastNext past i).length)
    ∧ (1024 ≤ (s.pastNext past i).length → (s.step i).tblFilled = true)
  := by
  have hlast : s.tblAddr = 0x3ff ↔ past.length % 1024 = 1023 := by
    rw [h.tblAddr, ← BitVec.toNat_inj]
    simp
  have hlong := h.long
  have hfilled := h.filled
  rw [pastNext_eq h hreset]
  simp only [step]
  cases hclear : s.clearTable i with
  | true =>
      refine ⟨Recent.nil _ _, rfl, ?_, ?_⟩ <;> simp
  | false =>
      cases hpush : s.wAccepted i && s.rCword.isData with
      | true =>
          refine ⟨h.recent.push s.rWord.codData, ?_, ?_, ?_⟩
          · simp [h.tblAddr, BitVec.ofNat_add]
          · simp
            grind
          · simp
            grind
      | false =>
          refine ⟨h.recent.update s.rWord.codData, h.tblAddr, ?_, ?_⟩
          · simp
            grind
          · simp
            grind

/-- While the codeword does not wait the search starts over, and the next codeword, if
there is one, is to be sent as it is. -/
theorem Inv.step_start (h : s.Inv past) (hreset : i.iReset = false) (hbusy : s.tblBusy i = false) :
  (s.step i).Inv (s.pastNext past i)
  := by
  obtain ⟨hrecent, htbl, hlong, hfilled⟩ := h.step_table hreset
  have hfree : (!s.oStb || !i.iBusy) = true := by simpa [tblBusy] using congrArg (!·) hbusy
  have hdff : (s.step i).dffaddr = 1 := by
    simp only [step, Bool.or_assoc, hfree, Bool.or_true, if_true]
  have hwithin : (s.step i).addrWithinTable = true := by
    cases hb : i.iBusy with
    | false => simp [step, hb]
    | true =>
        obtain ⟨hin, hle⟩ := h.idle (by simpa [hb] using hfree)
        simp [step, hb, hreset, hin, BitVec.le_def]
        omega
  have hpmatch : (s.step i).pmatch = false := by simp [step, hbusy]
  have hdmatch : (s.step i).dmatch = false := by simp [step, hfree]
  have hmatched : (s.step i).matched = false := by
    have hfree' : (!i.iBusy || !s.oStb) = true := by rw [Bool.or_comm, hfree]
    simp [step, hreset, hfree']
  have hword : (s.step i).rCword = (s.step i).rWord := by simp [step, hbusy]
  constructor
  · apply hrecent
  · apply htbl
  · apply hlong
  · apply hfilled
  · rw [hdff]
    have hacc : s.wAccepted i = s.oStb := by simp [wAccepted, hbusy]
    simp only [step, hfree, hacc]
    cases s.clearTable i <;> cases s.oStb && s.rCword.isData <;> simp
  · intro _
    rw [hwithin, hdff]
    simp
  · intro _ _
    rw [hdff]
    simp
  · rw [hpmatch]
    simp
  · rw [hdmatch]
    simp
  · rw [hmatched]
    simp
  · intro _ _
    apply hword
  · intro _
    rw [hword]
    apply Encodes.plain

/-- A slot within reach whose address is valid holds one of the words sent. -/
theorem Inv.slot (h : s.Inv past) (hle : 1 ≤ s.dffaddr.toNat) (hge : s.dffaddr.toNat ≤ 522)
    (hvalid : 0#1 ++ s.rdAddr < BitVec.ofBool s.tblFilled ++ s.tblAddr) :
  past[s.dffaddr.toNat - 1]? = some (s.compressionTbl s.rdAddr)
  := by
  have hlen : s.dffaddr.toNat ≤ past.length := by
    have hlong := h.long
    have hfilled := h.filled
    have hrd := congrArg BitVec.toNat h.rdAddr
    rw [h.tblAddr, BitVec.toNat_sub, BitVec.toNat_ofNat] at hrd
    rw [h.tblAddr, BitVec.lt_def, BitVec.toNat_append, BitVec.toNat_append] at hvalid
    cases hf : s.tblFilled with
    | true =>
        have := hlong hf
        omega
    | false =>
        simp [hf] at hvalid hfilled
        omega
  rw [List.getElem?_eq_getElem (by omega)]
  congr 1
  have hslot := h.recent (s.dffaddr.toNat - 1) _ (List.getElem?_eq_getElem (by omega)) (by omega)
  rw [← hslot, h.rdAddr, Nat.sub_add_cancel hle, BitVec.ofNat_toNat, BitVec.setWidth_eq]

theorem stb_of_tblBusy (hbusy : s.tblBusy i = true) :
  s.oStb = true ∧ i.iBusy = true
  := by simpa [tblBusy] using hbusy

/-- A search that stays within reach after a clock was within reach before it. -/
theorem Inv.search_range (h : s.Inv past) (hreset : i.iReset = false)
    (hbusy : s.tblBusy i = true) (hwithin : (s.step i).addrWithinTable = true) :
  s.addrWithinTable = true ∧ 1 ≤ s.dffaddr.toNat ∧ s.dffaddr.toNat ≤ 521
    ∧ (s.dffaddr + 1).toNat = s.dffaddr.toNat + 1
  := by
  obtain ⟨hstb, hb⟩ := stb_of_tblBusy hbusy
  obtain ⟨hin, hle⟩ : s.addrWithinTable = true ∧ s.dffaddr ≤ 521#10 := by
    simpa [step, hreset, hb] using hwithin
  obtain ⟨hge, -⟩ := h.range hstb hin
  rw [BitVec.le_def] at hle
  refine ⟨hin, hge, hle, ?_⟩
  rw [BitVec.toNat_add]
  apply Nat.mod_eq_of_lt
  simp at hle ⊢
  omega

/-- The word compared at a clock is one of the words sent. -/
theorem Inv.search_found (h : s.Inv past) (hreset : i.iReset = false)
    (hbusy : s.tblBusy i = true) (hd : (s.step i).dmatch = true)
    (hwithin : (s.step i).addrWithinTable = true) :
  s.pmatch = true ∧ s.matched = false ∧ 2 ≤ s.dffaddr.toNat ∧ s.maddr = s.dffaddr - 1
    ∧ past[s.dffaddr.toNat - 2]? = some s.rWord.codData
  := by
  obtain ⟨hstb, hb⟩ := stb_of_tblBusy hbusy
  obtain ⟨hin, -⟩ := h.search_range hreset hbusy hwithin
  obtain ⟨⟨⟨hword, hp⟩, hm⟩, hv⟩ :
      ((s.cword = s.rWord.codData ∧ s.pmatch = true) ∧ s.matched = false) ∧ s.vaddr = true := by
    simpa [step, hstb, hb] using hd
  obtain ⟨hge, hmaddr, hpast⟩ := (h.read hp).2 hin
  refine ⟨hp, hm, hge, hmaddr, ?_⟩
  rw [← hword]
  apply hpast hv

/-- A match is sent as a reference to the word it was found at. -/
theorem Inv.search_encodes (h : s.Inv past) (hm : s.matched = false) (hw : s.wMatch = true) :
  Encodes past s.rWord (tableWord s.rWord s.zmatch s.hmatch s.adrHlfd s.adrDbld)
  := by
  obtain ⟨⟨hin, hd⟩, hdata⟩ :
      (s.addrWithinTable = true ∧ s.dmatch = true) ∧ s.rWord.isData = true := by
    simpa [wMatch] using hw
  obtain ⟨hstb, hreach⟩ := h.found hd
  obtain ⟨hge, hpast, hz, hh, hadr⟩ := hreach hin
  obtain ⟨hhlfd, hdbld⟩ := hadr hm
  obtain ⟨-, hle⟩ := h.range hstb hin
  have hk : (s.dffaddr - 2).toNat = s.dffaddr.toNat - 2 := by
    rw [BitVec.toNat_sub]
    simp
    omega
  have hone : (s.dffaddr == 3) = (s.dffaddr - 2 == 1) := by
    rw [Bool.eq_iff_iff, beq_iff_eq, beq_iff_eq]
    bv_omega
  have hten : decide (s.dffaddr < 12#10) = decide (s.dffaddr - 2 < 10#10) := by
    rw [decide_eq_decide]
    bv_omega
  rw [hz, hh, hhlfd, hdbld, hone, hten]
  apply Encodes.back (s.dffaddr - 2) hdata (by omega) (by omega)
  rw [hk, Nat.sub_sub]
  apply hpast

/-- While the codeword waits the search goes on. -/
theorem Inv.step_search (h : s.Inv past) (hreset : i.iReset = false)
    (hbusy : s.tblBusy i = true) :
  (s.step i).Inv (s.pastNext past i)
  := by
  obtain ⟨hstb, hb⟩ := stb_of_tblBusy hbusy
  have htable := h.step_table hreset
  have hpast : s.pastNext past i = past := by simp [pastNext, emitted, hb]
  have hdff : (s.step i).dffaddr = s.dffaddr + 1 := by simp [step, clearTable, hreset, hstb, hb]
  have hstb' : (s.step i).oStb = true := by simp [step, hreset, hstb, hb]
  rw [hpast] at htable ⊢
  obtain ⟨hrecent, htbl, hlong, hfilled⟩ := htable
  constructor
  · apply hrecent
  · apply htbl
  · apply hlong
  · apply hfilled
  · rw [hdff]
    have hrd : (s.step i).rdAddr = s.rdAddr - 1 := by simp [step, clearTable, hreset, hstb, hb]
    have hend : (s.step i).tblAddr = s.tblAddr := by
      simp [step, clearTable, wAccepted, hreset, hb, hbusy]
    rw [hrd, hend, h.rdAddr, sub_sub]
  · simp [hstb']
  · intro _ hwithin
    obtain ⟨-, hge, hle, hsucc⟩ := h.search_range hreset hbusy hwithin
    rw [hdff]
    omega
  · intro _
    refine ⟨hstb', ?_⟩
    intro hwithin
    obtain ⟨-, hge, hle, hsucc⟩ := h.search_range hreset hbusy hwithin
    rw [hdff, hsucc]
    refine ⟨by omega, by simp [step], ?_⟩
    intro hv
    apply h.slot hge (by omega)
    simpa [step, hreset, hb] using hv
  · intro hd
    refine ⟨hstb', ?_⟩
    intro hwithin
    obtain ⟨hp, hm, hge, hmaddr, hfound⟩ := h.search_found hreset hbusy hd hwithin
    obtain ⟨-, -, hle, hsucc⟩ := h.search_range hreset hbusy hwithin
    have hback : s.dffaddr.toNat + 1 - 3 = s.dffaddr.toNat - 2 := by omega
    have hword : (s.step i).rWord = s.rWord := by simp [step, hbusy]
    rw [hdff, hsucc, hback, hword]
    refine ⟨by omega, hfound, ?_, ?_, ?_⟩
    · have hz : (s.step i).zmatch = (s.dffaddr == 2#10) := by simp [step, hreset, hstb, hb, hp]
      rw [hz, Bool.eq_iff_iff, beq_iff_eq, beq_iff_eq]
      bv_omega
    · have hh : (s.step i).hmatch = decide (s.dffaddr < 11#10) := by
        simp [step, hreset, hstb, hb, hp]
      rw [hh, decide_eq_decide]
      bv_omega
    · intro hm'
      have hw : s.wMatch = false := by simpa [step, hreset, hb, hstb, hm] using hm'
      have hprev : s.dffaddr + 1 - 2 = s.dffaddr - 1 := by bv_omega
      simp only [step, hm, hw, hmaddr, hprev]
      apply And.intro rfl rfl
  · intro _
    apply hstb'
  · intro _ hm
    obtain ⟨hm, hw⟩ : s.matched = false ∧ s.wMatch = false := by
      simpa [step, hreset, hb, hstb] using hm
    simp [step, hbusy, hm, hw, h.raw hstb hm]
  · intro _
    cases hw : !s.matched && s.wMatch with
    | true =>
        obtain ⟨hm, hw'⟩ : s.matched = false ∧ s.wMatch = true := by simpa using hw
        have := h.search_encodes hm hw'
        simpa [step, hbusy, hm, hw'] using this
    | false =>
        have := h.encodes hstb
        simpa [step, hbusy, hw] using this

/-- The registers after a clock say of the words sent by then what those before it say of
the words sent before. -/
theorem Inv.step (h : s.Inv past) (hreset : i.iReset = false) :
  (s.step i).Inv (s.pastNext past i)
  := by
  cases hbusy : s.tblBusy i with
  | true => apply h.step_search hreset hbusy
  | false => apply h.step_start hreset hbusy

/-- What is let out at a clock stands for the codeword that is taken. -/
theorem Inv.emitted (h : s.Inv past) (i : Input) :
  EncodesAll past (s.taken i) (s.emitted i)
  := by
  unfold taken Wbucompress.emitted
  split
  · rename_i hout
    rw [Bool.and_eq_true] at hout
    apply And.intro (h.encodes hout.1) trivial
  · trivial

/-! ### Runs -/

section Runs

variable {s₀ : Wbucompress} {inp : ℕ → Input}

/-- The codewords taken in before clock `n`. -/
def allAccepted (s₀ : Wbucompress) (inp : ℕ → Input) : ℕ → List Codeword :=
  log fun n => (run step s₀ inp n).accepted (inp n)

/-- The codewords let out before clock `n`. -/
def allEmitted (s₀ : Wbucompress) (inp : ℕ → Input) : ℕ → List Codeword :=
  log fun n => (run step s₀ inp n).emitted (inp n)

/-- The codewords, before their compression, let out before clock `n`. -/
def allTaken (s₀ : Wbucompress) (inp : ℕ → Input) : ℕ → List Codeword :=
  log fun n => (run step s₀ inp n).taken (inp n)

theorem allTaken_length (n : ℕ) :
  (allTaken s₀ inp n).length = (allEmitted s₀ inp n).length
  := by
  induction n with
  | zero => rfl
  | succ n ih =>
      unfold allTaken allEmitted at ih ⊢
      rw [log_succ, log_succ, List.length_append, List.length_append, ih, taken_length]

/-- What was let out, and what is on its way, is what was taken in. -/
theorem allTaken_held (h₀ : s₀.Initial) (hreset : ∀ n, (inp n).iReset = false) (n : ℕ) :
  allTaken s₀ inp n ++ (run step s₀ inp n).held = (allAccepted s₀ inp n).map addrword
  := by
  have hconserves : Conserves (fun n => (run step s₀ inp n).held)
      (fun n => ((run step s₀ inp n).accepted (inp n)).map addrword)
      (fun n => (run step s₀ inp n).taken (inp n)) := by
    intro n
    apply step_held _ _ (hreset n)
  have hstart : s₀.held = [] := by simp [held, h₀.oStb, h₀.awordValid]
  have hall := hconserves.log_eq n
  rw [log_map, run_zero, hstart, List.nil_append] at hall
  apply hall

/-- What is let out stands, one by one, for the codewords taken in. -/
theorem run_encodes (h₀ : s₀.Initial) (hreset : ∀ n, (inp n).iReset = false) (n : ℕ) :
  EncodesAll [] (allTaken s₀ inp n) (allEmitted s₀ inp n)
    ∧ (run step s₀ inp n).Inv ((allEmitted s₀ inp n).foldl pastAfter [])
  := by
  induction n with
  | zero => apply And.intro trivial h₀.inv
  | succ n ih =>
      obtain ⟨hall, hinv⟩ := ih
      constructor
      · apply hall.append
        apply hinv.emitted
      · have hnext := hinv.step (hreset n)
        rw [pastNext, ← List.foldl_append] at hnext
        apply hnext

/-- How far a machine that has to let out `k` codewords still is from doing so: letting one
out weighs more than making room at the output. -/
def rank (s : Wbucompress) (k : ℕ) : ℕ := 2 * k + (if s.oStb then 0 else 1)

theorem step_rank {s : Wbucompress} {i : Input} (hreset : i.iReset = false)
    (hheld : 0 < s.held.length) {k : ℕ} (hk : 0 < k) :
  (s.step i).rank (k - (s.taken i).length) ≤ s.rank k
    ∧ (i.iBusy = false → (s.step i).rank (k - (s.taken i).length) < s.rank k)
  := by
  cases hstb : s.oStb with
  | true =>
      cases hb : i.iBusy with
      | true => simp [rank, taken, step, hreset, hstb, hb]
      | false =>
          have hone : (s.taken i).length = 1 := by simp [taken, hstb, hb]
          have hroom : (if (s.step i).oStb then 0 else 1) ≤ 1 := by split <;> decide
          simp only [rank, hone, hstb, if_true]
          constructor
          · omega
          · intro _
            omega
  | false =>
      have ha : s.awordValid = true := by
        cases ha : s.awordValid with
        | true => rfl
        | false => simp [held, hstb, ha] at hheld
      simp [rank, taken, step, hreset, hstb, ha]

/-- When the next stage is ready again and again, whatever was taken in is let out. -/
theorem eventually_emitted
    (h₀ : s₀.Initial) (hreset : ∀ n, (inp n).iReset = false)
    (hfair : ∀ n, ∃ m, n ≤ m ∧ (inp m).iBusy = false) (n : ℕ) :
  ∃ m, n ≤ m ∧ (allAccepted s₀ inp n).length ≤ (allEmitted s₀ inp m).length
  := by
  let togo m := (allAccepted s₀ inp n).length - (allTaken s₀ inp m).length
  have hnext : ∀ m, togo (m + 1) = togo m - ((run step s₀ inp m).taken (inp m)).length := by
    intro m
    rw [Nat.sub_sub, ← List.length_append]
    rfl
  have hstep : ∀ m, n ≤ m → ¬ (allAccepted s₀ inp n).length ≤ (allEmitted s₀ inp m).length →
      (run step s₀ inp (m + 1)).rank (togo (m + 1)) ≤ (run step s₀ inp m).rank (togo m)
        ∧ ((inp m).iBusy = false →
          (run step s₀ inp (m + 1)).rank (togo (m + 1)) < (run step s₀ inp m).rank (togo m)) := by
    intro m hm hgoal
    have hall := congrArg List.length (allTaken_held h₀ hreset m)
    have hmono : (allAccepted s₀ inp n).length ≤ (allAccepted s₀ inp m).length :=
      (log_mono _ hm).length_le
    rw [List.length_append, allTaken_length, List.length_map] at hall
    have hlen : (allTaken s₀ inp m).length = (allEmitted s₀ inp m).length := allTaken_length m
    have hk : 0 < togo m := Nat.sub_pos_of_lt (by omega)
    rw [hnext, run_succ]
    apply step_rank (hreset m) (by omega) hk
  apply eventually_of_fair_measure hfair (fun m => (run step s₀ inp m).rank (togo m)) n
  · intro m hm hgoal
    apply (hstep m hm hgoal).1
  · intro m hm hgoal hready
    apply (hstep m hm hgoal).2 hready

end Runs

end Wbucompress

end ZBasic
