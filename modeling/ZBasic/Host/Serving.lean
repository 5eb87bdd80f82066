import ZBasic.Host.Link
import ZBasic.Host.WriteDictionary

/-!
# Serving the host

However the codewords of the calls are spread over the clocks, the executor returns no more
data words than they ask for, and it returns an address before the first of them if the last
command before the read is an address command.
-/

namespace ZBasic

open Clocked

/-! ### What is returned -/

theorem addrword_isData (w : Codeword) :
  (addrword w).isData = w.isData
  := by
  cases hfull : w.isFullAddress with
  | true =>
      rw [Codeword.isData_of_isAddress (addrword_isAddress hfull),
        Codeword.isData_of_isAddress (Codeword.isAddress_of_isFullAddress hfull)]
  | false => rw [addrword_of_not hfull]

/-- An address comes before any data word. -/
def AddressFirst : List Codeword → Prop
  | [] => False
  | v :: vs => v.isAddress = true ∨ v.isData = false ∧ AddressFirst vs

theorem AddressFirst.append {vs : List Codeword} (h : AddressFirst vs) (ws : List Codeword) :
  AddressFirst (vs ++ ws)
  := by
  induction vs with
  | nil => cases h
  | cons v vs ih =>
      rcases h with haddr | ⟨hdata, hrest⟩
      · left
        apply haddr
      · right
        use hdata, ih hrest

/-- Words that are no data can be put in front. -/
theorem AddressFirst.after {vs ws : List Codeword} (hvs : ∀ v ∈ vs, v.isData = false)
    (h : AddressFirst ws) :
  AddressFirst (vs ++ ws)
  := by
  induction vs with
  | nil => apply h
  | cons v vs ih =>
      rw [List.forall_mem_cons] at hvs
      right
      use hvs.1, ih hvs.2

theorem AddressFirst.insert {vs ss ws : List Codeword} (hss : ∀ v ∈ ss, v.isData = false)
    (h : AddressFirst (vs ++ ws)) :
  AddressFirst (vs ++ (ss ++ ws))
  := by
  induction vs with
  | nil => apply h.after hss
  | cons v vs ih =>
      rcases h with haddr | ⟨hdata, hrest⟩
      · left
        apply haddr
      · right
        use hdata, ih hrest

/-! ### What is commanded -/

/-- The words a codeword asks for. -/
def Codeword.asks (w : Codeword) : ℕ := if w.isRead then w.readLen.toNat else 0

theorem sum_asks_of_not_isRead {ws : List Codeword} (h : ∀ w ∈ ws, w.isRead = false) :
  (ws.map (·.asks)).sum = 0
  := by
  rw [List.sum_eq_zero_iff_forall_eq_nat]
  intro n hn
  obtain ⟨w, hw, rfl⟩ := List.mem_map.mp hn
  rw [Codeword.asks, h w hw, if_neg Bool.false_ne_true]

/-- The next read, if there is one, returns its address first, `fresh` telling whether it
would without further commands. -/
def Announced (fresh : Bool) : List Codeword → Prop
  | [] => True
  | w :: ws =>
      if w.isRead then fresh = true
      else Announced (!w.isWrite && (fresh || !w.getLsbD 35)) ws

theorem announced_of_not_isRead {fresh : Bool} {ws : List Codeword}
    (h : ∀ w ∈ ws, w.isRead = false) :
  Announced fresh ws
  := by
  induction ws generalizing fresh with
  | nil => trivial
  | cons w ws ih =>
      rw [List.forall_mem_cons] at h
      rw [Announced, h.1]
      apply ih h.2

/-- Without writes in between a new address stays new. -/
theorem announced_of_not_isWrite {ws : List Codeword} (h : ∀ w ∈ ws, w.isWrite = false) :
  Announced true ws
  := by
  induction ws with
  | nil => trivial
  | cons w ws ih =>
      rw [List.forall_mem_cons] at h
      rw [Announced, h.1]
      split
      · rfl
      · apply ih h.2

/-- An address command makes the address new. -/
theorem announced_address {fresh : Bool} {ws rs : List Codeword} {a : Codeword}
    (hws : ∀ w ∈ ws, w.isRead = false) (ha : a.isRead = false ∧ a.isWrite = false)
    (htop : a.getLsbD 35 = false) (hrs : ∀ w ∈ rs, w.isWrite = false) :
  Announced fresh (ws ++ a :: rs)
  := by
  induction ws generalizing fresh with
  | nil =>
      rw [List.nil_append, Announced, ha.1, ha.2, htop]
      simpa using announced_of_not_isWrite hrs
  | cons w ws ih =>
      rw [List.forall_mem_cons] at hws
      rw [List.cons_append, Announced, hws.1]
      apply ih hws.2

/-! ### The commands of a call -/

variable {t : Table} {raw : List Codeword}

theorem group_head {w : Codeword} {g : BitVec 6} {gs : Command} (h : Carries w (g :: gs)) :
  group w 0 = g
  := h 0 (Nat.zero_lt_succ _)

/-- Each codeword let out comes from a command. -/
theorem forall_outAll {cmds : List Command} {P : Codeword → Prop}
    (hraw : List.Forall₂ Carries raw cmds)
    (h : ∀ (t : Table), ∀ c ∈ cmds, ∀ w, Carries w c → P (t.out w)) :
  ∀ w ∈ t.outAll raw, P w
  := by
  induction hraw generalizing t with
  | nil => simp [Table.outAll]
  | @cons w c raw cmds hw _ ih =>
      rw [Table.outAll, List.forall_mem_cons]
      constructor
      · apply h t c (by simp) w hw
      · apply ih
        intro t' c' hc'
        apply h t' c' (List.mem_cons_of_mem _ hc')

/-- A codeword that comes from an address command. -/
theorem address_out {h : Ttybus} {a : BitVec 32} (ha : a.extractLsb' 0 2 = 0#2) {c : Command}
    (hc : c ∈ h.addressCommands a) {w : Codeword} (hw : Carries w c) :
  ((t.out w).isRead = false ∧ (t.out w).isWrite = false) ∧ (t.out w).getLsbD 35 = false
  := by
  have hne : h.encodeAddress a ≠ [] := by
    intro hnil
    rw [Ttybus.addressCommands, if_pos hnil] at hc
    cases hc
  rw [Ttybus.addressCommands, if_neg hne, List.mem_singleton] at hc
  rw [hc] at hw
  rcases Ttybus.out_encodeAddress t ha hne hw with ⟨habs, -⟩ | ⟨hrel, -⟩
  · refine ⟨⟨Codeword.isRead_of_isAbsolute habs, Ttybus.isWrite_of_isAbsolute habs⟩, ?_⟩
    rw [Codeword.isAbsolute, beq_iff_eq] at habs
    have hbit := congrArg (·.getLsbD 3) habs
    simpa using hbit
  · refine ⟨⟨Codeword.isRead_of_isRelative hrel, Ttybus.isWrite_of_isRelative hrel⟩, ?_⟩
    rw [Codeword.isRelative, beq_iff_eq] at hrel
    have hbit := congrArg (·.getLsbD 2) hrel
    simpa using hbit

/-- A codeword that comes from a command to read `n` words. -/
theorem read_out {inc : Bool} {n : ℕ} (hpos : 0 < n) (hle : n ≤ 512) {w : Codeword}
    (hw : Carries w (Ttybus.readcmd inc n)) :
  (t.out w).isWrite = false ∧ (t.out w).asks ≤ n
    ∧ ((t.out w).isRead = true → (t.out w).readLen ≠ 0)
  := by
  by_cases hbad : inc = false ∧ n = 8
  · obtain ⟨g, gs, hcmd, -, -⟩ := @Ttybus.readcmd_framed inc n hpos hle
    have hhead := (@Ttybus.head_readcmd inc n hpos hle).mpr hbad
    rw [hcmd, List.head?_cons, Option.some_inj] at hhead
    rw [hcmd, hhead] at hw
    obtain ⟨hwrite, hread⟩ := t.out_kind w
    rw [group_head hw] at hwrite hread
    have hno : (t.out w).isRead = false := hread
    refine ⟨hwrite, ?_, ?_⟩
    · rw [Codeword.asks, hno, if_neg Bool.false_ne_true]
      apply Nat.zero_le
    · rw [hno]
      simp
  · obtain ⟨hread, -, hlen⟩ := Ttybus.out_readcmd t hpos hle hbad hw
    refine ⟨?_, ?_, ?_⟩
    · cases hwrite : (t.out w).isWrite with
      | true => simp [Codeword.isRead_of_isWrite hwrite] at hread
      | false => rfl
    · rw [Codeword.asks, hread, if_pos rfl, hlen]
    · intro _ hzero
      rw [hzero] at hlen
      simp at hlen
      omega

/-- The reads of a call ask for the words of the call. -/
theorem reads_out {inc : Bool} {ns : List ℕ} (hns : ∀ n ∈ ns, 0 < n ∧ n ≤ 512)
    (hraw : List.Forall₂ Carries raw (ns.map (Ttybus.readcmd inc))) :
  (∀ w ∈ t.outAll raw, w.isWrite = false ∧ (w.isRead = true → w.readLen ≠ 0))
    ∧ ((t.outAll raw).map (·.asks)).sum ≤ ns.sum
  := by
  induction ns generalizing t raw with
  | nil =>
      cases hraw
      simp [Table.outAll]
  | cons n ns ih =>
      rw [List.forall_mem_cons] at hns
      cases hraw with
      | @cons w _ raw _ hw hraw =>
          obtain ⟨hwrite, hasks, hlen⟩ := read_out (t := t) hns.1.1 hns.1.2 hw
          obtain ⟨hrest, hsum⟩ := ih (t := t.next w) hns.2 hraw
          rw [Table.outAll, List.forall_mem_cons, List.map_cons, List.sum_cons, List.sum_cons]
          refine ⟨⟨⟨hwrite, hlen⟩, hrest⟩, by omega⟩

/-- A `writev` reads nothing. -/
theorem writev_out {h : Host} {a : BitVec 32} {p : Bool} {buf : List (BitVec 32)}
    (hraw : List.Forall₂ Carries raw (h.commands (.writev a p buf))) :
  ∀ w ∈ t.outAll raw, w.isRead = false
  := by
  apply forall_outAll (P := fun w => w.isRead = false) hraw
  intro t' c hc w hw
  unfold Host.commands at hc
  split at hc
  · rename_i ha
    cases buf with
    | nil => cases hc
    | cons val buf =>
        simp only [Ttybus.callCommands, List.mem_append, List.mem_singleton] at hc
        rcases hc with (haddr | hwrite) | hend
        · apply (address_out ha haddr hw).1.1
        · obtain ⟨g, gs, rfl, -, hg⟩ := (h.tty.addressed a).writeWords_framed p (val :: buf) c hwrite
          rw [(t'.out_kind w).2, group_head hw]
          revert hg
          clear * -
          revert g
          decide
        · rw [hend] at hw
          rw [(t'.out_kind w).2, group_head hw]
          rfl
  · cases hc

/-- The codewords of a `readv`: an address command, if there is one, and its reads. -/
theorem readv_out {h : Host} {a : BitVec 32} {inc : Bool} {len : ℕ}
    (hc : Host.Accepts (.readv a inc len))
    (hraw : List.Forall₂ Carries raw (h.commands (.readv a inc len))) :
  ∃ as rs, t.outAll raw = as ++ rs
    ∧ (∀ w ∈ rs, w.isWrite = false ∧ (w.isRead = true → w.readLen ≠ 0))
    ∧ (rs.map (·.asks)).sum ≤ len
    ∧ (∀ w ∈ as, (w.isRead = false ∧ w.isWrite = false) ∧ w.getLsbD 35 = false)
    ∧ (h.Addresses (.readv a inc len) → ∃ w, as = [w])
  := by
  rw [Host.commands, if_pos hc] at hraw
  obtain ⟨raw₁, raw₂, rfl, haddr, hreads⟩ := Ttybus.split_carries hraw
  have hns : ∀ n ∈ Ttybus.readLens len, 0 < n ∧ n ≤ 512 := by
    intro n hn
    rw [Ttybus.readLens_eq] at hn
    apply mem_blocks hn
  obtain ⟨hkinds, hsum⟩ := reads_out (t := t.nextAll raw₁) hns hreads
  rw [Ttybus.readLens_eq, sum_blocks] at hsum
  use t.outAll raw₁, (t.nextAll raw₁).outAll raw₂, t.outAll_append raw₁ raw₂, hkinds, hsum
  constructor
  · apply forall_outAll
      (P := fun w => (w.isRead = false ∧ w.isWrite = false) ∧ w.getLsbD 35 = false) haddr
    intro t' c hcmd w hw
    apply address_out hc.1 hcmd hw
  · intro hne
    change h.tty.encodeAddress a ≠ [] at hne
    rw [Ttybus.addressCommands, if_neg hne] at haddr
    cases haddr with
    | @cons w _ raw _ _ hnil =>
        cases hnil
        use t.out w
        rfl

/-! ### A clock of the executor -/

namespace Link

/-- The next read, if there is one, returns its address first. -/
def Ready (s : Link) : Prop := s.runwb.owed = 0 ∧ Announced s.runwb.announces s.commands

/-- What is known of the executor and its commands. -/
structure Serving (s : Link) : Prop where
  phase : s.runwb.Idle ∨ s.runwb.Reading ∨ s.runwb.Writing
  asked : s.runwb.Reading → s.asked = s.runwb.rAcksNeeded.toNat
  offered : s.runwb.Writing → s.runwb.oBusy = false →
    s.offered = true ∧ ∃ w ws, s.commands = w :: ws ∧ w.isWrite = true
  lens : ∀ w ∈ s.commands, w.isRead = true → w.readLen ≠ 0

/-- What a clock of the executor does. -/
structure Served (s s' : Link) : Prop where
  serving : s'.Serving
  returns : ∀ w ∈ s'.runwb.returned, w.IsReturn
  owed : s'.runwb.returned.countP (·.isData) + s'.runwb.owed + (s'.commands.map (·.asks)).sum
    ≤ s.runwb.owed + (s.commands.map (·.asks)).sum
  ready : s.Ready → (∀ w ∈ s'.runwb.returned, w.isData = false) ∧ s'.Ready
    ∨ ∃ a, s'.runwb.returned = [a] ∧ a.isFullAddress = true

variable {s : Link} {i : Input}

theorem idle_not_reading (h : s.runwb.Idle) :
  ¬ s.runwb.Reading
  := by
  intro hreading
  have := hreading.wbState
  rw [h.wbState] at this
  cases this

theorem idle_not_writing (h : s.runwb.Idle) :
  ¬ s.runwb.Writing
  := by
  intro hwriting
  have := hwriting.wbState
  rw [h.wbState] at this
  cases this

theorem writing_not_reading (h : s.runwb.Writing) :
  ¬ s.runwb.Reading
  := by
  intro hreading
  have := hreading.wbState
  rw [h.wbState] at this
  cases this

theorem owed_of_idle (h : s.runwb.Idle) :
  s.runwb.owed = 0
  := by
  rw [Wbuexec.owed, h.wbState]
  rfl

theorem owed_of_writing (h : s.runwb.Writing) :
  s.runwb.owed = 0
  := by
  rw [Wbuexec.owed, h.wbState]
  rfl

theorem serving_of_idle (h : s.runwb.Idle)
    (hlens : ∀ w ∈ s.commands, w.isRead = true → w.readLen ≠ 0) :
  s.Serving
  := by
  constructor
  · left
    apply h
  · intro hreading
    cases idle_not_reading h hreading
  · intro hwriting
    cases idle_not_writing h hwriting
  · apply hlens

/-- The command offered, if it is offered. -/
theorem execInput_of_offered {w : Codeword} {ws : List Codeword} (hcommands : s.commands = w :: ws)
    (hstb : i.iStb = true) :
  (s.execInput i).iStb = true ∧ (s.execInput i).iCodword = w
  := by simp [execInput, hstb, hcommands]

theorem commands_clock_of_idle (h : s.runwb.Idle) :
  (s.clock i).commands = if i.iStb then s.commands.tail else s.commands
  := by simp [clock, Wbuexec.takes, execInput, h.oBusy]

/-- The executor waits for a command. -/
theorem Serving.clock_wait (h : s.Serving) (hidle : s.runwb.Idle) (hstb : i.iStb = false) :
  s.Served (s.clock i)
  := by
  have hstb' : (s.execInput i).iStb = false := hstb
  have hcmd : ((s.execInput i).iStb
      && ((s.execInput i).iCodword.isWrite || (s.execInput i).iCodword.isRead)) = false := by
    rw [hstb', Bool.false_and]
  have hidle' : (s.clock i).runwb.Idle := hidle.step_other rfl hcmd
  have hreturned : (s.clock i).runwb.returned = [] := by
    apply hidle.returned_step rfl
    rw [hstb', Bool.false_and]
  have hcommands : (s.clock i).commands = s.commands := by
    rw [commands_clock_of_idle hidle, hstb]
    rfl
  constructor
  · apply serving_of_idle hidle'
    rw [hcommands]
    apply h.lens
  · simp [hreturned]
  · simp [hreturned, hcommands, owed_of_idle hidle']
  · intro hready
    have hannounces : (s.clock i).runwb.announces = s.runwb.announces := by
      rw [clock, hidle.announces_step rfl hcmd, hstb', Bool.false_and, Bool.false_or]
    left
    rw [hreturned, Ready, hannounces, hcommands]
    refine ⟨by simp, owed_of_idle hidle', hready.2⟩

/-- The executor takes a command that is no transfer. -/
theorem Serving.clock_other (h : s.Serving) (hidle : s.runwb.Idle) (hstb : i.iStb = true)
    {w : Codeword} {ws : List Codeword} (hhead : s.commands = w :: ws)
    (hwrite : w.isWrite = false) (hread : w.isRead = false) :
  s.Served (s.clock i)
  := by
  obtain ⟨hstb', hword⟩ := execInput_of_offered hhead hstb
  have hcmd : ((s.execInput i).iStb
      && ((s.execInput i).iCodword.isWrite || (s.execInput i).iCodword.isRead)) = false := by
    rw [hword, hwrite, hread, Bool.or_false, Bool.and_false]
  have hidle' : (s.clock i).runwb.Idle := hidle.step_other rfl hcmd
  have hreturned : (s.clock i).runwb.returned = [] := by
    apply hidle.returned_step rfl
    rw [hword, hread, Bool.and_false]
  have hcommands : (s.clock i).commands = ws := by
    rw [commands_clock_of_idle hidle, hstb, hhead]
    rfl
  constructor
  · apply serving_of_idle hidle'
    rw [hcommands]
    intro v hv
    apply h.lens
    rw [hhead]
    apply List.mem_cons_of_mem _ hv
  · simp [hreturned]
  · simp only [hreturned, hcommands, owed_of_idle hidle', hhead, List.countP_nil, List.map_cons,
      List.sum_cons]
    omega
  · intro hready
    have hannounced := hready.2
    rw [hhead, Announced, hread, hwrite] at hannounced
    left
    rw [hreturned, Ready, hcommands]
    refine ⟨by simp, owed_of_idle hidle', ?_⟩
    rw [clock, hidle.announces_step rfl hcmd, hstb', hword, Bool.true_and, Bool.or_comm]
    apply hannounced

/-- The executor starts a write. -/
theorem Serving.clock_write (h : s.Serving) (hidle : s.runwb.Idle) (hstb : i.iStb = true)
    {w : Codeword} {ws : List Codeword} (hhead : s.commands = w :: ws)
    (hwrite : w.isWrite = true) :
  s.Served (s.clock i)
  := by
  obtain ⟨hstb', hword⟩ := execInput_of_offered hhead hstb
  have hread := Codeword.isRead_of_isWrite hwrite
  obtain ⟨hwriting, hbusy⟩ := hidle.step_write (i := s.execInput i) rfl hstb' (by rw [hword, hwrite])
  have hreturned : (s.clock i).runwb.returned = [] := by
    apply hidle.returned_step rfl
    rw [hword, hread, Bool.and_false]
  have hcommands : (s.clock i).commands = ws := by
    rw [commands_clock_of_idle hidle, hstb, hhead]
    rfl
  have howed : (s.clock i).runwb.owed = 0 := owed_of_writing hwriting
  constructor
  · constructor
    · right
      right
      apply hwriting
    · intro hreading
      cases writing_not_reading hwriting hreading
    · intro _ hfree
      rw [clock, hbusy] at hfree
      cases hfree
    · rw [hcommands]
      intro v hv
      apply h.lens
      rw [hhead]
      apply List.mem_cons_of_mem _ hv
  · simp [hreturned]
  · simp only [hreturned, hcommands, howed, hhead, List.countP_nil, List.map_cons, List.sum_cons]
    omega
  · intro hready
    have hannounced := hready.2
    rw [hhead, Announced, hread, hwrite] at hannounced
    left
    rw [hreturned, Ready, hcommands]
    refine ⟨by simp, howed, ?_⟩
    have hcyc : (s.clock i).runwb.oWbCyc = true := hwriting.oWbCyc
    rw [Wbuexec.announces, hcyc]
    apply hannounced

/-- The executor starts a read. -/
theorem Serving.clock_read (h : s.Serving) (hidle : s.runwb.Idle) (hstb : i.iStb = true)
    {w : Codeword} {ws : List Codeword} (hhead : s.commands = w :: ws)
    (hread : w.isRead = true) :
  s.Served (s.clock i)
  := by
  obtain ⟨hstb', hword⟩ := execInput_of_offered hhead hstb
  have hlen : w.readLen ≠ 0 := h.lens w (by simp [hhead]) hread
  obtain ⟨hreading, howed, hreturned⟩ := hidle.step_read (i := s.execInput i) rfl hstb'
    (by rw [hword, hread]) (by rw [hword]; apply hlen)
  have hcommands : (s.clock i).commands = ws := by
    rw [commands_clock_of_idle hidle, hstb, hhead]
    rfl
  rw [hword] at howed
  constructor
  · constructor
    · right
      left
      apply hreading
    · intro _
      have hasked : (s.clock i).asked = 0 := by simp [clock, hidle.oWbCyc]
      have hneeded : (s.clock i).runwb.rAcksNeeded = 0 := by
        simp [clock, Wbuexec.step, hidle.oWbCyc]
      rw [hasked, hneeded]
      rfl
    · intro hwriting
      cases writing_not_reading hwriting hreading
    · rw [hcommands]
      intro v hv
      apply h.lens
      rw [hhead]
      apply List.mem_cons_of_mem _ hv
  · intro v hv
    right
    left
    rw [clock, hreturned] at hv
    split at hv
    · rw [List.mem_singleton.mp hv]
      apply isFullAddress_word
    · cases hv
  · have hdata : (s.clock i).runwb.returned.countP (·.isData) = 0 := by
      rw [clock, hreturned]
      split
      · have hno := Codeword.isData_of_isAddress
          (Codeword.isAddress_of_isFullAddress (isFullAddress_word s.runwb.oWbAddr))
        simp [hno]
      · rfl
    have howed' : (s.clock i).runwb.owed = w.readLen.toNat := howed
    rw [hdata, howed', hcommands, hhead, List.map_cons, List.sum_cons, Codeword.asks, if_pos hread]
    omega
  · intro hready
    have hannounced := hready.2
    rw [hhead, Announced, if_pos hread] at hannounced
    right
    use 2#4 ++ s.runwb.oWbAddr
    rw [clock, hreturned, if_pos hannounced]
    use rfl, isFullAddress_word _

theorem commands_clock_of_busy (h : s.runwb.oBusy = true) :
  (s.clock i).commands = s.commands
  := by simp [clock, Wbuexec.takes, h]

/-- A read goes on. -/
theorem Serving.clock_reading (h : s.Serving) (hlegal : s.Legal (.clock i))
    (hreading : s.runwb.Reading) :
  s.Served (s.clock i)
  := by
  have hack : s.runwb.AckOwed (s.execInput i) := by
    intro ha
    rw [← h.asked hreading]
    apply hlegal.2.2.1 ha
  obtain ⟨howed, hnext⟩ := hreading.step (i := s.execInput i) rfl rfl hack
  have hneeded := hreading.rAcksNeeded_step (i := s.execInput i) rfl hack
  have hreturned := hreading.returned_step (i := s.execInput i) rfl rfl
  have hcommands := commands_clock_of_busy (i := i) hreading.oBusy
  constructor
  · constructor
    · rcases hnext with hnext | ⟨hnext, -⟩
      · right
        left
        apply hnext
      · left
        apply hnext
    · intro _
      have hasked := h.asked hreading
      rw [clock]
      simp only [hreading.oWbCyc, if_true]
      have hack' : (s.execInput i).iWbAck = i.iWbAck := rfl
      rw [hack'] at hneeded
      omega
    · intro hwriting
      rcases hnext with hnext | ⟨hnext, -⟩
      · cases writing_not_reading hwriting hnext
      · cases idle_not_writing hnext hwriting
    · rw [hcommands]
      apply h.lens
  · intro v hv
    left
    rw [clock, hreturned] at hv
    split at hv
    · rw [List.mem_singleton.mp hv]
      apply isData_word
    · cases hv
  · have hdata : (s.clock i).runwb.returned.countP (·.isData) = i.iWbAck.toNat := by
      rw [clock, hreturned]
      have hack' : (s.execInput i).iWbAck = i.iWbAck := rfl
      rw [hack']
      cases i.iWbAck with
      | true => simp [isData_word]
      | false => rfl
    have howed' : (s.clock i).runwb.owed + i.iWbAck.toNat = s.runwb.owed := howed
    rw [hdata, hcommands]
    omega
  · intro hready
    have hzero := hready.1
    rw [Wbuexec.owed, if_pos hreading.wbState] at hzero
    have := hreading.more
    omega

/-- During a write, only writes are taken. -/
theorem Serving.commands_clock_writing (h : s.Serving) (hlegal : s.Legal (.clock i))
    (hwriting : s.runwb.Writing) :
  (s.clock i).commands = s.commands
    ∨ ∃ w, s.commands = w :: (s.clock i).commands ∧ w.isWrite = true
  := by
  cases hbusy : s.runwb.oBusy with
  | true =>
      left
      apply commands_clock_of_busy hbusy
  | false =>
      obtain ⟨hoffered, w, ws, hhead, hwrite⟩ := h.offered hwriting hbusy
      right
      use w
      have hstb := hlegal.2.1 hoffered
      simp [clock, Wbuexec.takes, execInput, hstb, hbusy, hhead, hwrite]

/-- A write goes on. -/
theorem Serving.clock_writing (h : s.Serving) (hlegal : s.Legal (.clock i))
    (hwriting : s.runwb.Writing) :
  s.Served (s.clock i)
  := by
  have hreturned := hwriting.returned_step (i := s.execInput i) rfl rfl
  have hcommands := h.commands_clock_writing hlegal hwriting
  have hphase : (s.clock i).runwb.Writing ∨ (s.clock i).runwb.Idle :=
    hwriting.step (i := s.execInput i) rfl rfl
  have howed : (s.clock i).runwb.owed = 0 := by
    rcases hphase with hnext | hnext
    · apply owed_of_writing hnext
    · apply owed_of_idle hnext
  have hmem : ∀ w ∈ (s.clock i).commands, w ∈ s.commands := by
    intro w hw
    rcases hcommands with hsame | ⟨v, hcons, -⟩
    · rw [← hsame]
      apply hw
    · rw [hcons]
      apply List.mem_cons_of_mem _ hw
  have hstatus : ∀ w ∈ (s.clock i).runwb.returned, w.isStatus = true := by
    intro w hw
    rw [clock, hreturned] at hw
    split at hw
    · rw [List.mem_singleton.mp hw]
      apply isStatus_word
    · cases hw
  have hdata : ∀ w ∈ (s.clock i).runwb.returned, w.isData = false := by
    intro w hw
    apply (Codeword.kind_of_isStatus (hstatus w hw)).2.2
  constructor
  · constructor
    · rcases hphase with hnext | hnext
      · right
        right
        apply hnext
      · left
        apply hnext
    · intro hreading
      rcases hphase with hnext | hnext
      · cases writing_not_reading hnext hreading
      · cases idle_not_reading hnext hreading
    · intro hnext hfree
      obtain ⟨hstb, hbusy, hwrite⟩ := hwriting.step_free rfl rfl hnext hfree
      have hstb' : i.iStb = true := hstb
      obtain ⟨w, ws, hhead⟩ := List.exists_cons_of_ne_nil (hlegal.1 hstb')
      constructor
      · simp [clock, hstb', hbusy]
      · use w, ws
        rw [commands_clock_of_busy hbusy]
        rw [(execInput_of_offered hhead hstb').2] at hwrite
        use hhead, hwrite
    · intro w hw
      apply h.lens w (hmem w hw)
  · intro w hw
    right
    right
    apply hstatus w hw
  · rw [List.countP_eq_zero.mpr (by simpa using hdata), howed]
    rcases hcommands with hsame | ⟨w, hcons, -⟩
    · rw [hsame]
      omega
    · rw [hcons, List.map_cons, List.sum_cons]
      omega
  · intro hready
    left
    refine ⟨hdata, howed, ?_⟩
    have hannounced := hready.2
    have hnot : s.runwb.announces = false := by simp [Wbuexec.announces, hwriting.oWbCyc]
    have hnot' : (s.clock i).runwb.announces = false := by
      apply hwriting.announces_step rfl
    rw [hnot']
    rw [hnot] at hannounced
    rcases hcommands with hsame | ⟨w, hcons, hwrite⟩
    · rw [hsame]
      apply hannounced
    · rw [hcons, Announced, Codeword.isRead_of_isWrite hwrite, hwrite] at hannounced
      apply hannounced

/-- Whatever the executor does. -/
theorem Serving.clock (h : s.Serving) (hlegal : s.Legal (.clock i)) :
  s.Served (s.clock i)
  := by
  rcases h.phase with hidle | hreading | hwriting
  · cases hstb : i.iStb with
    | false => apply h.clock_wait hidle hstb
    | true =>
        obtain ⟨w, ws, hhead⟩ := List.exists_cons_of_ne_nil (hlegal.1 hstb)
        cases hwrite : w.isWrite with
        | true => apply h.clock_write hidle hstb hhead hwrite
        | false =>
            cases hread : w.isRead with
            | true => apply h.clock_read hidle hstb hhead hread
            | false => apply h.clock_other hidle hstb hhead hwrite hread
  · apply h.clock_reading hlegal hreading
  · apply h.clock_writing hlegal hwriting

end Link

end ZBasic
