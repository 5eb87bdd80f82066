import ZBasic.Host.Serving

/-!
# The dictionary of read words

A word that is read again is returned as a reference to the table of the words returned
since the last address, which host and device both keep. The host starts over whenever it
sends an address command, the device when it returns an address, which it does at the first
read after an address command, unless a write came in between.
-/

namespace ZBasic

open Clocked

namespace Link

variable {s : Link} {i : Input}

/-! ### What is on its way to the host -/

/-- The codewords on their way from the executor to the host, the oldest one first. -/
def stream (s : Link) : List Codeword :=
  s.wire.map Prod.fst ++ (s.packit.held ++ (s.returning ++ s.runwb.returned).map addrword)

/-- What the compressor takes at a clock, and what is left of what was returned. -/
theorem accepted_clock (hlegal : s.Legal (.clock i)) :
  ∃ ss, (∀ v ∈ ss, v.isStatus = true)
    ∧ (s.packit.accepted (s.compressInput i)).map addrword
        ++ (if s.fetches i then s.returning.tail else s.returning).map addrword
      = ss ++ s.returning.map addrword
  := by
  cases hbusy : s.packit.oBusy (s.compressInput i) with
  | true =>
      use []
      have hfetch : s.fetches i = false := by
        rw [fetches, hbusy]
        cases i.offer <;> rfl
      simp [Wbucompress.accepted, hbusy, hfetch]
  | false =>
      have hoffer := hlegal.2.2.2
      cases ho : i.offer with
      | nothing =>
          use []
          simp [Wbucompress.accepted, compressInput, fetches, ho]
      | returned =>
          use []
          rw [ho] at hoffer
          obtain ⟨w, ws, hcons⟩ := List.exists_cons_of_ne_nil hoffer
          have hin : (s.compressInput i).iStb = true ∧ (s.compressInput i).iCodword = w := by
            simp [compressInput, ho, hcons]
          simp [Wbucompress.accepted, fetches, ho, hbusy, hin, hcons]
      | state w =>
          rw [ho] at hoffer
          use [w]
          have hin : (s.compressInput i).iStb = true ∧ (s.compressInput i).iCodword = w := by
            simp [compressInput, ho]
          have hword : addrword w = w := addrword_of_not (Codeword.kind_of_isStatus hoffer).2.1
          simp [Wbucompress.accepted, fetches, ho, hbusy, hin, hword]
          apply hoffer

/-- At a clock states are inserted somewhere, and what is returned is added at the end. -/
theorem stream_clock (hlegal : s.Legal (.clock i)) :
  ∃ vs ss ws, s.stream = vs ++ ws
    ∧ (s.clock i).stream = vs ++ (ss ++ (ws ++ (s.clock i).runwb.returned.map addrword))
    ∧ ∀ v ∈ ss, v.isStatus = true
  := by
  obtain ⟨ss, hss, haccepted⟩ := accepted_clock hlegal
  have hheld := Wbucompress.step_held s.packit (s.compressInput i) rfl
  have hzip : ((s.packit.taken (s.compressInput i)).zip
      (s.packit.emitted (s.compressInput i))).map Prod.fst = s.packit.taken (s.compressInput i) := by
    apply List.map_fst_zip
    rw [Wbucompress.taken_length]
  use s.wire.map Prod.fst ++ s.packit.held, ss, (s.returning ++ s.runwb.returned).map addrword
  refine ⟨by simp [stream], ?_, hss⟩
  have hwire : (s.clock i).wire.map Prod.fst
      = s.wire.map Prod.fst ++ s.packit.taken (s.compressInput i) := by
    rw [clock, List.map_append, hzip]
  rw [stream, hwire]
  simp only [clock, List.map_append, List.append_assoc]
  rw [← List.append_assoc (s.packit.taken _), hheld, List.append_assoc,
    ← List.append_assoc (List.map addrword (s.packit.accepted _)), haccepted, List.append_assoc]

/-! ### The two tables -/

/-- What the calls so far leave of the two tables. -/
inductive Tables where
  /-- Nothing was ever read. -/
  | empty
  /-- The last address command was sent for a `readv`. -/
  | shared
  /-- The host started over for a `writev`, and the device did not. -/
  | behind
deriving DecidableEq, Repr

/-- What is left of the tables after something happened. -/
def Tables.after (t : Tables) (s : Link) : Event → Tables
  | .call (.readv a inc len) _ => if Host.Accepts (.readv a inc len) then .shared else t
  | .call (.writev a p buf) _ =>
      if Host.Accepts (.writev a p buf) ∧ s.host.Addresses (.writev a p buf) ∧ t ≠ .empty then
        .behind
      else t
  | _ => t

/-- A `readv` that sends no address command is called where the device did not start over. -/
def Stale (t : Tables) (s : Link) : Event → Prop
  | .call (.readv a inc len) _ => Host.Accepts (.readv a inc len)
      ∧ ¬ s.host.Addresses (.readv a inc len) ∧ t = .behind
  | _ => False

instance (t : Tables) (s : Link) (e : Event) : Decidable (Stale t s e) :=
  match e with
  | .call (.readv a inc len) _ => inferInstanceAs (Decidable (Host.Accepts (.readv a inc len)
      ∧ ¬ s.host.Addresses (.readv a inc len) ∧ t = .behind))
  | .call (.writev ..) _ => .isFalse id
  | .clock _ => .isFalse id
  | .hear => .isFalse id

/-- The device starts over before the next data word. -/
def Fresh (s : Link) : Prop :=
  AddressFirst s.stream ∨ (∀ v ∈ s.stream, v.isData = false) ∧ s.Ready

/-- The table of the host, and that of the device. -/
structure Tracks (t : Tables) (s : Link) (past : List (BitVec 32)) : Prop where
  encodes : EncodesAll past (s.wire.map Prod.fst) (s.wire.map Prod.snd)
  packit : s.packit.Inv ((s.wire.map Prod.snd).foldl pastAfter past)
  agree : s.host.readback.Knows past ∨ s.Fresh
  empty : t = .empty → s.host.toRead = 0 ∧ past = []
  shared : t = .shared → s.host.readback.Knows past ∨ 0 < s.host.toRead

/-- What holds of the host and the device at any time. -/
structure Agreed (t : Tables) (s : Link) : Prop where
  serving : s.Serving
  returns : ∀ v ∈ s.stream, ∃ w : Codeword, w.IsReturn ∧ v = addrword w
  owed : s.stream.countP (·.isData) + s.runwb.owed + (s.commands.map (·.asks)).sum
    ≤ s.host.toRead
  tracks : ∃ past, s.Tracks t past

variable {t : Tables}

theorem Initial.agreed (h : s.Initial) :
  s.Agreed .empty
  := by
  have hheld : s.packit.held = [] := by
    simp [Wbucompress.held, h.packit.oStb, h.packit.awordValid]
  have hreturned : s.runwb.returned = [] := by simp [Wbuexec.returned, h.runwb.oStb]
  have hstream : s.stream = [] := by
    simp [stream, h.wire, hheld, h.returning, hreturned]
  constructor
  · apply serving_of_idle h.runwb.idle
    simp [h.commands]
  · simp [hstream]
  · simp [hstream, h.commands, owed_of_idle h.runwb.idle]
  · use []
    constructor
    · simp [h.wire, EncodesAll]
    · simpa [h.wire] using h.packit.inv
    · left
      apply Recent.nil
    · intro _
      use h.host.toRead
    · intro ht
      cases ht

/-! ### A clock -/

theorem Fresh.clock (h : s.Fresh) (hserving : s.Serving) (hlegal : s.Legal (.clock i)) :
  (s.clock i).Fresh
  := by
  obtain ⟨vs, ss, ws, hstream, hstream', hss⟩ := stream_clock hlegal
  have hdata : ∀ v ∈ ss, v.isData = false := by
    intro v hv
    apply (Codeword.kind_of_isStatus (hss v hv)).2.2
  rw [Fresh, hstream] at h
  rw [Fresh, hstream']
  rcases h with hfirst | ⟨hsilent, hready⟩
  · left
    apply AddressFirst.insert hdata
    rw [← List.append_assoc]
    apply hfirst.append
  · rw [List.forall_mem_append] at hsilent
    rcases (hserving.clock hlegal).ready hready with ⟨hnone, hready'⟩ | ⟨a, hret, hfull⟩
    · right
      refine ⟨?_, hready'⟩
      simp only [List.forall_mem_append, List.forall_mem_map, addrword_isData]
      exact ⟨hsilent.1, hdata, hsilent.2, hnone⟩
    · left
      rw [hret]
      apply AddressFirst.after hsilent.1
      apply AddressFirst.after hdata
      apply AddressFirst.after hsilent.2
      left
      apply addrword_isAddress hfull

theorem Agreed.clock (h : s.Agreed t) (hlegal : s.Legal (.clock i)) :
  (s.clock i).Agreed t
  := by
  have hserved := h.serving.clock hlegal
  obtain ⟨vs, ss, ws, hstream, hstream', hss⟩ := stream_clock hlegal
  obtain ⟨past, htracks⟩ := h.tracks
  constructor
  · apply hserved.serving
  · have hreturns := h.returns
    rw [hstream, List.forall_mem_append] at hreturns
    rw [hstream']
    simp only [List.forall_mem_append, List.forall_mem_map]
    refine ⟨hreturns.1, ?_, hreturns.2, ?_⟩
    · intro v hv
      have hv' := hss v hv
      use v, Or.inr (Or.inr hv')
      rw [addrword_of_not (Codeword.kind_of_isStatus hv').2.1]
    · intro w hw
      use w, hserved.returns w hw
  · have hcount := h.owed
    have hnone : ss.countP (·.isData) = 0 := by
      rw [List.countP_eq_zero]
      intro v hv
      simp [(Codeword.kind_of_isStatus (hss v hv)).2.2]
    have hlast : ((s.clock i).runwb.returned.map addrword).countP (·.isData)
        = (s.clock i).runwb.returned.countP (·.isData) := by
      rw [List.countP_map]
      congr 1
      funext w
      apply addrword_isData
    have hhost : (s.clock i).host.toRead = s.host.toRead := rfl
    have := hserved.owed
    rw [hstream, List.countP_append] at hcount
    rw [hstream', List.countP_append, List.countP_append, List.countP_append, hnone, hlast, hhost]
    omega
  · use past
    have hfst : (s.clock i).wire.map Prod.fst
        = s.wire.map Prod.fst ++ s.packit.taken (s.compressInput i) := by
      rw [Link.clock, List.map_append, List.map_fst_zip (by rw [Wbucompress.taken_length])]
    have hsnd : (s.clock i).wire.map Prod.snd
        = s.wire.map Prod.snd ++ s.packit.emitted (s.compressInput i) := by
      rw [Link.clock, List.map_append, List.map_snd_zip (by rw [Wbucompress.taken_length])]
    constructor
    · rw [hfst, hsnd]
      apply htracks.encodes.append
      apply htracks.packit.emitted
    · rw [hsnd, List.foldl_append]
      apply htracks.packit.step rfl
    · rcases htracks.agree with hknows | hfresh
      · left
        apply hknows
      · right
        apply hfresh.clock h.serving hlegal
    · apply htracks.empty
    · apply htracks.shared

/-! ### A call -/

variable {c : Ttybus.Call} {raw : List Codeword}

/-- Where there is nothing to be read, no data word is on its way, or asked for. -/
theorem Agreed.quiet (h : s.Agreed t) (hzero : s.host.toRead = 0) :
  (∀ v ∈ s.stream, v.isData = false) ∧ s.runwb.owed = 0 ∧ ∀ w ∈ s.commands, w.isRead = false
  := by
  have howed := h.owed
  refine ⟨?_, by omega, ?_⟩
  · have hcount : s.stream.countP (·.isData) = 0 := by omega
    rw [List.countP_eq_zero] at hcount
    simpa using hcount
  · intro w hw
    have hsum : (s.commands.map (·.asks)).sum = 0 := by omega
    have hasks := List.sum_eq_zero_iff_forall_eq_nat.mp hsum _ (List.mem_map_of_mem hw)
    cases hread : w.isRead with
    | false => rfl
    | true =>
        have hlen := h.serving.lens w hw hread
        rw [Codeword.asks, if_pos hread] at hasks
        cases hlen (BitVec.eq_of_toNat_eq hasks)

/-- More commands do not disturb the executor. -/
theorem Serving.call (h : s.Serving)
    (hlens : ∀ w ∈ s.unpack.outAll raw, w.isRead = true → w.readLen ≠ 0) :
  (s.call c raw).Serving
  := by
  constructor
  · apply h.phase
  · apply h.asked
  · intro hwriting hfree
    obtain ⟨hoffered, w, ws, hcons, hwrite⟩ := h.offered hwriting hfree
    use hoffered, w, ws ++ s.unpack.outAll raw
    rw [Link.call, hcons]
    use rfl, hwrite
  · intro w hw
    rcases List.mem_append.mp hw with hold | hnew
    · apply h.lens w hold
    · apply hlens w hnew

theorem Agreed.call_refused (h : s.Agreed t) (hlegal : s.Legal (.call c raw))
    (hc : ¬ Host.Accepts c) :
  (s.call c raw).Agreed t
  := by
  have hraw : raw = [] := by
    have := hlegal.2
    rw [Host.commands.eq_def, if_neg hc] at this
    cases this
    rfl
  have hsame : s.call c raw = s := by
    rw [Link.call, Host.call, if_neg hc, hraw, Table.outAll, List.append_nil]
    rfl
  rw [hsame]
  apply h

theorem Agreed.call_readv {a : BitVec 32} {inc : Bool} {len : ℕ} (h : s.Agreed t)
    (hlegal : s.Legal (.call (.readv a inc len) raw)) (hc : Host.Accepts (.readv a inc len))
    (hok : s.host.Addresses (.readv a inc len) ∨ t ≠ .behind) :
  (s.call (.readv a inc len) raw).Agreed .shared
  := by
  obtain ⟨hsilent, howed, hnone⟩ := h.quiet hlegal.1
  obtain ⟨as, rs, hwords, hrs, hsum, has, hone⟩ := readv_out (t := s.unpack) hc hlegal.2
  obtain ⟨past, htracks⟩ := h.tracks
  have hhost : (s.call (.readv a inc len) raw).host.toRead = len := by
    rw [Link.call, Host.call, if_pos hc]
    rfl
  constructor
  · apply h.serving.call
    intro w hw hread
    rw [hwords] at hw
    rcases List.mem_append.mp hw with hw | hw
    · rw [(has w hw).1.1] at hread
      cases hread
    · apply (hrs w hw).2 hread
  · apply h.returns
  · have hold := h.owed
    have hadd : (as.map (·.asks)).sum = 0 := by
      apply sum_asks_of_not_isRead
      intro w hw
      apply (has w hw).1.1
    have hcommands : (s.call (.readv a inc len) raw).commands = s.commands ++ (as ++ rs) := by
      rw [Link.call, hwords]
    have hzero := hlegal.1
    change s.stream.countP _ + s.runwb.owed + _ ≤ _
    rw [hhost, hcommands, List.map_append, List.sum_append, List.map_append, List.sum_append, hadd]
    omega
  · use past
    constructor
    · apply htracks.encodes
    · apply htracks.packit
    · by_cases haddr : s.host.Addresses (.readv a inc len)
      · obtain ⟨w, rfl⟩ := hone haddr
        obtain ⟨hkind, htop⟩ := has w (List.mem_singleton_self w)
        right
        right
        refine ⟨hsilent, howed, ?_⟩
        change Announced s.runwb.announces (s.commands ++ s.unpack.outAll raw)
        rw [hwords]
        apply announced_address hnone hkind htop
        intro r hr
        apply (hrs r hr).1
      · left
        have hknows : s.host.readback.Knows past := by
          cases t with
          | empty =>
              rw [(htracks.empty rfl).2]
              apply Recent.nil
          | shared =>
              rcases htracks.shared rfl with hknows | hpos
              · apply hknows
              · rw [hlegal.1] at hpos
                cases hpos
          | behind =>
              rcases hok with haddr' | hne
              · cases haddr haddr'
              · cases hne rfl
        rw [Link.call, Host.call, if_pos hc, if_neg haddr]
        apply hknows
    · intro ht
      cases ht
    · intro _
      right
      rw [hhost]
      apply hc.2

theorem Agreed.call_writev {a : BitVec 32} {p : Bool} {buf : List (BitVec 32)} (h : s.Agreed t)
    (hlegal : s.Legal (.call (.writev a p buf) raw)) (hc : Host.Accepts (.writev a p buf)) :
  (s.call (.writev a p buf) raw).Agreed (t.after s (.call (.writev a p buf) raw))
  := by
  obtain ⟨hsilent, howed, hnone⟩ := h.quiet hlegal.1
  have hwrites := writev_out (t := s.unpack) hlegal.2
  obtain ⟨past, htracks⟩ := h.tracks
  have hhost : (s.call (.writev a p buf) raw).host.toRead = 0 := by
    rw [Link.call, Host.call, if_pos hc]
    rfl
  have hnone' : ∀ w ∈ (s.call (.writev a p buf) raw).commands, w.isRead = false := by
    intro w hw
    rcases List.mem_append.mp hw with hw | hw
    · apply hnone w hw
    · apply hwrites w hw
  have hready : (s.call (.writev a p buf) raw).Fresh := by
    right
    refine ⟨hsilent, howed, ?_⟩
    apply announced_of_not_isRead hnone'
  have hafter : t.after s (.call (.writev a p buf) raw)
      = if s.host.Addresses (.writev a p buf) ∧ t ≠ .empty then .behind else t := by
    simp only [Tables.after, hc, true_and]
  rw [hafter]
  constructor
  · apply h.serving.call
    intro w hw hread
    rw [hwrites w hw] at hread
    cases hread
  · apply h.returns
  · have hsum := sum_asks_of_not_isRead hnone'
    have hcount : s.stream.countP (·.isData) = 0 := by simpa [List.countP_eq_zero] using hsilent
    change s.stream.countP _ + s.runwb.owed + _ ≤ _
    rw [hsum, hcount, howed]
    apply Nat.zero_le
  · use past
    constructor
    · apply htracks.encodes
    · apply htracks.packit
    · right
      apply hready
    · intro ht
      use hhost
      split at ht
      · cases ht
      · apply (htracks.empty ht).2
    · intro ht
      left
      split at ht
      · cases ht
      · rename_i hnot
        have haddr : ¬ s.host.Addresses (.writev a p buf) := by
          intro haddr
          apply hnot
          refine ⟨haddr, ?_⟩
          rw [ht]
          decide
        rcases htracks.shared ht with hknows | hpos
        · rw [Link.call, Host.call, if_pos hc, if_neg haddr]
          apply hknows
        · rw [hlegal.1] at hpos
          cases hpos

theorem Agreed.call (h : s.Agreed t) (hlegal : s.Legal (.call c raw))
    (hok : ¬ Stale t s (.call c raw)) :
  (s.call c raw).Agreed (t.after s (.call c raw))
  := by
  by_cases hc : Host.Accepts c
  · cases c with
    | readv a inc len =>
        rw [Tables.after, if_pos hc]
        apply h.call_readv hlegal hc
        by_contra hnot
        push Not at hnot
        apply hok ⟨hc, hnot⟩
    | writev a p buf => apply h.call_writev hlegal hc
  · have hsame : t.after s (.call c raw) = t := by
      cases c with
      | readv a inc len => rw [Tables.after, if_neg hc]
      | writev a p buf => rw [Tables.after, if_neg (fun hand => hc hand.1)]
    rw [hsame]
    apply h.call_refused hlegal hc

/-! ### The host reads -/

/-- A codeword that is no data word is sent as it is, and adds nothing to the table. -/
theorem pastAfter_of_not_isData {past : List (BitVec 32)} {v c : Codeword}
    (h : Encodes past v c) (hv : v.isData = false) :
  c = v ∧ pastAfter past c = if v.isAddress then [] else past
  := by
  cases h with
  | plain =>
      use rfl
      rw [pastAfter, hv]
      rfl
  | back k hdata =>
      rw [hv] at hdata
      cases hdata

theorem Host.heard_toRead (h : Host) (w : Codeword) (r : Readback) :
  (h.heard w.meaning r).toRead = h.toRead - if w.isData then 1 else 0
  := by
  unfold Host.heard Codeword.meaning
  cases w.isData with
  | true => rfl
  | false => cases w.isFullAddress <;> rfl

/-- What the host makes of the next codeword: what it is, and afterwards the table of the
host is that of the device, or the device is still to start over. -/
theorem Agreed.hear_head (h : s.Agreed t) {past : List (BitVec 32)} (htracks : s.Tracks t past)
    {v c : Codeword} {wire : List (Codeword × Codeword)} (hwire : s.wire = (v, c) :: wire) :
  ∃ w : Codeword, w.IsReturn ∧ v = addrword w ∧ ∃ r,
    s.host.readback.hear (groups c) = some (w.meaning, r, [])
    ∧ (r.Knows (pastAfter past c)
      ∨ ¬ s.host.readback.Knows past ∧ v.isData = false ∧ v.isAddress = false ∧ s.Fresh)
  := by
  have hstream : s.stream = v :: ((wire.map Prod.fst)
      ++ (s.packit.held ++ (s.returning ++ s.runwb.returned).map addrword)) := by
    rw [stream, hwire]
    rfl
  obtain ⟨w, hw, rfl⟩ := h.returns v (by simp [hstream])
  have hencodes := htracks.encodes
  rw [hwire] at hencodes
  have hc : Encodes past (addrword w) c := hencodes.1
  use w, hw, rfl
  by_cases hknows : s.host.readback.Knows past
  · obtain ⟨r, hheard, hknows'⟩ := Readback.hear_encodes hknows hw hc []
    rw [List.append_nil] at hheard
    use r, hheard, Or.inl hknows'
  · have hfresh := htracks.agree.resolve_left hknows
    have hdata : (addrword w).isData = false := by
      rcases hfresh with hfirst | ⟨hsilent, -⟩
      · rw [hstream] at hfirst
        rcases hfirst with haddr | ⟨hdata, -⟩
        · apply Codeword.isData_of_isAddress haddr
        · apply hdata
      · apply hsilent
        rw [hstream]
        apply List.mem_cons_self
    obtain ⟨rfl, hpast⟩ := pastAfter_of_not_isData hc hdata
    have hnil : s.host.readback.Knows [] := Recent.nil _ _
    obtain ⟨r, hheard, -⟩ := Readback.hear_encodes hnil hw .plain []
    rw [List.append_nil] at hheard
    use r, hheard
    rw [hpast]
    cases haddr : (addrword w).isAddress with
    | true =>
        left
        apply Recent.nil
    | false =>
        right
        use hknows, hdata, rfl, hfresh

theorem Agreed.hear (h : s.Agreed t) (hlegal : s.Legal .hear) :
  s.hear.Agreed t
  := by
  obtain ⟨⟨v, c⟩, wire, hwire⟩ := List.exists_cons_of_ne_nil hlegal
  obtain ⟨past, htracks⟩ := h.tracks
  obtain ⟨w, hw, rfl, r, hheard, hnext⟩ := h.hear_head htracks hwire
  have hhear : s.hear = { s with host := s.host.heard w.meaning r, wire := wire } := by
    simp only [Link.hear, hwire, hheard]
  have htoRead := Host.heard_toRead s.host w r
  have hstream : s.stream = addrword w :: s.hear.stream := by
    rw [hhear, stream, hwire]
    rfl
  have hencodes := htracks.encodes
  have hpackit := htracks.packit
  rw [hwire] at hencodes hpackit
  have hreturns := h.returns
  have howed := h.owed
  rw [hstream] at hreturns howed
  rw [List.countP_cons, addrword_isData] at howed
  rw [List.forall_mem_cons] at hreturns
  rw [hhear] at hstream hreturns howed ⊢
  constructor
  · constructor
    · apply h.serving.phase
    · apply h.serving.asked
    · apply h.serving.offered
    · apply h.serving.lens
  · apply hreturns.2
  · change _ + s.runwb.owed + (s.commands.map (·.asks)).sum ≤ (s.host.heard w.meaning r).toRead
    rw [htoRead]
    omega
  · use pastAfter past c
    constructor
    · apply hencodes.2
    · apply hpackit
    · rcases hnext with hknows | ⟨-, hdata, haddr, hfresh⟩
      · left
        apply hknows
      · right
        rw [Fresh, hstream] at hfresh
        rcases hfresh with hfirst | ⟨hsilent, hready⟩
        · left
          rcases hfirst with haddr' | ⟨-, hrest⟩
          · rw [haddr] at haddr'
            cases haddr'
          · apply hrest
        · right
          rw [List.forall_mem_cons] at hsilent
          refine ⟨hsilent.2, ?_⟩
          apply hready
    · intro ht
      obtain ⟨hzero, rfl⟩ := htracks.empty ht
      have hsilent := (h.quiet hzero).1
      rw [hstream, List.forall_mem_cons] at hsilent
      constructor
      · rw [htoRead, hzero, Nat.zero_sub]
      · rw [(pastAfter_of_not_isData hencodes.1 hsilent.1).2]
        split <;> rfl
    · intro ht
      rcases hnext with hknows | ⟨hnot, hdata, -, -⟩
      · left
        apply hknows
      · right
        rw [addrword_isData] at hdata
        have hpos := (htracks.shared ht).resolve_left hnot
        rw [htoRead, hdata]
        apply hpos

/-! ### Runs -/

/-- How far back `readword` looks for a data word that does not come in full. -/
def refersBack : List (BitVec 6) → Option (BitVec 10)
  | [] => none
  | sixbits :: gs =>
      if sixbits &&& 0x3e = 0x06 then some 1
      else if sixbits &&& 0x30 = 0x10 then
        gs.head?.map fun g =>
          (((sixbits >>> 1) &&& 0x07).setWidth 10 <<< 6 ||| g.setWidth 10) + 2 + 8
      else if sixbits &&& 0x30 = 0x20 then some (((sixbits >>> 1) &&& 0x07).setWidth 10 + 2)
      else none

/-- `readword` takes what it refers to from its table. -/
theorem hear_refersBack (h : Readback) {gs : List (BitVec 6)} {k : BitVec 10}
    (hk : refersBack gs = some k) :
  ∃ inc r gs', h.hear gs = some (.data (h.tableRead k) inc, r, gs')
  := by
  cases gs with
  | nil => cases hk
  | cons t gs =>
      have hkinds : t &&& 0x3e = 0x06 ∨ t &&& 0x30 = 0x10 ∨ t &&& 0x30 = 0x20 →
          ¬ t < 6 ∧ t &&& 0x3c ≠ 0x08 ∧ t &&& 0x3c ≠ 0x0c := by
        clear hk
        revert t
        decide
      rw [refersBack] at hk
      split_ifs at hk with hlast hfar hnear
      · obtain ⟨h6, hfull, hshort⟩ := hkinds (Or.inl hlast)
        cases hk
        rw [Readback.hear, if_neg h6, if_neg hfull, if_neg hshort, if_pos hlast]
        use t.getLsbD 0, h.moveOn t, gs
      · obtain ⟨h6, hfull, hshort⟩ := hkinds (Or.inr (Or.inl hfar))
        cases gs with
        | nil => cases hk
        | cons g gs =>
            cases hk
            rw [Readback.hear, if_neg h6, if_neg hfull, if_neg hshort, if_neg hlast, if_pos hfar,
              Readback.hearFar]
            use t.getLsbD 0, h.moveOn t, gs
      · obtain ⟨h6, hfull, hshort⟩ := hkinds (Or.inr (Or.inr hnear))
        cases hk
        rw [Readback.hear, if_neg h6, if_neg hfull, if_neg hshort, if_neg hlast, if_neg hfar,
          if_pos hnear]
        use t.getLsbD 0, h.moveOn t, gs

/-- The codeword `c` that the host reads next, if it stands for the data word `v`, is heard
as that word; and if it refers to the table, the entry it designates holds that word. -/
def Designates (s : Link) : Prop :=
  ∀ v c wire, s.wire = (v, c) :: wire → v.isData = true →
    (∃ r, s.host.readback.hear (groups c) = some (.data v.codData v.inc, r, []))
      ∧ ∀ k, refersBack (groups c) = some k → s.host.mReadtbl (s.host.mRdaddr - k) = v.codData

theorem Agreed.designates (h : s.Agreed t) :
  s.Designates
  := by
  intro v c wire hwire hdata
  obtain ⟨past, htracks⟩ := h.tracks
  obtain ⟨w, hw, rfl, r, hheard, -⟩ := h.hear_head htracks hwire
  rw [addrword_isData] at hdata
  have hword : addrword w = w := addrword_of_not (Codeword.kind_of_isData hdata).2
  rw [Codeword.meaning, if_pos hdata] at hheard
  rw [hword]
  constructor
  · use r
  · intro k hk
    obtain ⟨inc, r', gs', hback⟩ := hear_refersBack s.host.readback hk
    rw [hheard, Option.some_inj, Prod.mk.injEq, Heard.data.injEq] at hback
    apply hback.1.1.symm

section Runs

variable {s₀ : Link} {ev : ℕ → Event}

/-- What is left of the tables before the event `n`. -/
def tables (s₀ : Link) (ev : ℕ → Event) : ℕ → Tables
  | 0 => .empty
  | n + 1 => (tables s₀ ev n).after (run step s₀ ev n) (ev n)

theorem run_agreed (h₀ : s₀.Initial) {n : ℕ} (hlegal : ∀ k < n, (run step s₀ ev k).Legal (ev k))
    (hok : ∀ k < n, ¬ Stale (tables s₀ ev k) (run step s₀ ev k) (ev k)) :
  (run step s₀ ev n).Agreed (tables s₀ ev n)
  := by
  induction n with
  | zero => apply h₀.agreed
  | succ n ih =>
      have hagreed := ih (fun k hk => hlegal k (Nat.lt_succ_of_lt hk))
        (fun k hk => hok k (Nat.lt_succ_of_lt hk))
      have hl := hlegal n (Nat.lt_succ_self n)
      have hs := hok n (Nat.lt_succ_self n)
      rw [run_succ, tables]
      cases hev : ev n with
      | clock i =>
          rw [hev] at hl
          apply hagreed.clock hl
      | call c raw =>
          rw [hev] at hl hs
          apply hagreed.call hl hs
      | hear =>
          rw [hev] at hl
          apply hagreed.hear hl

/-- As long as no `readv` that sends no address command is called after the host has started
over for a `writev`, every data word is heard as the word that was returned, and every
reference designates an entry of the host's table that holds it. -/
theorem dictionaries_agree (h₀ : s₀.Initial) {n : ℕ}
    (hlegal : ∀ k < n, (run step s₀ ev k).Legal (ev k))
    (hok : ∀ k < n, ¬ Stale (tables s₀ ev k) (run step s₀ ev k) (ev k)) :
  (run step s₀ ev n).Designates
  := (run_agreed h₀ hlegal hok).designates

end Runs

/-! ### Reading the same word again -/

/-- The host and the device at the start. -/
def start : Link where
  host :=
    { tty := Ttybus.init, mReadtbl := fun _ => 0, mRdaddr := 0, mBusErr := false
      mInterruptFlag := false, toRead := 0 }
  unpack := ⟨0, fun _ => 0⟩
  commands := []
  offered := false
  runwb :=
    { wbState := .idle, oBusy := false, oWbCyc := false, oWbStb := false, oWbWe := false
      oWbAddr := 0, oWbData := 0, oStb := false, oCodword := 0, rAcksNeeded := 0, rLen := 0
      rInc := false, rNewAddr := true, lastReadRequest := false, lastAck := false
      zeroAcks := true, singleReadRequest := false }
  asked := 0
  returning := []
  packit := Wbucompress.powerUp
  wire := []

theorem start_initial :
  start.Initial
  := by
  constructor
  · exact ⟨Ttybus.init_initial, rfl, rfl⟩
  · constructor <;> rfl
  · exact Wbucompress.powerUp_initial
  all_goals rfl

/-- A clock at which the bus shows the word seven. -/
def tick (iStb iWbAck : Bool) (offer : Offer) (iBusy : Bool) : Event :=
  .clock
    { iStb := iStb, iCodword := 0, iWbStall := false, iWbAck := iWbAck, iWbData := 7
      offer := offer, iBusy := iBusy }

/-- One word is read, and its address and the word are returned. -/
def readOne : List Event :=
  [.call (.readv 0x100 true 1) [0x281000000#36, 0x840000000#36], tick true false .nothing false,
    tick true false .nothing false, tick false false .nothing false,
    tick false true .returned false, tick false false .nothing false,
    tick false false .returned false, tick false false .nothing false,
    tick false false .nothing false, .hear, .hear]

/-- One word is written to another address, and the write is acknowledged. -/
def writeOne : List Event :=
  [.call (.writev 0x200 true [5]) [0x282000000#36, 0x640000005#36, 0xb80000000#36],
    tick true false .nothing false, tick true false .nothing false,
    tick false false .nothing false, tick false true .nothing false, tick true false .nothing false,
    tick true false .returned false, tick false false .nothing false,
    tick false false .nothing false, .hear]

/-- The next word is read; it waits long enough to be found in the table. -/
def readNext (a : BitVec 32) : List Event :=
  [.call (.readv a true 1) [0x840000000#36], tick true false .nothing true,
    tick false false .nothing true, tick false true .nothing true,
    tick false false .nothing true, tick false false .returned true]
    ++ List.replicate 8 (tick false false .nothing true) ++ [tick false false .nothing false]

/-- Two words are read one after the other, in two calls. -/
def readTwice (n : ℕ) : Event := (readOne ++ readNext 0x104).getD n .hear

theorem dictionaries_agree_readTwice :
  (run step start readTwice 26).wire = [(0xe40000007#36, 0x1c0000007#36)]
    ∧ (run step start readTwice 26).Designates
  := by
  constructor
  · decide +kernel
  · apply dictionaries_agree start_initial
    · decide +kernel
    · decide +kernel

/-- A word is read, one is written, and one is read. -/
def readWriteRead (n : ℕ) : Event := (readOne ++ writeOne ++ readNext 0x204).getD n .hear

/-- The word read after the write is returned as the one before, which the host looks up
where it has nothing. -/
theorem read_after_write_not_designated :
  start.Initial ∧ (∀ k < 36, (run step start readWriteRead k).Legal (readWriteRead k))
    ∧ ¬ (run step start readWriteRead 36).Designates
  := by
  refine ⟨start_initial, by decide +kernel, ?_⟩
  intro h
  have hwire : (run step start readWriteRead 36).wire = [(0xe40000007#36, 0x1c0000007#36)] := by
    decide +kernel
  have hentry := (h _ _ _ hwire (by decide)).2 1 (by decide)
  revert hentry
  decide +kernel

end Link

end ZBasic
