import Mathlib.Data.Fin.VecNotation
import ZBasic.Wbxbar.Passage

/-!
# The crossbar routes

Every answer that a master gets is that of the slave its oldest request is for, to this request. This
holds for every master until it is shown an error or has a request dropped, and again from its next
cycle on, whatever the other masters do.
-/

namespace ZBasic

open Clocked Wishbone

namespace Wbxbar

variable {nm ns aw dw lg : ℕ} [NeZero ns] {A : AddressMap ns aw}

/-- The requests with the slaves, and those on their way to them, are for these slaves. -/
structure Sound (A : AddressMap ns aw) (pending : Fin ns → List (BusRequest aw dw))
    (p : Wbxbar nm ns aw dw lg) : Prop where
  oScyc : ∀ s, p.oSstb s = true → p.oScyc s = true
  offering : ∀ s, p.oSstb s = true → (A.decode (p.oS s).addr).slave s = true
  pending : ∀ s, ∀ a ∈ pending s, (A.decode a.addr).slave s = true

/-- Where the requests are that a master has not had answered yet: those in `shown` have been answered
at the clock before, and those `inside` are with its slave or on their way there. -/
structure Carries (A : AddressMap ns aw) (pending : Fin ns → List (BusRequest aw dw))
    (p : Wbxbar nm ns aw dw lg) (n : Fin nm)
    (asked shown inside : List (BusRequest aw dw)) : Prop where
  order : asked = shown ++ inside ++ (p.decoding n ++ p.skidding n)
  answered : shown.length = (p.oMack n).toNat
  counts : p.Counts n (shown ++ inside).length
  within : ∀ s, (p.grant n).slave s = true → inside = p.atSlave pending s
  without : (∀ s, (p.grant n).slave s = false) → inside = []
  /-- A master is told of an error while the request for no slave is in its decoder. -/
  none : (p.grant n).none = true →
    p.dcdStb n = true ∧ (A.decode (p.m n).addr).none = true

section Step

variable {p : Wbxbar nm ns aw dw lg} {i : Input nm ns aw dw} {n : Fin nm} {s : Fin ns}
  {pending : Fin ns → List (BusRequest aw dw)} {asked shown inside : List (BusRequest aw dw)}

/-! ### The slaves -/

/-- A slave that is granted to a master is offered its requests. -/
theorem Grants.oSstb_step (h : p.Grants A) (hgrant : (p.grant n).slave s = true)
    (herr : (i.iReset || p.sErr i s) = false) (hcyc : i.iMcyc n = true) :
  (p.step i A).oSstb s
    = if !p.oSstb s || !p.sStall i s then (p.request i n).slave s && !p.mfull n else p.oSstb s
  := by
  have hsgrant := (h.sgrant s).mpr ⟨n, hgrant⟩
  simp only [Wbxbar.step, herr, hsgrant, h.sindex n s hgrant, entry_val, hcyc, Bool.not_true,
    Bool.false_eq_true, if_false, if_true]

theorem Grants.oS_step (h : p.Grants A) (hgrant : (p.grant n).slave s = true) :
  (p.step i A).oS s = if !p.sStall i s then (p.m n).shown else p.oS s
  := by
  have hsgrant := (h.sgrant s).mpr ⟨n, hgrant⟩
  simp only [Wbxbar.step, hsgrant, h.sindex n s hgrant, entry_val, Bool.not_true, Bool.false_eq_true,
    if_false]

theorem Grants.oScyc_step (h : p.Grants A) (hgrant : (p.grant n).slave s = true)
    (herr : (i.iReset || p.sErr i s) = false) (hcyc : i.iMcyc n = true) :
  (p.step i A).oScyc s = true
  := by
  have hsgrant := (h.sgrant s).mpr ⟨n, hgrant⟩
  simp only [Wbxbar.step, herr, hsgrant, h.sindex n s hgrant, entry_val, hcyc, Bool.false_eq_true,
    if_false, Bool.and_self]

/-- Nothing is offered to a slave that is not granted. -/
theorem idle_step (hfree : p.sgrant s = false) :
  (p.step i A).oScyc s = false ∧ (p.step i A).oSstb s = false
  := by simp [step, hfree]

/-- A request is let through if there is room for it with the slave. -/
theorem Grants.accepted_eq (h : p.Grants A) (hgrant : (p.grant n).slave s = true)
    (hmerr : p.oMerr n = false) :
  (p.mStb i n && !p.mStall i n) = ((p.request i n).slave s && !p.mfull n && !p.sStall i s)
  := by
  have hmgrant := (h.mgrant n).mpr (Or.inl ⟨s, hgrant⟩)
  have hown : p.requestsOwn i n = (p.request i n).slave s := by
    rw [requestsOwn, h.mindex n s hgrant, entry_val]
  rw [mStall, hmerr, if_neg Bool.false_ne_true, (h.oneHot n).none s hgrant,
    if_neg Bool.false_ne_true, hmgrant, Bool.true_and, hown, h.mindex n s hgrant, entry_val]
  cases hrequest : (p.request i n).slave s with
  | true =>
      obtain ⟨hcyc, hstb⟩ := iMcyc_of_request hrequest
      rw [if_pos rfl, mStb, hcyc, hstb]
      cases p.mfull n <;> simp
  | false =>
      rw [if_neg Bool.false_ne_true]
      cases p.mStb i n <;> rfl

/-- What is on its way to a slave gets there or stays, and what is let through follows it. -/
theorem Grants.offering_step (h : p.Grants A) (hgrant : (p.grant n).slave s = true)
    (hmerr : p.oMerr n = false) (herr : (i.iReset || p.sErr i s) = false)
    (hcyc : i.iMcyc n = true) :
  (downPort p i s).request.toList ++ (p.step i A).offering s = p.offering s ++ p.passing i n
  := by
  rw [passing, h.accepted_eq hgrant hmerr, offering, offering, h.oSstb_step hgrant herr hcyc,
    h.oS_step hgrant, downPort, sStall]
  cases p.oSstb s <;> cases i.iSstall s <;> cases (p.request i n).slave s <;>
    cases p.mfull n <;> simp

theorem Sound.decoded (h : p.Sound A pending) {a : BusRequest aw dw}
    (ha : a ∈ (downPort p i s).asked (pending s)) :
  (A.decode a.addr).slave s = true
  := by
  rw [Port.asked, List.mem_append, Option.mem_toList] at ha
  rcases ha with hold | hnew
  · apply h.pending s a hold
  · simp only [downPort] at hnew
    split_ifs at hnew with hstb
    obtain rfl := Option.some.inj hnew
    rw [Bool.and_eq_true] at hstb
    apply h.offering s hstb.1

/-- The requests stay those for the slave. -/
theorem Sound.step (h : p.Sound A pending) (hgrants : p.Grants A) :
  (p.step i A).Sound A fun s => (downPort p i s).next (pending s)
  := by
  have howner : ∀ s, (p.step i A).oSstb s = true → ∃ n, (p.grant n).slave s = true
      ∧ (i.iReset || p.sErr i s) = false ∧ i.iMcyc n = true := by
    intro s hstb
    cases hsgrant : p.sgrant s with
    | false =>
        rw [(idle_step hsgrant).2] at hstb
        contradiction
    | true =>
        obtain ⟨n, hgrant⟩ := (hgrants.sgrant s).mp hsgrant
        use n, hgrant
        simp only [Wbxbar.step, hsgrant, hgrants.sindex n s hgrant, entry_val, if_true] at hstb
        split_ifs at hstb with herr hcyc
        all_goals
          rw [Bool.not_eq_true] at herr hcyc
          rw [Bool.not_eq_false'] at hcyc
          exact ⟨herr, hcyc⟩
  constructor
  case oScyc =>
      intro s hstb
      obtain ⟨n, hgrant, herr, hcyc⟩ := howner s hstb
      apply hgrants.oScyc_step hgrant herr hcyc
  case offering =>
      intro s hstb
      obtain ⟨n, hgrant, herr, hcyc⟩ := howner s hstb
      rw [hgrants.oSstb_step hgrant herr hcyc] at hstb
      rw [hgrants.oS_step hgrant]
      cases hstall : p.sStall i s with
      | true =>
          rw [Bool.not_true, if_neg Bool.false_ne_true]
          apply h.offering
          rw [sStall, Bool.and_eq_true] at hstall
          apply hstall.1
      | false =>
          rw [hstall, Bool.not_false, Bool.or_true, if_pos rfl, Bool.and_eq_true] at hstb
          rw [Bool.not_false, if_pos rfl]
          apply hgrants.decode_of_request hstb.1
  case pending =>
      intro s a ha
      apply h.decoded (i := i)
      rw [Port.asked, List.mem_append, Option.mem_toList]
      apply Port.mem_of_mem_next ha

/-! ### The answers -/

omit [NeZero ns] in
theorem reset_or_sErr (hup : (upPort p i n).cyc = true) (herr : p.sErr i s = false) :
  (i.iReset || p.sErr i s) = false
  := by rw [(upPort_cyc.mp hup).1, herr, Bool.or_self]

/-- A master that is granted a slave is told what this slave answers. -/
theorem Grants.answer_step (h : p.Grants A) (hgrant : (p.grant n).slave s = true)
    (hup : (upPort p i n).cyc = true) (hmerr : p.oMerr n = false) :
  (p.step i A).oMack n = p.sAck i s ∧ (p.step i A).oMerr n = p.sErr i s
    ∧ (p.step i A).oMdata n = i.iSdata s
  := by
  obtain ⟨hreset, hcyc⟩ := upPort_cyc.mp hup
  have hmgrant := (h.mgrant n).mpr (Or.inl ⟨s, hgrant⟩)
  have hnone := (h.oneHot n).none s hgrant
  simp [Wbxbar.step, oMack, oMerr, hreset, hcyc, show p.rMerr n = false from hmerr, hmgrant, hnone,
    h.mindex n s hgrant]

/-- A master that is granted no slave is told of an error if it asked for none. -/
theorem Grants.answer_of_not_granted (h : p.Grants A) (hno : ∀ s, (p.grant n).slave s = false)
    (hup : (upPort p i n).cyc = true) (hmerr : p.oMerr n = false) :
  (p.step i A).oMack n = false ∧ (p.step i A).oMerr n = (p.grant n).none
  := by
  obtain ⟨hreset, hcyc⟩ := upPort_cyc.mp hup
  have hmgrant : p.mgrant n = (p.grant n).none := by
    rw [Bool.eq_iff_iff, h.mgrant]
    simp [hno]
  cases hnone : (p.grant n).none with
  | true =>
      simp [Wbxbar.step, oMack, oMerr, hreset, hcyc, show p.rMerr n = false from hmerr, hnone]
  | false =>
      rw [hnone] at hmgrant
      simp [Wbxbar.step, oMack, oMerr, hnone, hmgrant]

/-- The requests that a slave answers with an acknowledgement at a clock. -/
def answering (p : Wbxbar nm ns aw dw lg) (i : Input nm ns aw dw)
    (pending : Fin ns → List (BusRequest aw dw)) (s : Fin ns) : List (BusRequest aw dw) :=
  ((downPort p i s).asked (pending s)).take (p.sAck i s).toNat

omit [NeZero ns] in
theorem length_answering (howed : (downPort p i s).Owed (pending s)) :
  (p.answering i pending s).length = (p.sAck i s).toNat
  := by
  rw [answering, List.length_take]
  cases hack : p.sAck i s with
  | false => rw [Bool.toNat_false, Nat.zero_min]
  | true =>
      have hcyc : (downPort p i s).cyc = true := (Bool.and_eq_true_iff.mp hack).1
      have hanswered : (downPort p i s).answered = true := by
        have hacked : (downPort p i s).ack = true := (Bool.and_eq_true_iff.mp hack).2
        rw [Port.answered, hcyc, hacked, Bool.true_or, Bool.and_self]
      have hpos := List.length_pos_iff.mpr (howed.asked hanswered)
      rw [Bool.toNat_true]
      omega

omit [NeZero ns] in
/-- What a slave does not answer stays pending. -/
theorem answering_append_next (herr : p.sErr i s = false) (hcyc : p.oScyc s = true) :
  p.answering i pending s ++ (downPort p i s).next (pending s)
    = (downPort p i s).asked (pending s)
  := by
  have hack : p.sAck i s = ((downPort p i s).ack || (downPort p i s).err) := by
    have hserr : (downPort p i s).err = false := by
      rw [sErr, hcyc, Bool.true_and] at herr
      apply herr
    rw [sAck, hcyc, Bool.true_and, hserr, Bool.or_false]
    rfl
  rw [Port.next_of_cyc hcyc, answering, hack]
  apply List.take_append_drop

/-- What is inside moves on. -/
theorem Grants.inside_step (h : p.Grants A) (hsound : p.Sound A pending)
    (hgrant : (p.grant n).slave s = true) (hup : (upPort p i n).cyc = true)
    (hmerr : p.oMerr n = false) (herr : p.sErr i s = false) :
  p.atSlave pending s ++ p.passing i n
    = p.answering i pending s
      ++ (p.step i A).atSlave (fun s => (downPort p i s).next (pending s)) s
  := by
  have hgo := reset_or_sErr hup herr
  have hcyc := (upPort_cyc.mp hup).2
  have hnext := h.offering_step hgrant hmerr hgo hcyc
  rw [atSlave, atSlave, h.oScyc_step hgrant hgo hcyc, if_pos rfl]
  cases hscyc : p.oScyc s with
  | true =>
      rw [if_pos rfl, List.append_assoc, ← hnext, ← List.append_assoc, ← List.append_assoc,
        answering_append_next herr hscyc]
      rfl
  | false =>
      have hstb : p.oSstb s = false := by
        by_contra hstb
        rw [Bool.not_eq_false] at hstb
        rw [hsound.oScyc s hstb] at hscyc
        contradiction
      have hack : p.sAck i s = false := by rw [sAck, hscyc, Bool.false_and]
      have hnone : (downPort p i s).request = none := by simp [downPort, hstb]
      have hoffering : p.offering s = [] := by rw [offering, hstb, if_neg Bool.false_ne_true]
      rw [hnone, Option.toList_none, List.nil_append, hoffering, List.nil_append] at hnext
      rw [if_neg Bool.false_ne_true, Port.next_of_not_cyc hscyc, hnext, answering, hack]
      rfl

omit [NeZero ns] in
/-- What a slave can be asked is with it, or on its way to it. -/
theorem asked_begins (hcyc : p.oScyc s = true) :
  (downPort p i s).asked (pending s) <+: p.atSlave pending s
  := by
  rw [atSlave, hcyc, if_pos rfl, Port.asked, List.prefix_append_right_inj, offering, downPort]
  cases p.oSstb s <;> cases i.iSstall s <;> simp

/-! ### A clock -/

/-- The order of the requests of a master is kept. -/
theorem Carries.order_step (h : Carries A pending p n asked shown inside)
    (hup : (upPort p i n).cyc = true) (hmerr : p.oMerr n = false) (hdrops : p.drops i n = false) :
  (upPort p i n).next asked
    = inside ++ p.passing i n ++ ((p.step i A).decoding n ++ (p.step i A).skidding n)
  := by
  have hanswered : ((upPort p i n).ack || (upPort p i n).err).toNat = shown.length := by
    rw [h.answered]
    change (p.oMack n || p.oMerr n).toNat = _
    rw [hmerr, Bool.or_false]
  rw [Port.next_of_cyc hup, Port.asked, hanswered, h.order, List.append_assoc, List.append_assoc,
    List.drop_left, List.append_assoc, List.append_assoc, ← skidding_step (A := A) hup,
    ← List.append_assoc (p.decoding n), ← decoding_step (A := A) hup hdrops]
  simp only [List.append_assoc]

/-- The request for no slave is in the decoder when the error is granted. -/
theorem Grants.none_step (h : p.Grants A) (hdisjoint : A.Disjoint)
    (hup : (upPort p i n).cyc = true) (hmerr : p.oMerr n = false)
    (hbefore : (p.grant n).none = false) (hnone : ((p.step i A).grant n).none = true) :
  (p.step i A).dcdStb n = true ∧ (A.decode ((p.step i A).m n).addr).none = true
  := by
  obtain ⟨hreset, hcyc⟩ := upPort_cyc.mp hup
  have honehot := h.request_oneHot (i := i) hdisjoint n
  simp only [Wbxbar.step, hreset, hcyc, Bool.not_true, Bool.or_self, Bool.false_eq_true, if_false]
    at hnone
  split_ifs at hnone with hstay havailable hstb
  · rw [hbefore] at hnone
    contradiction
  · have hmovable : p.movable n = true := by
      by_contra hnot
      rw [Bool.not_eq_true] at hnot
      apply hstay
      rw [stayOnChannel_eq_true]
      right
      right
      apply hnot
    have hmstb := mStb_of_available (h.movable_of_not_full hmovable) havailable
    have hvalid : p.dcdStb n = true := by
      rw [mStb, h.movable_of_not_full hmovable, hcyc, if_neg Bool.false_ne_true, Bool.true_and]
        at hmstb
      apply hmstb
    have hown : (p.mgrant n && p.requestsOwn i n) = false := by
      rw [← Bool.not_eq_true, Bool.and_eq_true, h.mgrant, hbefore]
      rintro ⟨⟨s, hgrant⟩ | hnot, hown⟩
      · rw [requestsOwn, h.mindex n s hgrant, entry_val] at hown
        rw [honehot.none s hown] at hnone
        contradiction
      · contradiction
    have hstall : p.mStall i n = true := by
      rw [mStall, hmerr, hbefore, hown, if_neg Bool.false_ne_true, if_neg Bool.false_ne_true,
        if_neg Bool.false_ne_true, hmstb]
    have hsame := adcd_of_mStall (A := A) hup hvalid hstall
    rw [dcdStb, m, hsame]
    use hvalid
    rw [request, hcyc, hvalid, Bool.and_self, if_pos rfl, h.decoded n hvalid] at hnone
    apply hnone
  · cases hnone
  · rw [hbefore] at hnone
    contradiction

/-- A master that gives up its slave has no requests inside. -/
theorem Carries.nothing_inside (h : Carries A pending p n asked shown inside)
    (hgrants : p.Grants A) (hdisjoint : A.Disjoint) (hgrant : (p.grant n).slave s = true)
    (hup : (upPort p i n).cyc = true) (hmerr : p.oMerr n = false)
    (hleft : ((p.step i A).grant n).slave s = false) :
  inside ++ p.passing i n = []
  := by
  have hlost : ¬ p.Keeps i n s := by
    intro hkeeps
    rw [(hgrants.grant_step hdisjoint).mpr ⟨upPort_cyc.mp hup, Or.inl hkeeps⟩] at hleft
    contradiction
  rw [Keeps, and_iff_right hgrant, not_or, not_or, Bool.not_eq_true, Bool.not_eq_false] at hlost
  obtain ⟨hrequest, hmovable, -⟩ := hlost
  have hempty : p.mempty n = true := by
    rw [movable, (hgrants.mgrant n).mpr (Or.inl ⟨s, hgrant⟩)] at hmovable
    apply hmovable
  rw [h.counts.mempty, decide_eq_true_eq, List.length_append] at hempty
  have hinside : inside = [] := by
    apply List.eq_nil_of_length_eq_zero
    omega
  rw [hinside, passing, hgrants.accepted_eq hgrant hmerr, hrequest, Bool.false_and, Bool.false_and,
    if_neg Bool.false_ne_true, List.append_nil]

/-- A master that is granted a slave has nothing there yet. -/
theorem Grants.atSlave_of_gains (h : p.Grants A) (hdisjoint : A.Disjoint)
    (hbefore : (p.grant n).slave s = false) (hgrant : ((p.step i A).grant n).slave s = true)
    (pending : Fin ns → List (BusRequest aw dw)) :
  (p.step i A).atSlave pending s = []
  := by
  obtain ⟨-, hkeeps | hgains⟩ := (h.grant_step hdisjoint).mp hgrant
  · rw [hkeeps.1] at hbefore
    contradiction
  · rw [atSlave, (idle_step hgains.1).1, if_neg Bool.false_ne_true]

/-- What is let through and what is answered account for the requests of a master. -/
theorem Carries.of_parts (h : Carries A pending p n asked shown inside) (hgrants : p.Grants A)
    (hdisjoint : A.Disjoint) (hlg : 2 ≤ lg) (hup : (upPort p i n).cyc = true)
    (hmerr : p.oMerr n = false) (hdrops : p.drops i n = false)
    (hbefore : (p.grant n).none = false) {shown' inside' : List (BusRequest aw dw)}
    {pending' : Fin ns → List (BusRequest aw dw)}
    (hparts : inside ++ p.passing i n = shown' ++ inside')
    (hanswered : shown'.length = ((p.step i A).oMack n).toNat)
    (hwithin : ∀ s, ((p.step i A).grant n).slave s = true →
      inside' = (p.step i A).atSlave pending' s)
    (hwithout : (∀ s, ((p.step i A).grant n).slave s = false) → inside' = []) :
  Carries A pending' (p.step i A) n ((upPort p i n).next asked) shown' inside'
  := by
  constructor
  case order => rw [h.order_step (A := A) hup hmerr hdrops, hparts]
  case answered => apply hanswered
  case counts =>
      have hpassing : (p.passing i n).length = (p.mStb i n && !p.mStall i n).toNat := by
        rw [passing]
        split_ifs with haccepted
        · rw [haccepted]
          rfl
        · rw [Bool.not_eq_true] at haccepted
          rw [haccepted]
          rfl
      have hcount := h.counts.step (A := A) hlg hup hmerr (by
        intro hack
        have hone := h.answered
        rw [hack, Bool.toNat_true] at hone
        rw [List.length_append]
        omega)
      have hlength := congrArg List.length hparts
      rw [List.length_append, hpassing] at hlength
      rw [← hlength]
      rw [List.length_append, h.answered, Nat.add_assoc, Nat.add_sub_cancel_left] at hcount
      apply hcount
  case within => apply hwithin
  case without => apply hwithout
  case none => apply hgrants.none_step hdisjoint hup hmerr hbefore

/-- A clock at which a master is shown no error. -/
theorem Carries.step (h : Carries A pending p n asked shown inside) (hgrants : p.Grants A)
    (hsound : p.Sound A pending) (hdisjoint : A.Disjoint) (hlg : 2 ≤ lg)
    (howed : ∀ s, (downPort p i s).Owed (pending s)) (hup : (upPort p i n).cyc = true)
    (hmerr : p.oMerr n = false) (hdrops : p.drops i n = false)
    (hnext : (p.step i A).oMerr n = false) :
  ∃ shown' inside', Carries A (fun s => (downPort p i s).next (pending s)) (p.step i A) n
    ((upPort p i n).next asked) shown' inside'
  := by
  by_cases hsome : ∃ s, (p.grant n).slave s = true
  · obtain ⟨s, hgrant⟩ := hsome
    obtain ⟨hmack, hmerr', -⟩ := hgrants.answer_step (A := A) hgrant hup hmerr
    rw [hmerr'] at hnext
    have hparts := hgrants.inside_step hsound hgrant hup hmerr hnext
    rw [← h.within s hgrant] at hparts
    use p.answering i pending s,
      (p.step i A).atSlave (fun s => (downPort p i s).next (pending s)) s
    apply h.of_parts hgrants hdisjoint hlg hup hmerr hdrops ((hgrants.oneHot n).none s hgrant)
      hparts
    · rw [length_answering (howed s), hmack]
    · intro s' hgrant'
      by_cases hsame : s' = s
      · rw [hsame]
      · -- The master moves to another slave.
        have honehot := hgrants.oneHot_step (i := i) (n := n) hdisjoint
        have hleft : ((p.step i A).grant n).slave s = false := by
          by_contra hnot
          rw [Bool.not_eq_false] at hnot
          apply hsame (honehot.eq s' s hgrant' hnot)
        have hnone := h.nothing_inside hgrants hdisjoint hgrant hup hmerr hleft
        have hbefore : (p.grant n).slave s' = false := by
          by_contra hnot
          rw [Bool.not_eq_false] at hnot
          apply hsame ((hgrants.oneHot n).eq s' s hnot hgrant)
        rw [hgrants.atSlave_of_gains hdisjoint hbefore hgrant']
        rw [hnone] at hparts
        apply (List.append_eq_nil_iff.mp hparts.symm).2
    · intro hno
      have hnone := h.nothing_inside hgrants hdisjoint hgrant hup hmerr (hno s)
      rw [hnone] at hparts
      apply (List.append_eq_nil_iff.mp hparts.symm).2
  · have hno : ∀ s, (p.grant n).slave s = false := by
      intro s
      by_contra hnot
      rw [Bool.not_eq_false] at hnot
      apply hsome ⟨s, hnot⟩
    obtain ⟨hmack, hmerr'⟩ := hgrants.answer_of_not_granted (A := A) hno hup hmerr
    rw [hmerr'] at hnext
    have hpassing : p.passing i n = [] := by
      rw [passing, if_neg]
      intro haccepted
      obtain ⟨s, hgrant, -⟩ := hgrants.exists_of_accepted hmerr haccepted
      rw [hno s] at hgrant
      contradiction
    use [], []
    apply h.of_parts hgrants hdisjoint hlg hup hmerr hdrops hnext
    · rw [h.without hno, hpassing]
    · rw [hmack]
      rfl
    · intro s hgrant
      rw [hgrants.atSlave_of_gains hdisjoint (hno s) hgrant]
    · intro _
      rfl

omit [NeZero ns] in
theorem reset_of_not_cyc (hup : (upPort p i n).cyc = false) :
  (i.iReset || !i.iMcyc n) = true
  := by
  have hor : (i.iMcyc n && !i.iReset) = false := hup
  cases hreset : i.iReset with
  | true => rfl
  | false =>
      rw [hreset, Bool.not_false, Bool.and_true] at hor
      rw [hor]
      rfl

/-- A master is answered only in a cycle. -/
theorem quiet_of_not_cyc (hup : (upPort p i n).cyc = false) :
  (p.step i A).oMack n = false ∧ (p.step i A).oMerr n = false
  := by
  have hquiet : (i.iReset || !i.iMcyc n || p.oMerr n) = true := by
    rw [reset_of_not_cyc hup, Bool.true_or]
  constructor
  · simp only [oMack, Wbxbar.step, hquiet, if_true]
  · simp only [oMerr] at hquiet
    simp only [oMerr, Wbxbar.step, hquiet, if_true]

/-- A master that drops its cycle starts anew. -/
theorem carries_of_not_cyc (hlg : 2 ≤ lg) (hup : (upPort p i n).cyc = false)
    (pending' : Fin ns → List (BusRequest aw dw)) :
  Carries A pending' (p.step i A) n ((upPort p i n).next asked) [] []
  := by
  have hdown := reset_of_not_cyc hup
  have hgrant : (p.step i A).grant n = .zero := by simp only [Wbxbar.step, hdown, if_true]
  have hdecoding : (p.step i A).decoding n = [] := by
    have hstb : (p.step i A).dcdStb n = false := by
      apply Addrdecode.oValid_step_eq_false
      rw [Bool.or_eq_true, Bool.not_eq_true'] at hdown
      rcases hdown with hreset | hcyc
      · left
        apply hreset
      · right
        rw [adcdInput, hcyc]
        simp
    rw [decoding, hstb, if_neg Bool.false_ne_true]
  have hskidding : (p.step i A).skidding n = [] := by
    rw [skidding]
    have hheld : ((p.step i A).iskid n).held skid = [] := Skidbuffer.held_reset hdown
    rw [hheld]
    rfl
  constructor
  case order =>
      rw [Port.next_of_not_cyc hup, hdecoding, hskidding]
      rfl
  case answered =>
      rw [(quiet_of_not_cyc hup).1]
      rfl
  case counts => apply counts_of_not_cyc hlg hup
  case within =>
      intro s hnot
      rw [hgrant] at hnot
      cases hnot
  case without =>
      intro _
      rfl
  case none =>
      intro hnot
      rw [hgrant] at hnot
      cases hnot

end Step

/-! ### Runs -/

section Runs

variable (A) (p₀ : Wbxbar nm ns aw dw lg) (inp : ℕ → Input nm ns aw dw)

/-- The port of a master. -/
def up (n : Fin nm) (t : ℕ) : Port (BusRequest aw dw) (BitVec dw) :=
  (state A p₀ inp t).upPort (inp t) n

/-- The port of a slave. -/
def down (s : Fin ns) (t : ℕ) : Port (BusRequest aw dw) (BitVec dw) :=
  (state A p₀ inp t).downPort (inp t) s

/-- The requests of a master that it has not had answered before clock `t`. -/
def asked (n : Fin nm) : ℕ → List (BusRequest aw dw) := Port.pending (up A p₀ inp n)

/-- The requests that a slave has accepted and not answered before clock `t`. -/
def pending (s : Fin ns) : ℕ → List (BusRequest aw dw) := Port.pending (down A p₀ inp s)

/-- Since its cycle has begun a master has been shown no error, and no request of it has been
dropped. -/
def undisturbed (n : Fin nm) : ℕ → Bool
  | 0 => true
  | t + 1 =>
      !(up A p₀ inp n t).cyc
        || undisturbed n t && !(state A p₀ inp t).oMerr n && !(state A p₀ inp t).drops (inp t) n

/-- At clock `t` a slave can answer the request `a`, which is the oldest one it has. -/
structure Oldest (s : Fin ns) (t : ℕ) (a : BusRequest aw dw) : Prop where
  cyc : (down A p₀ inp s t).cyc = true
  head : ((down A p₀ inp s t).asked (pending A p₀ inp s t)).head? = some a
  decoded : (A.decode a.addr).slave s = true

/-- What makes the run from `p₀` on `inp` that of a crossbar. -/
structure Routes : Prop where
  /-- No slave is granted to two masters, and no master has two slaves. -/
  exclusive : ∀ t n n' s, ((state A p₀ inp t).grant n).slave s = true →
    ((state A p₀ inp t).grant n').slave s = true → n = n'
  single : ∀ t n, ((state A p₀ inp t).grant n).OneHot
  /-- The requests of a master are answered in order, each by the slave it is for. -/
  acks : ∀ t n, undisturbed A p₀ inp n (t + 1) = true →
    (state A p₀ inp (t + 1)).oMack n = true →
    ∃ s a rest, asked A p₀ inp n (t + 1) = a :: rest
      ∧ ((state A p₀ inp t).grant n).slave s = true ∧ Oldest A p₀ inp s t a
      ∧ (down A p₀ inp s t).ack = true
      ∧ (state A p₀ inp (t + 1)).oMdata n = (down A p₀ inp s t).data
  /-- An error is that of the slave, or there is no slave for the request. -/
  errs : ∀ t n, undisturbed A p₀ inp n (t + 1) = true →
    (state A p₀ inp (t + 1)).oMerr n = true →
    ∃ a rest, asked A p₀ inp n (t + 1) = a :: rest ∧ ((A.decode a.addr).none = true
      ∨ ∃ s, ((state A p₀ inp t).grant n).slave s = true ∧ Oldest A p₀ inp s t a
        ∧ (down A p₀ inp s t).err = true)
  /-- A slave is given the requests of its master in order, none twice and none left out. -/
  accepts : ∀ t n s a, undisturbed A p₀ inp n t = true →
    (state A p₀ inp t).oMerr n = false → ((state A p₀ inp t).grant n).slave s = true →
    (down A p₀ inp s t).request = some a →
    ∃ shown rest, shown.length = ((state A p₀ inp t).oMack n).toNat
      ∧ asked A p₀ inp n t = shown ++ pending A p₀ inp s t ++ a :: rest
  /-- The requests of a master are kept until they are answered. -/
  keeps : ∀ t n, undisturbed A p₀ inp n t = true → (state A p₀ inp t).oMerr n = false →
    ∃ shown inside, Carries A (fun s => pending A p₀ inp s t) (state A p₀ inp t) n
      (asked A p₀ inp n t) shown inside
  /-- Nothing is dropped of a master with fewer than `2 ^ lg` requests unanswered. -/
  room : ∀ t n, undisturbed A p₀ inp n t = true → (state A p₀ inp t).oMerr n = false →
    (asked A p₀ inp n t).length < 2 ^ lg → (state A p₀ inp t).drops (inp t) n = false

variable {A p₀ inp}

/-- The slaves answer only what they have been asked. -/
def Owed (A : AddressMap ns aw) (p₀ : Wbxbar nm ns aw dw lg) (inp : ℕ → Input nm ns aw dw) : Prop :=
  ∀ s t, (down A p₀ inp s t).Owed (pending A p₀ inp s t)

theorem Initial.sound (h : p₀.Initial) :
  p₀.Sound A fun _ => []
  := by
  constructor
  case oScyc =>
      intro s hstb
      rw [h.oSstb] at hstb
      contradiction
  case offering =>
      intro s hstb
      rw [h.oSstb] at hstb
      contradiction
  case pending =>
      intro s a ha
      contradiction

theorem run_sound (hdisjoint : A.Disjoint) (h₀ : p₀.Initial) (t : ℕ) :
  (state A p₀ inp t).Sound A fun s => pending A p₀ inp s t
  := by
  induction t with
  | zero => apply h₀.sound
  | succ t ih => apply ih.step (run_grants hdisjoint h₀ t)

theorem Initial.carries (h : p₀.Initial) (hlg : 2 ≤ lg) (n : Fin nm) :
  Carries A (fun _ => []) p₀ n [] [] []
  := by
  have hpow : 2 ^ 2 ≤ 2 ^ lg := Nat.pow_le_pow_right (by decide) hlg
  constructor
  case order =>
      have hheld : (p₀.iskid n).held skid = [] := (h.iskid n).held
      rw [decoding, dcdStb, h.oValid, skidding, hheld]
      rfl
  case answered =>
      rw [oMack, h.rMack]
      rfl
  case counts =>
      constructor
      · rw [h.lclpending]
        rfl
      · rw [h.mempty]
        rfl
      · rw [h.mfull, List.append_nil, List.length_nil, decide_eq_false (by omega)]
      · rw [h.mnearfull, List.append_nil, List.length_nil, decide_eq_false (by omega)]
  case within =>
      intro s hgrant
      rw [h.grant] at hgrant
      cases hgrant
  case without =>
      intro _
      rfl
  case none =>
      intro hnone
      rw [h.grant] at hnone
      cases hnone

/-- A master that has not been disturbed has its requests carried. -/
theorem run_carries (hdisjoint : A.Disjoint) (hlg : 2 ≤ lg) (h₀ : p₀.Initial)
    (howed : Owed A p₀ inp) {n : Fin nm} {t : ℕ} (hundisturbed : undisturbed A p₀ inp n t = true)
    (hmerr : (state A p₀ inp t).oMerr n = false) :
  ∃ shown inside, Carries A (fun s => pending A p₀ inp s t) (state A p₀ inp t) n
    (asked A p₀ inp n t) shown inside
  := by
  induction t with
  | zero => exact ⟨[], [], h₀.carries hlg n⟩
  | succ t ih =>
      cases hup : (up A p₀ inp n t).cyc with
      | false => exact ⟨[], [], carries_of_not_cyc hlg hup _⟩
      | true =>
          rw [undisturbed, hup, Bool.not_true, Bool.false_or, Bool.and_eq_true, Bool.and_eq_true,
            Bool.not_eq_true', Bool.not_eq_true'] at hundisturbed
          obtain ⟨⟨hbefore, hmerr'⟩, hdrops⟩ := hundisturbed
          obtain ⟨shown, inside, hcarries⟩ := ih hbefore hmerr'
          apply hcarries.step (run_grants hdisjoint h₀ t) (run_sound hdisjoint h₀ t) hdisjoint hlg
            (fun s => howed s t) hup hmerr' hdrops hmerr

/-- Before a clock at which a master is answered it has a cycle, and is carried. -/
theorem carries_before (hdisjoint : A.Disjoint) (hlg : 2 ≤ lg) (h₀ : p₀.Initial)
    (howed : Owed A p₀ inp) {n : Fin nm} {t : ℕ}
    (hundisturbed : undisturbed A p₀ inp n (t + 1) = true)
    (hanswer : ((state A p₀ inp (t + 1)).oMack n || (state A p₀ inp (t + 1)).oMerr n) = true) :
  (up A p₀ inp n t).cyc = true ∧ (state A p₀ inp t).oMerr n = false
    ∧ (state A p₀ inp t).drops (inp t) n = false
    ∧ ∃ shown inside, Carries A (fun s => pending A p₀ inp s t) (state A p₀ inp t) n
      (asked A p₀ inp n t) shown inside
  := by
  cases hup : (up A p₀ inp n t).cyc with
  | false =>
      obtain ⟨hmack, hmerr⟩ := quiet_of_not_cyc (A := A) hup
      rw [state_succ, hmack, hmerr] at hanswer
      contradiction
  | true =>
      rw [undisturbed, hup, Bool.not_true, Bool.false_or, Bool.and_eq_true, Bool.and_eq_true,
        Bool.not_eq_true', Bool.not_eq_true'] at hundisturbed
      obtain ⟨⟨hbefore, hmerr⟩, hdrops⟩ := hundisturbed
      use rfl, hmerr, hdrops
      apply run_carries hdisjoint hlg h₀ howed hbefore hmerr

/-- A slave that answers has something to answer. -/
theorem oldest_of_answer (hdisjoint : A.Disjoint) (h₀ : p₀.Initial) (howed : Owed A p₀ inp)
    {s : Fin ns} {t : ℕ} (hcyc : (down A p₀ inp s t).cyc = true)
    (hanswer : ((down A p₀ inp s t).ack || (down A p₀ inp s t).err) = true) :
  ∃ a rest, (down A p₀ inp s t).asked (pending A p₀ inp s t) = a :: rest
    ∧ Oldest A p₀ inp s t a
  := by
  obtain ⟨a, hasked⟩ := Port.exists_of_answered (howed s t) hcyc hanswer
  refine ⟨a, _, hasked, ?_⟩
  constructor
  case cyc => apply hcyc
  case head =>
      rw [hasked]
      rfl
  case decoded =>
      apply (run_sound hdisjoint h₀ t).decoded (i := inp t)
      change a ∈ (down A p₀ inp s t).asked (pending A p₀ inp s t)
      rw [hasked]
      apply List.mem_cons_self

theorem run_acks (hdisjoint : A.Disjoint) (hlg : 2 ≤ lg) (h₀ : p₀.Initial)
    (howed : Owed A p₀ inp) {n : Fin nm} {t : ℕ}
    (hundisturbed : undisturbed A p₀ inp n (t + 1) = true)
    (hmack : (state A p₀ inp (t + 1)).oMack n = true) :
  ∃ s a rest, asked A p₀ inp n (t + 1) = a :: rest
    ∧ ((state A p₀ inp t).grant n).slave s = true ∧ Oldest A p₀ inp s t a
    ∧ (down A p₀ inp s t).ack = true
    ∧ (state A p₀ inp (t + 1)).oMdata n = (down A p₀ inp s t).data
  := by
  obtain ⟨hup, hmerr, hdrops, shown, inside, h⟩ := carries_before hdisjoint hlg h₀ howed
    hundisturbed (by rw [hmack, Bool.true_or])
  have hgrants : (state A p₀ inp t).Grants A := run_grants hdisjoint h₀ t
  by_cases hsome : ∃ s, ((state A p₀ inp t).grant n).slave s = true
  · obtain ⟨s, hgrant⟩ := hsome
    obtain ⟨hmack', -, hdata⟩ := hgrants.answer_step (A := A) hgrant hup hmerr
    rw [state_succ, hmack', sAck, Bool.and_eq_true] at hmack
    obtain ⟨hcyc, hack⟩ := hmack
    have hack' : (down A p₀ inp s t).ack = true := hack
    have hcyc' : (down A p₀ inp s t).cyc = true := hcyc
    obtain ⟨a, rest, hasked, holdest⟩ := oldest_of_answer hdisjoint h₀ howed hcyc'
      (by rw [hack', Bool.true_or])
    have herr : (state A p₀ inp t).sErr (inp t) s = false := by
      rw [sErr, hcyc, Bool.true_and]
      apply (howed s t).single _ hack'
      rw [Port.answered, hcyc', hack', Bool.true_or, Bool.and_self]
    have hparts := hgrants.inside_step (run_sound hdisjoint h₀ t) hgrant hup hmerr herr
    have hanswering : (state A p₀ inp t).answering (inp t) (fun s => pending A p₀ inp s t) s
        = [a] := by
      rw [answering, sAck, hcyc, hack]
      change ((down A p₀ inp s t).asked (pending A p₀ inp s t)).take 1 = [a]
      rw [hasked]
      rfl
    rw [← h.within s hgrant, hanswering] at hparts
    have horder : asked A p₀ inp n (t + 1) = _ := h.order_step (A := A) hup hmerr hdrops
    rw [hparts] at horder
    exact ⟨s, a, _, horder, hgrant, holdest, hack', hdata⟩
  · have hno : ∀ s, ((state A p₀ inp t).grant n).slave s = false := by
      intro s
      by_contra hnot
      rw [Bool.not_eq_false] at hnot
      apply hsome ⟨s, hnot⟩
    rw [state_succ, (hgrants.answer_of_not_granted (A := A) hno hup hmerr).1] at hmack
    contradiction

theorem run_errs (hdisjoint : A.Disjoint) (hlg : 2 ≤ lg) (h₀ : p₀.Initial)
    (howed : Owed A p₀ inp) {n : Fin nm} {t : ℕ}
    (hundisturbed : undisturbed A p₀ inp n (t + 1) = true)
    (hmerr : (state A p₀ inp (t + 1)).oMerr n = true) :
  ∃ a rest, asked A p₀ inp n (t + 1) = a :: rest ∧ ((A.decode a.addr).none = true
    ∨ ∃ s, ((state A p₀ inp t).grant n).slave s = true ∧ Oldest A p₀ inp s t a
      ∧ (down A p₀ inp s t).err = true)
  := by
  obtain ⟨hup, hbefore, hdrops, shown, inside, h⟩ := carries_before hdisjoint hlg h₀ howed
    hundisturbed (by rw [hmerr, Bool.or_true])
  have hgrants : (state A p₀ inp t).Grants A := run_grants hdisjoint h₀ t
  have horder : asked A p₀ inp n (t + 1) = _ := h.order_step (A := A) hup hbefore hdrops
  by_cases hsome : ∃ s, ((state A p₀ inp t).grant n).slave s = true
  · obtain ⟨s, hgrant⟩ := hsome
    obtain ⟨-, hmerr', -⟩ := hgrants.answer_step (A := A) hgrant hup hbefore
    rw [state_succ, hmerr', sErr, Bool.and_eq_true] at hmerr
    obtain ⟨hcyc, herr⟩ := hmerr
    have herr' : (down A p₀ inp s t).err = true := herr
    obtain ⟨a, rest, hasked, holdest⟩ := oldest_of_answer hdisjoint h₀ howed hcyc
      (by rw [herr', Bool.or_true])
    obtain ⟨others, hinside⟩ := @asked_begins _ _ _ _ _ _ (inp t) s
      (fun s => pending A p₀ inp s t) hcyc
    have hasked' : ((state A p₀ inp t).downPort (inp t) s).asked (pending A p₀ inp s t)
        = a :: rest := hasked
    rw [hasked'] at hinside
    rw [h.within s hgrant, ← hinside] at horder
    exact ⟨a, _, horder, Or.inr ⟨s, hgrant, holdest, herr'⟩⟩
  · have hno : ∀ s, ((state A p₀ inp t).grant n).slave s = false := by
      intro s
      by_contra hnot
      rw [Bool.not_eq_false] at hnot
      apply hsome ⟨s, hnot⟩
    rw [state_succ, (hgrants.answer_of_not_granted (A := A) hno hup hbefore).2] at hmerr
    obtain ⟨hstb, hnone⟩ := h.none hmerr
    have hstall : (state A p₀ inp t).mStall (inp t) n = true := by
      rw [mStall, hbefore, hmerr, if_neg Bool.false_ne_true, if_pos rfl]
    have hdecoding : (state A p₀ inp (t + 1)).decoding n
        = [((state A p₀ inp t).m n).shown] := by
      rw [state_succ, decoding, dcdStb, m, adcd_of_mStall hup hstb hstall]
      rw [dcdStb] at hstb
      rw [hstb, if_pos rfl]
      rfl
    rw [h.without hno, passing, hstall, Bool.not_true, Bool.and_false, if_neg Bool.false_ne_true,
      ← state_succ, hdecoding] at horder
    exact ⟨_, _, horder, Or.inl hnone⟩

/-- The crossbar routes, whatever the masters do. -/
theorem routes (husable : A.Usable) (hlg : 2 ≤ lg) (h₀ : p₀.Initial) (howed : Owed A p₀ inp) :
  Routes A p₀ inp
  := by
  have hdisjoint := husable.disjoint
  constructor
  case exclusive =>
      intro t
      apply (run_grants hdisjoint h₀ t).unique
  case single =>
      intro t
      apply (run_grants hdisjoint h₀ t).oneHot
  case acks =>
      intro t n
      apply run_acks hdisjoint hlg h₀ howed
  case errs =>
      intro t n
      apply run_errs hdisjoint hlg h₀ howed
  case accepts =>
      intro t n s a hundisturbed hmerr hgrant hrequest
      obtain ⟨shown, inside, h⟩ := run_carries hdisjoint hlg h₀ howed hundisturbed hmerr
      use shown
      have hrequest' : (if (state A p₀ inp t).oSstb s && !(inp t).iSstall s
          then some ((state A p₀ inp t).oS s) else none) = some a := hrequest
      split_ifs at hrequest' with hstb
      have hstb' := (Bool.and_eq_true_iff.mp hstb).1
      have hinside := h.within s hgrant
      rw [atSlave, (run_sound hdisjoint h₀ t).oScyc s hstb', if_pos rfl, offering, hstb',
        if_pos rfl, Option.some.inj hrequest'] at hinside
      have horder := h.order
      rw [hinside] at horder
      use (state A p₀ inp t).decoding n ++ (state A p₀ inp t).skidding n, h.answered
      rw [horder]
      simp
  case keeps =>
      intro t n
      apply run_carries hdisjoint hlg h₀ howed
  case room =>
      intro t n hundisturbed hmerr hroom
      obtain ⟨shown, inside, h⟩ := run_carries hdisjoint hlg h₀ howed hundisturbed hmerr
      rw [drops, ← Bool.not_eq_true, Bool.and_eq_true, Bool.and_eq_true]
      rintro ⟨⟨hstb, hfull⟩, -⟩
      rw [h.counts.mfull, decide_eq_true_eq] at hfull
      rw [h.order, List.length_append, @List.length_append _ (decoding _ _), decoding, hstb,
        if_pos rfl, List.length_singleton] at hroom
      omega

end Runs

/-- The slaves of `wb_xbar`. -/
def wbXbar : AddressMap 7 23 where
  slaveAddr := ![0x080000, 0x100000, 0x180000, 0x200000, 0x280000, 0x300000, 0x400000]
  slaveMask := ![0x780000, 0x780000, 0x780000, 0x780000, 0x780000, 0x780000, 0x400000]
  accessAllowed := fun _ => true

/-- The registers with an initial value have it, the others are zero. -/
def powerUp : Wbxbar 2 7 23 32 6 where
  iskid := fun _ => ⟨false, 0, false, 0⟩
  adcd := fun _ => ⟨false, .zero, 0, (false, 0, 0)⟩
  grant := fun _ => .zero
  mgrant := fun _ => false
  sgrant := fun _ => false
  mindex := fun _ => 0
  sindex := fun _ => 0
  oScyc := fun _ => false
  oSstb := fun _ => false
  oS := fun _ => .zero
  rMack := fun _ => false
  rMerr := fun _ => false
  oMdata := fun _ => 0
  lclpending := fun _ => 0
  mfull := fun _ => false
  mnearfull := fun _ => false
  mempty := fun _ => true

/-- Both masters write to the block RAM, which answers at clock 4. -/
def bothWrite (t : ℕ) : Input 2 7 23 32 where
  iReset := false
  iMcyc := fun _ => true
  iMstb := fun _ => t == 0
  iM := fun n => ⟨true, 0x300000, if n = 0 then 7 else 9, 15⟩
  iSstall := fun _ => false
  iSack := fun s => t == 4 && s == 5
  iSerr := fun _ => false
  iSdata := fun _ => 0

theorem routes_bothWrite :
  ∃ s a rest, asked wbXbar powerUp bothWrite 0 5 = a :: rest
    ∧ ((state wbXbar powerUp bothWrite 4).grant 0).slave s = true
    ∧ Oldest wbXbar powerUp bothWrite s 4 a
    ∧ (down wbXbar powerUp bothWrite s 4).ack = true
    ∧ (state wbXbar powerUp bothWrite 5).oMdata 0
      = (down wbXbar powerUp bothWrite s 4).data
  := by
  have howed : Owed wbXbar powerUp bothWrite := by
    intro s t
    constructor
    case asked =>
        intro hanswered
        have hclock : t = 4 ∧ s = 5 := by
          have hanswer := (Bool.and_eq_true_iff.mp hanswered).2
          simpa [down, downPort, bothWrite] using hanswer
        obtain ⟨rfl, rfl⟩ := hclock
        have hsome : ((down wbXbar powerUp bothWrite 5 4).asked
            (pending wbXbar powerUp bothWrite 5 4)).isEmpty = false := by decide +kernel
        intro hnone
        rw [hnone] at hsome
        contradiction
    case single =>
        intro _ _
        rfl
  have h₀ : powerUp.Initial := by
    constructor <;> first | rfl | (intro _; rfl) | (intro _; constructor <;> rfl)
  have husable : wbXbar.Usable := by
    constructor <;> decide
  apply (routes husable (by decide) h₀ howed).acks 4 0
  · decide +kernel
  · decide +kernel

end Wbxbar

end ZBasic
