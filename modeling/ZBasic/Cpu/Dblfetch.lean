import Mathlib.Tactic.IntervalCases
import ZBasic.Clocked.Bits
import ZBasic.Clocked.Run
import ZBasic.Wishbone.Reads

/-!
# The two-word prefetch

`dblfetch` keeps the word it shows to the CPU and one more. It asks for further words only
when both have a place, so that whatever the bus returns is kept until it is consumed. A
word that could not be read is marked illegal, and so is every later one until the next
program counter is requested.
-/

namespace ZBasic

open Clocked Wishbone

/-- The registers of `dblfetch`. -/
structure Dblfetch (aw : ℕ) where
  oWbCyc : Bool
  oWbStb : Bool
  inflight : BitVec 2
  invalidBusCycle : Bool
  oWbAddr : BitVec aw
  oValid : Bool
  oInsn : BitVec 32
  oPc : BitVec (aw + 2)
  oIllegal : Bool
  cacheValid : Bool
  cacheWord : BitVec 32
  cacheIllegal : Bool

namespace Dblfetch

variable {aw : ℕ}

/-- The inputs at a clock. -/
structure Input (aw : ℕ) where
  iReset : Bool
  iNewPc : Bool
  iClearCache : Bool
  iStallN : Bool
  iPc : BitVec (aw + 2)
  iWbStall : Bool
  iWbAck : Bool
  iWbErr : Bool
  iWbData : BitVec 32

/-- Neither a reset nor a new request comes at this clock. -/
structure Input.Undisturbed (i : Input aw) : Prop where
  iReset : i.iReset = false
  iNewPc : i.iNewPc = false
  iClearCache : i.iClearCache = false

/-- The registers at power up; the words and the upper part of the program counter have no
initial value. -/
def initial (oInsn cacheWord : BitVec 32) (oPc : BitVec aw) : Dblfetch aw where
  oWbCyc := false
  oWbStb := false
  inflight := 0
  invalidBusCycle := false
  oWbAddr := -1
  oValid := false
  oInsn := oInsn
  oPc := oPc ++ 0#2
  oIllegal := false
  cacheValid := false
  cacheWord := cacheWord
  cacheIllegal := false

/-- The address of the word at a program counter. -/
def wordOf (pc : BitVec (aw + 2)) : BitVec aw := pc.extractLsb' 2 aw

/-- The program counter `k` words on. -/
def wordAt (pc : BitVec (aw + 2)) (k : ℕ) : BitVec (aw + 2) :=
  (wordOf pc + BitVec.ofNat aw k) ++ pc.extractLsb' 0 2

section Wires

variable (p : Dblfetch aw) (i : Input aw)

/-- `last_stb` -/
def lastStb : Bool := p.inflight ≠ 0 || p.oValid && !i.iStallN

/-- A request is accepted by the bus. -/
def request : Bool := p.oWbStb && !i.iWbStall

/-- `dblfetch` as the bus sees it. -/
def read : Read (BitVec aw) (BitVec 32) where
  cyc := p.oWbCyc
  request := if p.request i then some p.oWbAddr else none
  ack := i.iWbAck
  err := i.iWbErr
  data := i.iWbData

/-- The bus is released. -/
def release : Bool :=
  i.iWbAck && !p.oWbStb && p.inflight ≤ 1 || !p.oWbStb && p.inflight == 0
    || i.iNewPc || i.iClearCache

/-- One clock of `dblfetch`. -/
def step : Dblfetch aw where
  oWbCyc :=
    if i.iReset || p.oWbCyc && i.iWbErr then false
    else if p.oWbCyc then !p.release i
    else i.iNewPc || p.invalidBusCycle || p.oValid && i.iStallN && !p.oIllegal
  oWbStb :=
    if i.iReset || p.oWbCyc && i.iWbErr then false
    else if p.oWbCyc then
      if p.release i then false
      else if !p.oWbStb || !i.iWbStall then !p.lastStb i
      else p.oWbStb
    else if i.iNewPc || p.invalidBusCycle || p.oValid && i.iStallN && !p.oIllegal then true
    else p.oWbStb
  inflight :=
    if !p.oWbCyc then 0
    else
      match p.request i, i.iWbAck with
      | false, true => p.inflight - 1
      | true, false => p.inflight + 1
      | _, _ => p.inflight
  invalidBusCycle :=
    if p.oWbCyc && i.iNewPc then true
    else if !p.oWbCyc then false
    else p.invalidBusCycle
  oWbAddr :=
    if i.iNewPc then wordOf i.iPc
    else if p.request i then p.oWbAddr + 1
    else p.oWbAddr
  oValid :=
    if i.iReset || i.iNewPc || i.iClearCache then false
    else if p.oWbCyc && (i.iWbAck || i.iWbErr) then true
    else if i.iStallN then p.cacheValid
    else p.oValid
  oInsn :=
    if !p.oValid || i.iStallN then
      if p.cacheValid then p.cacheWord else i.iWbData
    else p.oInsn
  oPc :=
    if i.iNewPc then i.iPc
    else if p.oValid && i.iStallN then wordAt p.oPc 1
    else p.oPc
  oIllegal :=
    if i.iReset || i.iNewPc || i.iClearCache then false
    else if !p.oValid || i.iStallN then
      if p.cacheValid then p.oIllegal || p.cacheIllegal
      else if p.oWbCyc && i.iWbErr then true
      else p.oIllegal
    else p.oIllegal
  cacheValid :=
    if i.iReset || i.iNewPc || i.iClearCache then false
    else if p.oValid && p.oWbCyc && (i.iWbAck || i.iWbErr) then !i.iStallN || p.cacheValid
    else if i.iStallN then false
    else p.cacheValid
  cacheWord := if i.iWbAck then i.iWbData else p.cacheWord
  cacheIllegal :=
    if i.iReset || i.iClearCache || i.iNewPc then false
    else if p.oWbCyc && i.iWbErr && p.oValid && !i.iStallN then true
    else p.cacheIllegal

end Wires

/-! ### Words on their way to the CPU -/

/-- An instruction with its program counter. -/
structure Word (aw : ℕ) where
  pc : BitVec (aw + 2)
  insn : BitVec 32

/-- The words that are kept, the one shown first. -/
def held (p : Dblfetch aw) : List (Word aw) :=
  (if p.oValid then [⟨p.oPc, p.oInsn⟩] else [])
    ++ if p.cacheValid then [⟨wordAt p.oPc 1, p.cacheWord⟩] else []

/-- The word consumed at this clock. -/
def taken (p : Dblfetch aw) (i : Input aw) : List (Word aw) :=
  if p.oValid && i.iStallN then [⟨p.oPc, p.oInsn⟩] else []

/-- What the bus returned is what the CPU is shown. -/
def Shows (r : BitVec aw × Option (BitVec 32)) (e : Word aw) : Prop :=
  r.1 = wordOf e.pc ∧ ∀ w, r.2 = some w → e.insn = w

/-- An answer of the bus is an error. -/
def failed (r : BitVec aw × Option (BitVec 32)) : Bool := r.2.isNone

/-- Nothing is fetched. -/
structure Idle (p : Dblfetch aw) : Prop where
  oWbCyc : p.oWbCyc = false
  oWbStb : p.oWbStb = false
  oValid : p.oValid = false
  cacheValid : p.cacheValid = false
  invalidBusCycle : p.invalidBusCycle = false

/-- Words are fetched from the program counter `pc` on: the bus has answered with `replies`,
and the words `consumed` have gone to the CPU. -/
structure Live (mem : BitVec aw → BitVec 32) (pending : List (BitVec aw))
    (pc : BitVec (aw + 2)) (replies : List (BitVec aw × Option (BitVec 32)))
    (consumed : List (Word aw)) (p : Dblfetch aw) : Prop where
  oPc : p.oPc = wordAt pc consumed.length
  /-- The words come one after the other. -/
  order : ∀ k e, (consumed ++ p.held)[k]? = some e → e.pc = wordAt pc k
  /-- Each word returned has been consumed or is held. -/
  shows : List.Forall₂ Shows replies (consumed ++ p.held)
  data : ∀ r ∈ replies, ∀ w, r.2 = some w → w = mem r.1
  oValid : p.cacheValid = true → p.oValid = true
  oWbStb : p.oWbCyc = false → p.oWbStb = false
  invalid : p.invalidBusCycle = true → p.oWbCyc = false ∧ p.oValid = false ∧ p.oIllegal = false
  /-- No more is asked for than can be kept. -/
  room : p.oWbCyc = true → p.held.length + pending.length + p.oWbStb.toNat ≤ 2
  inflight : p.oWbCyc = true → p.inflight = BitVec.ofNat 2 pending.length
  asks : p.oWbCyc = true → pending = window (fun k => wordOf pc + BitVec.ofNat aw k)
    replies.length (replies.length + pending.length)
  quiet : p.oWbCyc = false → p.cacheValid = true → pending = []
  oWbAddr : p.oWbCyc = true →
    p.oWbAddr = wordOf pc + BitVec.ofNat aw (replies.length + pending.length)
  /-- Where the next cycle begins. -/
  resume : p.oWbCyc = false → p.oIllegal = false →
    p.oWbAddr = wordOf pc + BitVec.ofNat aw replies.length
  oIllegal : p.oIllegal = (replies.take (consumed.length + 1)).any failed
  anyIllegal : (p.oIllegal || p.cacheIllegal) = replies.any failed

/-! ### Program counters -/

theorem wordOf_wordAt (pc : BitVec (aw + 2)) (k : ℕ) :
  wordOf (wordAt pc k) = wordOf pc + BitVec.ofNat aw k
  := by
  rw [wordAt, wordOf, extract_append_high _ _ (Nat.le_refl 2), Nat.sub_self, extract_all]

theorem wordAt_wordAt (pc : BitVec (aw + 2)) (j k : ℕ) :
  wordAt (wordAt pc j) k = wordAt pc (j + k)
  := by
  have hlow : (wordAt pc j).extractLsb' 0 2 = pc.extractLsb' 0 2 := by
    rw [wordAt, extract_append_low _ _ (by omega), extract_all]
  rw [wordAt, wordOf_wordAt, hlow, wordAt, BitVec.ofNat_add, BitVec.add_assoc]

theorem wordAt_zero (pc : BitVec (aw + 2)) :
  wordAt pc 0 = pc
  := by
  have hzero : wordOf pc + BitVec.ofNat aw 0 = wordOf pc := by simp
  rw [wordAt, hzero, wordOf, extract_append_extract]

/-! ### One clock -/

section Step

variable {mem : BitVec aw → BitVec 32} {pending : List (BitVec aw)} {pc : BitVec (aw + 2)}
  {replies : List (BitVec aw × Option (BitVec 32))} {consumed : List (Word aw)}
  {p : Dblfetch aw} {i : Input aw}

theorem length_held (p : Dblfetch aw) :
  p.held.length = p.oValid.toNat + p.cacheValid.toNat
  := by cases hv : p.oValid <;> cases hc : p.cacheValid <;> simp [held, hv, hc]

theorem length_taken (p : Dblfetch aw) (i : Input aw) :
  (p.taken i).length = (p.oValid && i.iStallN).toNat
  := by cases h : p.oValid && i.iStallN <;> simp [taken, h]

theorem answered_read (p : Dblfetch aw) (i : Input aw) :
  (p.read i).answered = (p.oWbCyc && (i.iWbAck || i.iWbErr))
  := rfl

theorem asked_read (p : Dblfetch aw) (i : Input aw) (pending : List (BitVec aw)) :
  (p.read i).asked pending = pending ++ if p.request i then [p.oWbAddr] else []
  := by cases h : p.request i <;> simp [Read.asked, read, h]

/-- A clock at which the bus answers nothing. -/
theorem held_step (h : p.Live mem pending pc replies consumed)
    (hbus : (p.read i).Answers mem pending) (hgo : i.Undisturbed)
    (hno : (p.read i).answered = false) :
  p.taken i ++ (p.step i).held = p.held
  := by
  obtain ⟨hreset, hnew, hclear⟩ := hgo
  have hvalid := h.oValid
  have hquiet := h.quiet
  have hstb := h.oWbStb
  have hasked := hbus.asked
  rw [asked_read, request] at hasked
  rw [answered_read] at hno
  have hack : p.cacheValid = true → i.iWbAck = false := by
    intro hc
    cases hcyc : p.oWbCyc with
    | true => grind
    | false =>
        by_contra hack
        rw [Bool.not_eq_false] at hack
        simp [read, hack, hquiet hcyc hc, hstb hcyc] at hasked
  cases hc : p.cacheValid <;> cases hv : p.oValid <;> cases hsn : i.iStallN <;>
    cases hcyc : p.oWbCyc <;> simp_all [taken, held, step]

/-- What the bus can answer at a clock are the next words. -/
theorem asked_eq (h : p.Live mem pending pc replies consumed) (hcyc : p.oWbCyc = true) :
  (p.read i).asked pending
    = window (fun k => wordOf pc + BitVec.ofNat aw k) replies.length
        (replies.length + (pending.length + (p.request i).toNat))
  := by
  rw [asked_read]
  cases hreq : p.request i with
  | false =>
      rw [if_neg Bool.false_ne_true, List.append_nil, Bool.toNat_false, Nat.add_zero]
      apply h.asks hcyc
  | true =>
      rw [if_pos rfl, Bool.toNat_true, ← Nat.add_assoc, window_snoc _ (Nat.le_add_right _ _),
        ← h.asks hcyc, h.oWbAddr hcyc]

/-- There is a place for what the bus answers. -/
theorem room_of_answered (h : p.Live mem pending pc replies consumed)
    (hbus : (p.read i).Answers mem pending) (hyes : (p.read i).answered = true) :
  p.oWbCyc = true ∧ p.cacheValid = false ∧ 0 < pending.length + (p.request i).toNat
    ∧ p.oValid.toNat + pending.length + p.oWbStb.toNat ≤ 2
  := by
  rw [answered_read, Bool.and_eq_true] at hyes
  obtain ⟨hcyc, hyes⟩ := hyes
  have hroom := h.room hcyc
  have hvalid := h.oValid
  have hpos : 0 < pending.length + (p.request i).toNat := by
    by_contra hnone
    apply hbus.asked hyes
    rw [asked_eq h hcyc, Nat.eq_zero_of_not_pos hnone]
    apply window_self
  have hreq : (p.request i).toNat ≤ p.oWbStb.toNat := by
    rw [request]
    cases p.oWbStb <;> cases i.iWbStall <;> simp
  rw [length_held] at hroom
  have hcache : p.cacheValid = false := by
    by_contra hc
    rw [Bool.not_eq_false] at hc
    rw [hc, hvalid hc, Bool.toNat_true] at hroom
    omega
  rw [hcache, Bool.toNat_false] at hroom
  use hcyc, hcache, hpos, hroom

/-- What the bus answers goes behind the words held. -/
theorem held_step_of_answered (h : p.Live mem pending pc replies consumed)
    (hbus : (p.read i).Answers mem pending) (hgo : i.Undisturbed)
    (hyes : (p.read i).answered = true) :
  ∃ insn, p.taken i ++ (p.step i).held = p.held ++ [⟨wordAt p.oPc p.held.length, insn⟩]
    ∧ (i.iWbAck = true → insn = i.iWbData)
  := by
  obtain ⟨hcyc, hcache, -, -⟩ := room_of_answered h hbus hyes
  rw [answered_read, hcyc, Bool.true_and] at hyes
  obtain ⟨hreset, hnew, hclear⟩ := hgo
  rw [length_held, hcache]
  cases hv : p.oValid with
  | false =>
      use i.iWbData
      simp [taken, held, step, hreset, hclear, hcyc, hcache, hyes, hv, hnew, wordAt_zero]
  | true =>
      cases hsn : i.iStallN with
      | false =>
          use if i.iWbAck then i.iWbData else p.cacheWord
          constructor
          · simp [taken, held, step, hreset, hclear, hcyc, hyes, hv, hsn, hnew, hcache]
          · intro hack
            rw [hack, if_pos rfl]
      | true =>
          use i.iWbData
          simp [taken, held, step, hreset, hclear, hcyc, hyes, hv, hsn, hnew, hcache]

/-- The address of the word the bus answers with is the next one. -/
theorem reply_eq (h : p.Live mem pending pc replies consumed)
    (hbus : (p.read i).Answers mem pending) (hyes : (p.read i).answered = true) :
  (p.read i).reply pending
    = [(wordOf pc + BitVec.ofNat aw replies.length, if i.iWbAck then some i.iWbData else none)]
  := by
  obtain ⟨hcyc, -, hpos, -⟩ := room_of_answered h hbus hyes
  have hasked := asked_eq (i := i) h hcyc
  rw [window_cons _ (by omega)] at hasked
  rw [Read.reply_cons hyes hasked]
  rfl

theorem length_replies (h : p.Live mem pending pc replies consumed) :
  replies.length = consumed.length + p.held.length
  := by rw [h.shows.length_eq, List.length_append]

theorem oPc_step (h : p.Live mem pending pc replies consumed) (hgo : i.Undisturbed) :
  (p.step i).oPc = wordAt pc (consumed ++ p.taken i).length
  := by
  rw [List.length_append, length_taken]
  simp only [step, hgo.iNewPc, Bool.false_eq_true, if_false, h.oPc]
  cases p.oValid && i.iStallN with
  | false => simp
  | true =>
      rw [if_pos rfl, wordAt_wordAt]
      rfl

theorem order_step (h : p.Live mem pending pc replies consumed)
    (hbus : (p.read i).Answers mem pending) (hgo : i.Undisturbed) (k : ℕ) (e : Word aw)
    (he : (consumed ++ p.taken i ++ (p.step i).held)[k]? = some e) :
  e.pc = wordAt pc k
  := by
  rw [List.append_assoc] at he
  cases hyes : (p.read i).answered with
  | false =>
      rw [held_step h hbus hgo hyes] at he
      apply h.order k e he
  | true =>
      obtain ⟨insn, heq, -⟩ := held_step_of_answered h hbus hgo hyes
      rw [heq, ← List.append_assoc] at he
      rcases Nat.lt_or_ge k (consumed ++ p.held).length with hlt | hge
      · rw [List.getElem?_append_left hlt] at he
        apply h.order k e he
      · rw [List.getElem?_append_right hge, List.getElem?_singleton] at he
        rw [List.length_append] at hge he
        have hk : k - (consumed.length + p.held.length) = 0 := by
          by_contra hne
          simp [hne] at he
        rw [hk, if_pos rfl, Option.some_inj] at he
        have hk' : consumed.length + p.held.length = k := by omega
        rw [← he, h.oPc, wordAt_wordAt, hk']

theorem shows_step (h : p.Live mem pending pc replies consumed)
    (hbus : (p.read i).Answers mem pending) (hgo : i.Undisturbed) :
  List.Forall₂ Shows (replies ++ (p.read i).reply pending)
    (consumed ++ p.taken i ++ (p.step i).held)
  := by
  rw [List.append_assoc]
  cases hyes : (p.read i).answered with
  | false =>
      rw [held_step h hbus hgo hyes, Read.reply_of_not_answered hyes, List.append_nil]
      apply h.shows
  | true =>
      obtain ⟨insn, heq, hinsn⟩ := held_step_of_answered h hbus hgo hyes
      rw [heq, reply_eq h hbus hyes, ← List.append_assoc]
      apply List.rel_append h.shows
      apply List.Forall₂.cons _ List.Forall₂.nil
      constructor
      · rw [h.oPc, wordAt_wordAt, wordOf_wordAt, length_replies h]
      · intro w hw
        cases hack : i.iWbAck with
        | false => simp [hack] at hw
        | true =>
            rw [hack, if_pos rfl, Option.some_inj] at hw
            rw [hinsn hack, hw]

theorem data_step (h : p.Live mem pending pc replies consumed)
    (hbus : (p.read i).Answers mem pending) :
  ∀ r ∈ replies ++ (p.read i).reply pending, ∀ w, r.2 = some w → w = mem r.1
  := by
  intro r hr w hw
  rw [List.mem_append] at hr
  rcases hr with hr | hr
  · apply h.data r hr w hw
  · cases hyes : (p.read i).answered with
    | false => simp [Read.reply_of_not_answered hyes] at hr
    | true =>
        obtain ⟨hcyc, -, hpos, -⟩ := room_of_answered h hbus hyes
        rw [reply_eq h hbus hyes, List.mem_singleton] at hr
        cases hack : i.iWbAck with
        | false => simp [hr, hack] at hw
        | true =>
            have hdata := hbus.data hcyc hack
            rw [asked_eq h hcyc, window_cons _ (by omega)] at hdata
            rw [hr] at hw ⊢
            simp only [hack, if_true, Option.some_inj] at hw
            rw [← hw]
            apply (Option.some.inj hdata).symm

theorem length_reply (h : p.Live mem pending pc replies consumed)
    (hbus : (p.read i).Answers mem pending) :
  ((p.read i).reply pending).length = (p.read i).answered.toNat
  := by
  cases hyes : (p.read i).answered with
  | false => rw [Read.reply_of_not_answered hyes, List.length_nil, Bool.toNat_false]
  | true => rw [reply_eq h hbus hyes, List.length_singleton, Bool.toNat_true]

/-- What is consumed makes room, and what the bus answers takes it. -/
theorem length_held_step (h : p.Live mem pending pc replies consumed)
    (hbus : (p.read i).Answers mem pending) (hgo : i.Undisturbed) :
  (p.oValid && i.iStallN).toNat + (p.step i).held.length
    = p.held.length + (p.read i).answered.toNat
  := by
  rw [← length_taken, ← List.length_append]
  cases hyes : (p.read i).answered with
  | false => rw [held_step h hbus hgo hyes, Bool.toNat_false, Nat.add_zero]
  | true =>
      obtain ⟨insn, heq, -⟩ := held_step_of_answered h hbus hgo hyes
      rw [heq, List.length_append, List.length_singleton, Bool.toNat_true]

/-- The requests still to be answered after a clock of a cycle. -/
theorem next_eq (h : p.Live mem pending pc replies consumed)
    (hbus : (p.read i).Answers mem pending) (hcyc : p.oWbCyc = true) :
  (p.read i).next pending
    = window (fun k => wordOf pc + BitVec.ofNat aw k)
        (replies.length + (p.read i).answered.toNat)
        (replies.length + (pending.length + (p.request i).toNat))
  := by
  have hread : (p.read i).cyc = true := hcyc
  rw [Read.next, if_pos hread]
  cases hyes : (p.read i).answered with
  | false =>
      rw [if_neg Bool.false_ne_true, asked_eq h hcyc]
      rfl
  | true =>
      obtain ⟨-, -, hpos, -⟩ := room_of_answered h hbus hyes
      rw [if_pos rfl, asked_eq h hcyc, window_cons _ (by omega)]
      rfl

theorem length_next (h : p.Live mem pending pc replies consumed)
    (hbus : (p.read i).Answers mem pending) (hcyc : p.oWbCyc = true) :
  ((p.read i).next pending).length + (p.read i).answered.toNat
    = pending.length + (p.request i).toNat
  := by
  have hpos : (p.read i).answered.toNat ≤ pending.length + (p.request i).toNat := by
    cases hyes : (p.read i).answered with
    | false => apply Nat.zero_le
    | true => apply (room_of_answered h hbus hyes).2.2.1
  rw [next_eq h hbus hcyc, length_window]
  omega

theorem next_of_not_cyc (hcyc : p.oWbCyc = false) (pending : List (BitVec aw)) :
  (p.read i).next pending = []
  := by
  have hread : (p.read i).cyc = false := hcyc
  rw [Read.next, hread, if_neg Bool.false_ne_true]

theorem request_of_not_cyc (h : p.Live mem pending pc replies consumed) (hcyc : p.oWbCyc = false)
    (i : Input aw) :
  p.request i = false
  := by rw [request, h.oWbStb hcyc, Bool.false_and]

theorem pending_le (h : p.Live mem pending pc replies consumed) (hcyc : p.oWbCyc = true) :
  pending.length ≤ 2
  := by
  have := h.room hcyc
  omega

theorem inflight_eq_zero_iff (h : p.Live mem pending pc replies consumed)
    (hcyc : p.oWbCyc = true) :
  p.inflight = 0 ↔ pending.length = 0
  := by
  have hle := pending_le h hcyc
  rw [h.inflight hcyc]
  generalize pending.length = f at *
  interval_cases f <;> decide

theorem inflight_le_one_iff (h : p.Live mem pending pc replies consumed)
    (hcyc : p.oWbCyc = true) :
  p.inflight ≤ 1 ↔ pending.length ≤ 1
  := by
  have hle := pending_le h hcyc
  rw [h.inflight hcyc]
  generalize pending.length = f at *
  interval_cases f <;> decide

/-- A cycle that goes on has no error, and more is to be asked for or to be answered. -/
theorem goes_on (hcyc : p.oWbCyc = true) (hnext : (p.step i).oWbCyc = true) :
  i.iWbErr = false ∧ p.release i = false
  := by
  simp only [step, hcyc, Bool.true_and, if_true] at hnext
  grind

theorem oWbStb_step (hcyc : p.oWbCyc = true) (hnext : (p.step i).oWbCyc = true) :
  (p.step i).oWbStb = if !p.oWbStb || !i.iWbStall then !p.lastStb i else p.oWbStb
  := by
  have hreset : i.iReset = false := by
    simp only [step, hcyc, Bool.true_and, if_true] at hnext
    grind
  obtain ⟨herr, hrelease⟩ := goes_on hcyc hnext
  simp [step, hcyc, hreset, herr, hrelease]

/-- A cycle begins on a request, or when the last word but one is consumed. -/
theorem starts (hcyc : p.oWbCyc = false) (hgo : i.Undisturbed)
    (hnext : (p.step i).oWbCyc = true) :
  (p.step i).oWbStb = true ∧ (p.invalidBusCycle = true
    ∨ p.oValid = true ∧ i.iStallN = true ∧ p.oIllegal = false)
  := by
  simp only [step, hcyc, hgo.iNewPc, Bool.false_and, Bool.or_false] at hnext ⊢
  grind

theorem room_step (h : p.Live mem pending pc replies consumed)
    (hbus : (p.read i).Answers mem pending) (hgo : i.Undisturbed)
    (hnext : (p.step i).oWbCyc = true) :
  (p.step i).held.length + ((p.read i).next pending).length + (p.step i).oWbStb.toNat ≤ 2
  := by
  have hheld := length_held_step h hbus hgo
  have hlen := length_held p
  cases hcyc : p.oWbCyc with
  | false =>
      obtain ⟨hstb, hstart⟩ := starts hcyc hgo hnext
      have hanswered : (p.read i).answered = false := by rw [answered_read, hcyc, Bool.false_and]
      have hvalid := h.oValid
      rw [next_of_not_cyc hcyc, hstb, List.length_nil, Bool.toNat_true]
      rw [hanswered, hlen, Bool.toNat_false] at hheld
      have hone := Bool.toNat_le p.cacheValid
      rcases hstart with hinvalid | ⟨hv, hsn, -⟩
      · have hv := (h.invalid hinvalid).2.1
        simp only [hv, Bool.false_and, Bool.toNat_false] at hheld
        omega
      · simp only [hv, hsn, Bool.and_self, Bool.toNat_true] at hheld
        omega
  | true =>
      have hroom := h.room hcyc
      have hpending := length_next h hbus hcyc
      have hzero := inflight_eq_zero_iff h hcyc
      have hvalid := h.oValid
      obtain ⟨herr, hrelease⟩ := goes_on hcyc hnext
      rw [oWbStb_step hcyc hnext, lastStb]
      rw [request] at hpending
      rw [hlen] at hroom hheld
      rw [release] at hrelease
      cases hv : p.oValid <;> cases hsn : i.iStallN <;> cases hstb : p.oWbStb <;>
        cases hstall : i.iWbStall <;> simp_all <;> grind

theorem inflight_step (h : p.Live mem pending pc replies consumed)
    (hbus : (p.read i).Answers mem pending) (hnext : (p.step i).oWbCyc = true) :
  (p.step i).inflight = BitVec.ofNat 2 ((p.read i).next pending).length
  := by
  cases hcyc : p.oWbCyc with
  | false =>
      rw [next_of_not_cyc hcyc]
      simp [step, hcyc]
  | true =>
      have hle := pending_le h hcyc
      have hlen := length_next h hbus hcyc
      have herr := (goes_on hcyc hnext).1
      rw [answered_read, hcyc, herr, Bool.or_false, Bool.true_and] at hlen
      simp only [step, hcyc, h.inflight hcyc, Bool.not_true, Bool.false_eq_true, if_false]
      generalize ((p.read i).next pending).length = g at *
      generalize pending.length = f at *
      cases hreq : p.request i <;> cases hack : i.iWbAck <;>
        simp only [hreq, hack, Bool.toNat_true, Bool.toNat_false, Nat.add_zero] at hlen ⊢
      · rw [hlen]
      · obtain rfl : f = g + 1 := hlen.symm
        rw [BitVec.ofNat_add]
        apply add_sub_cancel_right
      · rw [hlen, BitVec.ofNat_add]
        rfl
      · rw [Nat.add_right_cancel hlen]

theorem length_replies_step (h : p.Live mem pending pc replies consumed)
    (hbus : (p.read i).Answers mem pending) :
  (replies ++ (p.read i).reply pending).length = replies.length + (p.read i).answered.toNat
  := by rw [List.length_append, length_reply h hbus]

theorem asks_step (h : p.Live mem pending pc replies consumed)
    (hbus : (p.read i).Answers mem pending) :
  (p.read i).next pending = window (fun k => wordOf pc + BitVec.ofNat aw k)
    (replies ++ (p.read i).reply pending).length
    ((replies ++ (p.read i).reply pending).length + ((p.read i).next pending).length)
  := by
  cases hcyc : p.oWbCyc with
  | false => rw [next_of_not_cyc hcyc, List.length_nil, Nat.add_zero, window_self]
  | true =>
      have hlen := length_next h hbus hcyc
      have hsum : replies.length + (p.read i).answered.toNat + ((p.read i).next pending).length
          = replies.length + (pending.length + (p.request i).toNat) := by omega
      rw [length_replies_step h hbus, hsum]
      apply next_eq h hbus hcyc

/-- The address of the next request, as long as it is wanted. -/
theorem oWbAddr_eq (h : p.Live mem pending pc replies consumed) (hgo : i.Undisturbed)
    (hwanted : p.oWbCyc = true ∨ p.oIllegal = false) :
  (p.step i).oWbAddr = wordOf pc + BitVec.ofNat aw (replies.length
    + if p.oWbCyc then pending.length + (p.request i).toNat else 0)
  := by
  simp only [step, hgo.iNewPc, Bool.false_eq_true, if_false]
  cases hcyc : p.oWbCyc with
  | false =>
      have hill : p.oIllegal = false := by simpa [hcyc] using hwanted
      rw [request_of_not_cyc h hcyc, if_neg Bool.false_ne_true, if_neg Bool.false_ne_true,
        Nat.add_zero, h.resume hcyc hill]
  | true =>
      rw [if_pos rfl, h.oWbAddr hcyc]
      cases p.request i with
      | false => rfl
      | true =>
          rw [if_pos rfl, Bool.toNat_true, ← Nat.add_assoc,
            BitVec.ofNat_add (replies.length + pending.length), ← BitVec.add_assoc]
          rfl

theorem oWbAddr_step (h : p.Live mem pending pc replies consumed)
    (hbus : (p.read i).Answers mem pending) (hgo : i.Undisturbed)
    (hnext : (p.step i).oWbCyc = true) :
  (p.step i).oWbAddr = wordOf pc + BitVec.ofNat aw
    ((replies ++ (p.read i).reply pending).length + ((p.read i).next pending).length)
  := by
  rw [length_replies_step h hbus]
  cases hcyc : p.oWbCyc with
  | false =>
      have hill : p.oIllegal = false := by
        rcases (starts hcyc hgo hnext).2 with hinvalid | ⟨-, -, hill⟩
        · apply (h.invalid hinvalid).2.2
        · apply hill
      have hanswered : (p.read i).answered = false := by rw [answered_read, hcyc, Bool.false_and]
      rw [oWbAddr_eq h hgo (Or.inr hill), hcyc, next_of_not_cyc hcyc, hanswered]
      rfl
  | true =>
      have hlen := length_next h hbus hcyc
      have hsum : replies.length + (p.read i).answered.toNat + ((p.read i).next pending).length
          = replies.length + (pending.length + (p.request i).toNat) := by omega
      rw [oWbAddr_eq h hgo (Or.inl hcyc), hcyc, if_pos rfl, hsum]

/-- Where a cycle ends everything that was asked for has been answered, unless the word now
shown is illegal. -/
theorem ended (h : p.Live mem pending pc replies consumed)
    (hbus : (p.read i).Answers mem pending) (hgo : i.Undisturbed) (hcyc : p.oWbCyc = true)
    (hnext : (p.step i).oWbCyc = false)
    (hkept : (p.step i).oIllegal = false ∨ (p.step i).cacheValid = true) :
  (p.read i).next pending = []
  := by
  obtain ⟨hreset, hnew, hclear⟩ := hgo
  have hlen := length_next h hbus hcyc
  have hzero := inflight_eq_zero_iff h hcyc
  have hone := inflight_le_one_iff h hcyc
  have hanswered := answered_read p i
  have hroom := room_of_answered h hbus (i := i)
  have hreq : (p.request i).toNat ≤ p.oWbStb.toNat := by
    rw [request]
    cases p.oWbStb <;> cases i.iWbStall <;> simp
  rw [hcyc, Bool.true_and] at hanswered
  rw [hanswered] at hlen hroom
  rw [← List.length_eq_zero_iff]
  cases herr : i.iWbErr with
  | true =>
      rw [herr, Bool.or_true] at hroom
      obtain ⟨-, hcache, hpos, hle⟩ := hroom rfl
      have hv : p.oValid = true := by
        by_contra hv
        simp [step, hreset, hnew, hclear, hcyc, herr, hcache, hv] at hkept
      rw [herr, Bool.or_true, Bool.toNat_true] at hlen
      rw [hv, Bool.toNat_true] at hle
      omega
  | false =>
      have hrelease : p.release i = true := by
        simpa [step, hreset, hcyc, herr] using hnext
      rw [herr, Bool.or_false] at hlen
      simp only [release, hnew, hclear, Bool.or_false, Bool.or_eq_true, Bool.and_eq_true,
        Bool.not_eq_true', beq_iff_eq, decide_eq_true_eq, hzero, hone] at hrelease
      rcases hrelease with ⟨⟨hack, hstb⟩, hle⟩ | ⟨hstb, hnone⟩
      · rw [hack, Bool.toNat_true] at hlen
        rw [hstb, Bool.toNat_false] at hreq
        omega
      · rw [hstb, Bool.toNat_false] at hreq
        omega

theorem quiet_step (h : p.Live mem pending pc replies consumed)
    (hbus : (p.read i).Answers mem pending) (hgo : i.Undisturbed)
    (hnext : (p.step i).oWbCyc = false) (hcache : (p.step i).cacheValid = true) :
  (p.read i).next pending = []
  := by
  cases hcyc : p.oWbCyc with
  | false => apply next_of_not_cyc hcyc
  | true => apply ended h hbus hgo hcyc hnext (Or.inr hcache)

theorem oIllegal_of_step (hgo : i.Undisturbed) (hnot : (p.step i).oIllegal = false) :
  p.oIllegal = false
  := by
  simp only [step, hgo.iReset, hgo.iNewPc, hgo.iClearCache] at hnot
  grind

theorem resume_step (h : p.Live mem pending pc replies consumed)
    (hbus : (p.read i).Answers mem pending) (hgo : i.Undisturbed)
    (hnext : (p.step i).oWbCyc = false) (hnot : (p.step i).oIllegal = false) :
  (p.step i).oWbAddr
    = wordOf pc + BitVec.ofNat aw (replies ++ (p.read i).reply pending).length
  := by
  rw [length_replies_step h hbus, oWbAddr_eq h hgo (Or.inr (oIllegal_of_step hgo hnot))]
  cases hcyc : p.oWbCyc with
  | false => rw [answered_read, hcyc, Bool.false_and, if_neg Bool.false_ne_true, Bool.toNat_false]
  | true =>
      have hlen := length_next h hbus hcyc
      rw [ended h hbus hgo hcyc hnext (Or.inl hnot), List.length_nil, Nat.zero_add] at hlen
      rw [if_pos rfl, hlen]

theorem oValid_step (h : p.Live mem pending pc replies consumed) (hgo : i.Undisturbed)
    (hcache : (p.step i).cacheValid = true) :
  (p.step i).oValid = true
  := by
  have hvalid := h.oValid
  simp only [step, hgo.iReset, hgo.iNewPc, hgo.iClearCache] at hcache ⊢
  grind

theorem invalid_step (h : p.Live mem pending pc replies consumed) (hgo : i.Undisturbed) :
  (p.step i).invalidBusCycle = false
  := by
  have hinvalid := h.invalid
  simp only [step, hgo.iNewPc, Bool.and_false, Bool.false_eq_true, if_false]
  grind

theorem oWbStb_of_step (h : p.Live mem pending pc replies consumed) (hgo : i.Undisturbed)
    (hnext : (p.step i).oWbCyc = false) :
  (p.step i).oWbStb = false
  := by
  have hstb := h.oWbStb
  simp only [step, hgo.iReset, hgo.iNewPc, Bool.false_or] at hnext ⊢
  grind

/-! ### Illegal words -/

theorem failed_reply (h : p.Live mem pending pc replies consumed)
    (hbus : (p.read i).Answers mem pending) :
  ((p.read i).reply pending).any failed = (p.oWbCyc && i.iWbErr)
  := by
  cases hyes : (p.read i).answered with
  | false =>
      rw [Read.reply_of_not_answered hyes]
      rw [answered_read] at hyes
      cases hcyc : p.oWbCyc <;> cases herr : i.iWbErr <;> simp_all
  | true =>
      have hcyc := (room_of_answered h hbus hyes).1
      have hsingle := hbus.single hcyc
      rw [reply_eq h hbus hyes]
      rw [answered_read] at hyes
      simp only [read] at hsingle
      cases hack : i.iWbAck <;> cases herr : i.iWbErr <;> simp_all [failed]

/-- The words beyond the one shown. -/
theorem take_eq (h : p.Live mem pending pc replies consumed) :
  p.cacheValid = false → replies.take (consumed.length + 1) = replies
  := by
  intro hcache
  have hlen := length_replies h
  rw [length_held, hcache, Bool.toNat_false] at hlen
  have := Bool.toNat_le p.oValid
  apply List.take_of_length_le
  omega

theorem anyIllegal_step (h : p.Live mem pending pc replies consumed)
    (hbus : (p.read i).Answers mem pending) (hgo : i.Undisturbed) :
  ((p.step i).oIllegal || (p.step i).cacheIllegal)
    = (replies ++ (p.read i).reply pending).any failed
  := by
  have hany := h.anyIllegal
  have hroom := room_of_answered h hbus (i := i)
  have hvalid := h.oValid
  rw [List.any_append, failed_reply h hbus, ← hany]
  rw [answered_read] at hroom
  simp only [step, hgo.iReset, hgo.iNewPc, hgo.iClearCache]
  grind

theorem oIllegal_step (h : p.Live mem pending pc replies consumed)
    (hbus : (p.read i).Answers mem pending) (hgo : i.Undisturbed) :
  (p.step i).oIllegal
    = ((replies ++ (p.read i).reply pending).take ((consumed ++ p.taken i).length + 1)).any failed
  := by
  have hlen := length_replies h
  have hvalid := h.oValid
  have hill := h.oIllegal
  have hroom := room_of_answered h hbus (i := i)
  rw [length_held] at hlen
  rw [List.length_append, length_taken]
  by_cases hmove : p.oValid = false ∨ i.iStallN = true
  · -- a new word is shown, and what has been answered reaches no further
    have hall : (replies ++ (p.read i).reply pending).take
        (consumed.length + (p.oValid && i.iStallN).toNat + 1)
        = replies ++ (p.read i).reply pending := by
      apply List.take_of_length_le
      rw [length_replies_step h hbus]
      cases hyes : (p.read i).answered <;> cases hv : p.oValid <;>
        cases hcache : p.cacheValid <;> simp_all
    have hany := h.anyIllegal
    have hshown : p.cacheValid = false → replies.any failed = p.oIllegal := by
      intro hcache
      rw [hill, take_eq h hcache]
    rw [answered_read] at hroom
    rw [hall, List.any_append, failed_reply h hbus]
    simp only [step, hgo.iReset, hgo.iNewPc, hgo.iClearCache]
    grind
  · rw [not_or, Bool.not_eq_false, Bool.not_eq_true] at hmove
    obtain ⟨hv, hsn⟩ := hmove
    rw [hv, Bool.toNat_true] at hlen
    rw [hsn, Bool.and_false, Bool.toNat_false, Nat.add_zero,
      List.take_append_of_le_length (by omega), ← hill]
    simp [step, hgo.iReset, hgo.iNewPc, hgo.iClearCache, hv, hsn]

/-- One clock without a reset or a new request. -/
theorem Live.step (h : p.Live mem pending pc replies consumed)
    (hbus : (p.read i).Answers mem pending) (hgo : i.Undisturbed) :
  (p.step i).Live mem ((p.read i).next pending) pc (replies ++ (p.read i).reply pending)
    (consumed ++ p.taken i)
  where
  oPc := oPc_step h hgo
  order := order_step h hbus hgo
  shows := shows_step h hbus hgo
  data := data_step h hbus
  oValid := oValid_step h hgo
  oWbStb := oWbStb_of_step h hgo
  invalid := fun hinvalid => by simp [invalid_step h hgo] at hinvalid
  room := room_step h hbus hgo
  inflight := inflight_step h hbus
  asks := fun _ => asks_step h hbus
  quiet := quiet_step h hbus hgo
  oWbAddr := oWbAddr_step h hbus hgo
  resume := resume_step h hbus hgo
  oIllegal := oIllegal_step h hbus hgo
  anyIllegal := anyIllegal_step h hbus hgo

/-- The word shown is what the bus returned for it. -/
theorem Live.reply_shown (h : p.Live mem pending pc replies consumed) (hvalid : p.oValid = true) :
  ∃ r, replies[consumed.length]? = some r ∧ r.1 = wordOf p.oPc
    ∧ ∀ w, r.2 = some w → p.oInsn = w
  := by
  have hheld : (consumed ++ p.held)[consumed.length]? = some ⟨p.oPc, p.oInsn⟩ := by
    rw [List.getElem?_append_right (Nat.le_refl _), Nat.sub_self, held, hvalid]
    rfl
  obtain ⟨hlt', hget⟩ := List.getElem?_eq_some_iff.mp hheld
  obtain ⟨hlen, hall⟩ := List.forall₂_iff_get.mp h.shows
  have hlt : consumed.length < replies.length := hlen ▸ hlt'
  have hshows := hall _ hlt hlt'
  rw [List.get_eq_getElem, List.get_eq_getElem, hget] at hshows
  use replies[consumed.length], List.getElem?_eq_getElem hlt, hshows.1, hshows.2

theorem Live.illegal_iff (h : p.Live mem pending pc replies consumed) :
  p.oIllegal = true ↔ ∃ k ≤ consumed.length, (replies[k]?).map failed = some true
  := by
  rw [h.oIllegal, List.any_eq_true]
  constructor
  · rintro ⟨r, hr, hfailed⟩
    obtain ⟨k, hk⟩ := List.mem_iff_getElem?.mp hr
    rw [List.getElem?_take] at hk
    split at hk
    · use k, by omega
      rw [hk, Option.map_some, hfailed]
    · simp at hk
  · rintro ⟨k, hk, hfailed⟩
    obtain ⟨r, hr, hfailed⟩ := Option.map_eq_some_iff.mp hfailed
    use r
    constructor
    · apply List.mem_iff_getElem?.mpr
      use k
      rw [List.getElem?_take, if_pos (by omega), hr]
    · apply hfailed

theorem Live.word (h : p.Live mem pending pc replies consumed) (hvalid : p.oValid = true)
    (hlegal : p.oIllegal = false) :
  p.oInsn = mem (wordOf p.oPc)
  := by
  obtain ⟨⟨a, v⟩, hr, haddr, hinsn⟩ := h.reply_shown hvalid
  cases v with
  | none =>
      have hill := h.illegal_iff.mpr ⟨consumed.length, Nat.le_refl _, by rw [hr]; rfl⟩
      simp [hill] at hlegal
  | some w =>
      rw [hinsn w rfl, ← haddr]
      apply h.data (a, some w) (List.mem_of_getElem? hr) w rfl

/-- A request begins anew, whatever was going on. -/
theorem live_of_iNewPc (mem : BitVec aw → BitVec 32) (pending : List (BitVec aw))
    (hnew : i.iNewPc = true) :
  (p.step i).Live mem ((p.read i).next pending) i.iPc [] []
  := by
  have hheld : (p.step i).held = [] := by simp [held, Dblfetch.step, hnew]
  have hnext : (p.step i).oWbCyc = true →
      p.oWbCyc = false ∧ (p.step i).oWbStb = true ∧ (p.read i).next pending = [] := by
    intro hnext
    have hcyc : p.oWbCyc = false := by
      simp only [Dblfetch.step, release, hnew] at hnext
      grind
    have hstb : (p.step i).oWbStb = true := by
      simp only [Dblfetch.step, hnew] at hnext ⊢
      grind
    use hcyc, hstb, next_of_not_cyc hcyc pending
  have haddr : (p.step i).oWbAddr = wordOf i.iPc + BitVec.ofNat aw 0 := by
    simp [Dblfetch.step, hnew]
  constructor
  · simp [Dblfetch.step, hnew, wordAt_zero]
  · rw [hheld]
    simp
  · rw [hheld]
    apply List.Forall₂.nil
  · intro r hr
    simp at hr
  · simp [Dblfetch.step, hnew]
  · simp only [Dblfetch.step, release, hnew]
    grind
  · simp only [Dblfetch.step, release, hnew]
    grind
  · intro h
    obtain ⟨-, hstb, hnone⟩ := hnext h
    rw [hheld, hstb, hnone]
    simp
  · intro h
    obtain ⟨hcyc, -, hnone⟩ := hnext h
    simp [Dblfetch.step, hcyc, hnone]
  · intro h
    rw [(hnext h).2.2]
    rfl
  · simp [Dblfetch.step, hnew]
  · intro h
    rw [(hnext h).2.2, haddr]
    rfl
  · intro _ _
    apply haddr
  · simp [Dblfetch.step, hnew]
  · simp [Dblfetch.step, hnew]

theorem idle_of_iReset (hreset : i.iReset = true) (hnew : i.iNewPc = false)
    (hinvalid : p.oWbCyc = true → p.invalidBusCycle = false) :
  (p.step i).Idle
  := by
  constructor
  · simp [Dblfetch.step, hreset]
  · simp [Dblfetch.step, hreset]
  · simp [Dblfetch.step, hreset]
  · simp [Dblfetch.step, hreset]
  · simp only [Dblfetch.step, hnew]
    grind

theorem Idle.step (h : p.Idle) (hnew : i.iNewPc = false) (hclear : i.iClearCache = false) :
  (p.step i).Idle
  := by
  obtain ⟨hcyc, hstb, hv, hcache, hinvalid⟩ := h
  constructor <;> simp [Dblfetch.step, hcyc, hstb, hv, hcache, hinvalid, hnew, hclear]

end Step

/-! ### Runs -/

section Runs

variable (s₀ : Dblfetch aw) (inp : ℕ → Input aw)

/-- The requests on the bus that are not answered before clock `n`. -/
def pending (n : ℕ) : List (BitVec aw) :=
  unanswered (fun k => (run step s₀ inp k).read (inp k)) n

/-- A request for a program counter or a reset ends what was going on. -/
def restarts (k : ℕ) : Bool := (inp k).iNewPc || (inp k).iReset

/-- The program counter last requested before clock `n`, unless a reset came after it. -/
def lastRequest : ℕ → Option (BitVec (aw + 2))
  | 0 => none
  | n + 1 =>
      if (inp n).iNewPc then some (inp n).iPc
      else if (inp n).iReset then none
      else lastRequest n

/-- What the bus has answered since then. -/
def replies (n : ℕ) : List (BitVec aw × Option (BitVec 32)) :=
  logSince (restarts inp)
    (fun k => ((run step s₀ inp k).read (inp k)).reply (pending s₀ inp k)) n

/-- The words consumed since then. -/
def consumed (n : ℕ) : List (Word aw) :=
  logSince (restarts inp) (fun k => (run step s₀ inp k).taken (inp k)) n

/-- The cache is cleared together with a request, the memory changes only where the cache is
cleared, and the bus answers with its words. -/
structure Environment (mem : ℕ → BitVec aw → BitVec 32) : Prop where
  clear : ∀ n, (inp n).iClearCache = true → (inp n).iNewPc = true
  steady : ∀ n, (inp n).iClearCache = false → mem (n + 1) = mem n
  bus : ∀ n, ((run step s₀ inp n).read (inp n)).Answers (mem n) (pending s₀ inp n)

/-- What makes the run from `s₀` on `inp` that of a prefetch: the words shown to the CPU are
those at the addresses from the requested one on. -/
structure Fetches (mem : ℕ → BitVec aw → BitVec 32) : Prop where
  /-- A word that is not illegal is the one at its address. -/
  word : ∀ n, (run step s₀ inp n).oValid = true → (run step s₀ inp n).oIllegal = false →
    (run step s₀ inp n).oInsn = mem n (wordOf (run step s₀ inp n).oPc)
  /-- Nothing is shown before a request. -/
  silent : ∀ n, lastRequest inp n = none → (run step s₀ inp n).oValid = false
  /-- The words consumed and held are those at consecutive addresses. -/
  consecutive : ∀ n pc, lastRequest inp n = some pc →
    ∀ k e, (consumed s₀ inp n ++ (run step s₀ inp n).held)[k]? = some e → e.pc = wordAt pc k
  /-- What the bus has answered since the request, and no more, has been consumed or is
  held. -/
  kept : ∀ n pc, lastRequest inp n = some pc →
    List.Forall₂ Shows (replies s₀ inp n) (consumed s₀ inp n ++ (run step s₀ inp n).held)
  /-- No more is asked for than can be kept. -/
  room : ∀ n, (run step s₀ inp n).oWbCyc = true →
    (run step s₀ inp n).held.length + (pending s₀ inp n).length
      + (run step s₀ inp n).oWbStb.toNat ≤ 2

/-- A word is marked illegal exactly when the bus answered its own request with an error. -/
def IllegalAlone : Prop :=
  ∀ n, (run step s₀ inp n).oValid = true → ((run step s₀ inp n).oIllegal = true
    ↔ ((replies s₀ inp n)[(consumed s₀ inp n).length]?).map failed = some true)

/-- A word is marked illegal exactly when the bus answered its request, or that of an earlier
word since the program counter was requested, with an error. -/
def IllegalFrom : Prop :=
  ∀ n, (run step s₀ inp n).oValid = true → ((run step s₀ inp n).oIllegal = true
    ↔ ∃ k ≤ (consumed s₀ inp n).length, ((replies s₀ inp n)[k]?).map failed = some true)

variable {s₀} {inp}

theorem replies_succ_of_restarts {n : ℕ} (h : restarts inp n = true) :
  replies s₀ inp (n + 1) = [] ∧ consumed s₀ inp (n + 1) = []
  := by simp [replies, consumed, logSince, h]

theorem replies_succ {n : ℕ} (h : restarts inp n = false) :
  replies s₀ inp (n + 1)
      = replies s₀ inp n ++ ((run step s₀ inp n).read (inp n)).reply (pending s₀ inp n)
    ∧ consumed s₀ inp (n + 1) = consumed s₀ inp n ++ (run step s₀ inp n).taken (inp n)
  := by simp [replies, consumed, logSince, h]

/-- Before a request nothing is fetched, and after it words are fetched from there on. -/
theorem run_live {mem : ℕ → BitVec aw → BitVec 32} (henv : Environment s₀ inp mem)
    (h₀ : s₀.Idle) (n : ℕ) :
  (lastRequest inp n = none → (run step s₀ inp n).Idle)
    ∧ ∀ pc, lastRequest inp n = some pc →
        (run step s₀ inp n).Live (mem n) (pending s₀ inp n) pc (replies s₀ inp n)
          (consumed s₀ inp n)
  := by
  induction n with
  | zero =>
      constructor
      · intro _
        apply h₀
      · intro pc hpc
        simp [lastRequest] at hpc
  | succ n ih =>
      obtain ⟨hidle, hlive⟩ := ih
      rw [lastRequest, run_succ]
      cases hnew : (inp n).iNewPc with
      | true =>
          have hempty := @replies_succ_of_restarts _ s₀ inp n (by rw [restarts, hnew, Bool.true_or])
          rw [if_pos rfl, hempty.1, hempty.2]
          constructor
          · intro h
            simp at h
          · intro pc hpc
            obtain rfl := Option.some.inj hpc
            apply live_of_iNewPc _ _ hnew
      | false =>
          have hclear : (inp n).iClearCache = false := by
            by_contra hclear
            rw [Bool.not_eq_false] at hclear
            simp [henv.clear n hclear] at hnew
          rw [if_neg Bool.false_ne_true]
          cases hreset : (inp n).iReset with
          | true =>
              rw [if_pos rfl]
              constructor
              · intro _
                apply idle_of_iReset hreset hnew
                intro hcyc
                cases hlast : lastRequest inp n with
                | none => apply (hidle hlast).invalidBusCycle
                | some pc =>
                    by_contra hinvalid
                    rw [Bool.not_eq_false] at hinvalid
                    simp [((hlive pc hlast).invalid hinvalid).1] at hcyc
              · intro pc hpc
                simp at hpc
          | false =>
              have hboth := @replies_succ _ s₀ inp n (by rw [restarts, hnew, hreset]; rfl)
              rw [if_neg Bool.false_ne_true, hboth.1, hboth.2]
              constructor
              · intro hlast
                apply (hidle hlast).step hnew hclear
              · intro pc hpc
                rw [henv.steady n hclear]
                apply (hlive pc hpc).step (henv.bus n) ⟨hreset, hnew, hclear⟩

end Runs

theorem initial_idle (oInsn cacheWord : BitVec 32) (oPc : BitVec aw) :
  (initial oInsn cacheWord oPc).Idle
  := by constructor <;> rfl

/-- `dblfetch` shows the words at the addresses from the requested one on, none of them lost,
repeated or of an earlier request. The first one that could not be read is marked illegal, and
so are those after it. -/
theorem fetches (oInsn cacheWord : BitVec 32) (oPc : BitVec aw) (inp : ℕ → Input aw)
    (mem : ℕ → BitVec aw → BitVec 32)
    (henv : Environment (initial oInsn cacheWord oPc) inp mem) :
  Fetches (initial oInsn cacheWord oPc) inp mem ∧ IllegalFrom (initial oInsn cacheWord oPc) inp
  := by
  have hrun := run_live henv (initial_idle oInsn cacheWord oPc)
  have hlive : ∀ n, (run step (initial oInsn cacheWord oPc) inp n).oValid = true →
      ∃ pc, (run step (initial oInsn cacheWord oPc) inp n).Live (mem n)
        (pending (initial oInsn cacheWord oPc) inp n) pc
        (replies (initial oInsn cacheWord oPc) inp n)
        (consumed (initial oInsn cacheWord oPc) inp n) := by
    intro n hvalid
    cases hlast : lastRequest inp n with
    | none => simp [((hrun n).1 hlast).oValid] at hvalid
    | some pc =>
        use pc
        apply (hrun n).2 pc hlast
  constructor
  · constructor
    · intro n hvalid hlegal
      obtain ⟨pc, h⟩ := hlive n hvalid
      apply h.word hvalid hlegal
    · intro n hlast
      apply ((hrun n).1 hlast).oValid
    · intro n pc hlast
      apply ((hrun n).2 pc hlast).order
    · intro n pc hlast
      apply ((hrun n).2 pc hlast).shows
    · intro n hcyc
      cases hlast : lastRequest inp n with
      | none => simp [((hrun n).1 hlast).oWbCyc] at hcyc
      | some pc => apply ((hrun n).2 pc hlast).room hcyc
  · intro n hvalid
    obtain ⟨pc, h⟩ := hlive n hvalid
    apply h.illegal_iff

/-! ### An error while a word waits -/

/-- The first word has come and waits, and the second one is answered with an error. Both are
then consumed, and the third one is read without an error. -/
def errorBehind (n : ℕ) : Input 2 where
  iReset := false
  iNewPc := n == 0
  iClearCache := false
  iStallN := n == 4 || n == 5
  iPc := 0
  iWbStall := false
  iWbAck := n == 2 || n == 6
  iWbErr := n == 3
  iWbData := 0

theorem errorBehind_environment :
  Environment (initial 0 0 0) errorBehind (fun _ _ => 0)
  := by
  constructor
  · intro n hclear
    simp [errorBehind] at hclear
  · intro n _
    rfl
  · intro n
    rcases Nat.lt_or_ge n 7 with hn | hn
    · interval_cases n <;> constructor <;> decide
    · have hack : (errorBehind n).iWbAck = false := by
        simp only [errorBehind]
        grind
      have herr : (errorBehind n).iWbErr = false := by
        simp only [errorBehind]
        grind
      constructor <;> simp [read, hack, herr]

/-- All that has been read is consumed in order. -/
theorem fetches_errorBehind :
  Fetches (initial 0 0 0) errorBehind (fun _ _ => 0) ∧ IllegalFrom (initial 0 0 0) errorBehind
  := fetches 0 0 0 errorBehind _ errorBehind_environment

/-- The third word is marked illegal although it was read without an error. -/
theorem not_illegalAlone_errorBehind :
  Environment (initial 0 0 0) errorBehind (fun _ _ => 0)
    ∧ ¬ IllegalAlone (initial 0 0 0) errorBehind
  := by
  use errorBehind_environment
  intro h
  have hseven := (h 7 (by decide)).mp (by decide)
  revert hseven
  decide

end Dblfetch

end ZBasic
