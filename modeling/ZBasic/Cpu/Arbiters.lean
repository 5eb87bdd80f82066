import ZBasic.Cpu.Busdelay
import ZBasic.Wishbone.Arbiter

/-!
# The arbiters

`wbarbiter`, `wbpriarbiter` and `wbdblpriarb` give a slave to one of two masters at a time. A
register tells who owns the slave. What the master sends and what the slave answers is routed
by it without delay.
-/

namespace ZBasic

open Clocked
open Wishbone (Arbiter)

/-- The masters of an arbiter. -/
inductive Master where
  | a
  | b
deriving DecidableEq

/-- The master that `r_a_owner` selects. -/
def owner (rAOwner : Bool) : Master := if rAOwner then .a else .b

/-- What a slave tells its master: `i_stall`, `i_ack` and `i_err`. -/
structure Reply where
  stall : Bool
  ack : Bool
  err : Bool

/-- What a master is told, given whether it owns the slave. The parameter `zero` is
`OPT_ZERO_ON_IDLE`. -/
def Reply.route (zero oCyc owns : Bool) (i : Reply) : Reply :=
  if zero then
    { stall := if oCyc && owns then i.stall else true
      ack := if oCyc && owns then i.ack else false
      err := if oCyc && owns then i.err else false }
  else
    { stall := if owns then i.stall else true
      ack := if owns then i.ack else false
      err := if owns then i.err else false }

variable {aw dw : ℕ}

/-- The request on the lines to the slave, `o_we`, `o_adr`, `o_dat` and `o_sel`. -/
def BusRequest.drive (zero oStb : Bool) (r : BusRequest aw dw) : BusRequest aw dw :=
  if zero then
    { we := r.we
      addr := if oStb then r.addr else 0
      data := if oStb then r.data else 0
      sel := if oStb then r.sel else 0 }
  else r

/-- What either master is told: `o_a_stall`, `o_a_ack` and `o_a_err` of the first, and the
same of the second. -/
def Reply.toMaster (zero oCyc rAOwner : Bool) (i : Reply) : Master → Reply
  | .a => i.route zero oCyc rAOwner
  | .b => i.route zero oCyc (!rAOwner)

/-- A master that does not own the slave is stalled and told nothing. -/
theorem Reply.toMaster_other {zero oCyc rAOwner : Bool} (i : Reply) {m : Master}
    (hm : m ≠ owner rAOwner) :
  i.toMaster zero oCyc rAOwner m = ⟨true, false, false⟩
  := by
  cases m <;> cases rAOwner
  · cases zero <;> cases oCyc <;> rfl
  · cases hm rfl
  · cases hm rfl
  · cases zero <;> cases oCyc <;> rfl

/-- During its cycle the owner is told what the slave says. -/
theorem Reply.toMaster_owner (zero rAOwner : Bool) (i : Reply) :
  i.toMaster zero true rAOwner (owner rAOwner) = i
  := by
  cases zero <;> cases rAOwner <;> rfl

/-- While the strobe is up the request is the owner's. -/
theorem BusRequest.drive_stb (zero : Bool) (r : BusRequest aw dw) :
  r.drive zero true = r
  := by
  cases zero <;> rfl

/-- What a master drives: its cycle, its strobe and the request. -/
structure MasterPort (aw dw : ℕ) where
  cyc : Bool
  stb : Bool
  req : BusRequest aw dw

/-- The inputs of `wbarbiter` and `wbpriarbiter`. The reset of the first is not used. -/
structure ArbiterInput (aw dw : ℕ) where
  iA : MasterPort aw dw
  iB : MasterPort aw dw
  i : Reply

/-- The lines that a master drives. -/
def ArbiterInput.port (i : ArbiterInput aw dw) : Master → MasterPort aw dw
  | .a => i.iA
  | .b => i.iB

/-! ### The arbiter with schemes -/

/-- The parameter `SCHEME` of `wbarbiter`. -/
inductive Scheme where
  | priority
  | alternating
  | last
deriving DecidableEq

/-- The registers of `wbarbiter`. Only the alternating scheme has a `last_owner`. -/
structure Wbarbiter where
  rAOwner : Bool
  lastOwner : Bool

namespace Wbarbiter

/-- The registers at power up. -/
def initial : Wbarbiter := ⟨true, false⟩

/-- One clock of `wbarbiter`. -/
def step (scheme : Scheme) (s : Wbarbiter) (i : ArbiterInput aw dw) : Wbarbiter where
  rAOwner :=
    match scheme with
    | .priority =>
        if !i.iB.cyc then true
        else if i.iB.stb && !i.iA.cyc then false
        else s.rAOwner
    | .alternating =>
        if !i.iA.cyc && !i.iB.cyc then !s.lastOwner
        else if s.rAOwner && !i.iA.cyc then (if i.iB.stb then false else s.rAOwner)
        else if !s.rAOwner && !i.iB.cyc then (if i.iA.stb then true else s.rAOwner)
        else s.rAOwner
    | .last =>
        if !i.iA.cyc && i.iB.stb then false
        else if !i.iB.cyc && i.iA.stb then true
        else s.rAOwner
  lastOwner :=
    if i.iA.cyc && s.rAOwner then true
    else if i.iB.cyc && !s.rAOwner then false
    else s.lastOwner

section Wires

variable (zero : Bool) (s : Wbarbiter) (i : ArbiterInput aw dw)

def oCyc : Bool := if s.rAOwner then i.iA.cyc else i.iB.cyc

def oStb : Bool :=
  if zero then (if s.oCyc i then (if s.rAOwner then i.iA.stb else i.iB.stb) else false)
  else if s.rAOwner then i.iA.stb else i.iB.stb

/-- `o_we`, `o_adr`, `o_dat` and `o_sel` -/
def oReq : BusRequest aw dw :=
  (if s.rAOwner then i.iA.req else i.iB.req).drive zero (s.oStb zero i)

/-- `o_a_stall`, `o_a_ack`, `o_a_err`, `o_b_stall`, `o_b_ack` and `o_b_err` -/
def reply : Master → Reply := i.i.toMaster zero (s.oCyc i) s.rAOwner

end Wires

/-- The arbiter in a run. -/
def arbiter (zero : Bool) (scheme : Scheme) (inp : ℕ → ArbiterInput aw dw) :
    Arbiter Master Unit (BusRequest aw dw) where
  reset _ := false
  owner n := owner (run (step scheme) initial inp n).rAOwner
  cyc m _ n := ((inp n).port m).cyc
  request m _ n := if ((inp n).port m).stb then some ((inp n).port m).req else none
  stall m n := ((run (step scheme) initial inp n).reply zero (inp n) m).stall
  ack m n := ((run (step scheme) initial inp n).reply zero (inp n) m).ack
  err m n := ((run (step scheme) initial inp n).reply zero (inp n) m).err
  outCyc _ n := (run (step scheme) initial inp n).oCyc (inp n)
  outRequest _ n :=
    if (run (step scheme) initial inp n).oStb zero (inp n) then
      some ((run (step scheme) initial inp n).oReq zero (inp n))
    else none
  inStall n := (inp n).i.stall
  inAck n := (inp n).i.ack
  inErr n := (inp n).i.err

/-- The owner stays while its cycle is up. -/
theorem rAOwner_step (scheme : Scheme) (s : Wbarbiter) (i : ArbiterInput aw dw)
    (hcyc : (i.port (owner s.rAOwner)).cyc = true) :
  (s.step scheme i).rAOwner = s.rAOwner
  := by
  cases howner : s.rAOwner with
  | true =>
      have hcyc' : i.iA.cyc = true := by simpa [howner, owner, ArbiterInput.port] using hcyc
      cases scheme <;> simp [step, howner, hcyc']
  | false =>
      have hcyc' : i.iB.cyc = true := by simpa [howner, owner, ArbiterInput.port] using hcyc
      cases scheme <;> simp [step, howner, hcyc']

/-- The lines to the slave are the owner's. -/
theorem outRequest_eq (zero : Bool) (s : Wbarbiter) (i : ArbiterInput aw dw)
    (hcyc : s.oCyc i = true) :
  (if s.oStb zero i then some (s.oReq zero i) else none)
    = if (i.port (owner s.rAOwner)).stb then some (i.port (owner s.rAOwner)).req else none
  := by
  have hstb : s.oStb zero i = (i.port (owner s.rAOwner)).stb := by
    rw [oStb, hcyc]
    cases zero <;> cases s.rAOwner <;> rfl
  rw [← hstb]
  cases hup : s.oStb zero i with
  | false => rfl
  | true =>
      rw [oReq, hup, BusRequest.drive_stb]
      cases s.rAOwner <;> rfl

/-- The arbiter connects the slave to its owner. -/
theorem arbiter_connects (zero : Bool) (scheme : Scheme) (inp : ℕ → ArbiterInput aw dw) :
  (arbiter zero scheme inp).Connects
  := by
  constructor
  · intro n _ hcyc
    obtain ⟨_, hcyc⟩ := hcyc
    simp only [arbiter, run_succ]
    rw [rAOwner_step _ _ _ hcyc]
  · intro _ n
    simp only [arbiter, oCyc]
    cases (run (step scheme) initial inp n).rAOwner <;> rfl
  · intro _ n hcyc
    apply outRequest_eq zero _ _ hcyc
  · intro m n hm
    simp only [arbiter, reply, Reply.toMaster_other _ hm, and_self]
  · intro _ n hcyc
    change (run (step scheme) initial inp n).oCyc (inp n) = true at hcyc
    simp only [arbiter, reply, hcyc, Reply.toMaster_owner, and_self]

end Wbarbiter

/-- When the cycle of its owner ends, the alternating arbiter is granted to the master that
waits. -/
theorem Wbarbiter.alternates (zero : Bool) (inp : ℕ → ArbiterInput aw dw) :
  (arbiter zero .alternating inp).Alternates
  := by
  intro m _ r n hm hover hcyc hreq
  replace hover : ((inp n).port _).cyc = false := hover ()
  simp only [arbiter, run_succ] at hm hover hcyc hreq ⊢
  have hstb : ((inp n).port m).stb = true := by
    split_ifs at hreq with hstb
    · apply hstb
  cases m <;> cases howner : (run (step .alternating) initial inp n).rAOwner
  · simp only [howner, owner, ArbiterInput.port] at hover hcyc hstb ⊢
    simp_all [step]
  · simp [howner, owner] at hm
  · simp [howner, owner] at hm
  · simp only [howner, owner, ArbiterInput.port] at hover hcyc hstb ⊢
    simp_all [step]

/-! ### The priority arbiter -/

/-- The register of `wbpriarbiter`. -/
structure Wbpriarbiter where
  rAOwner : Bool

namespace Wbpriarbiter

/-- The register at power up. -/
def initial : Wbpriarbiter := ⟨true⟩

/-- One clock of `wbpriarbiter`. -/
def step (s : Wbpriarbiter) (i : ArbiterInput aw dw) : Wbpriarbiter where
  rAOwner :=
    if !i.iB.cyc then true
    else if i.iB.cyc && i.iB.stb && !i.iA.cyc then false
    else s.rAOwner

section Wires

variable (zero : Bool) (s : Wbpriarbiter) (i : ArbiterInput aw dw)

def oCyc : Bool := if s.rAOwner then i.iA.cyc else i.iB.cyc

def oStb : Bool := if s.rAOwner then i.iA.stb else i.iB.stb

/-- `o_we`, `o_adr`, `o_dat` and `o_sel` -/
def oReq : BusRequest aw dw :=
  (if s.rAOwner then i.iA.req else i.iB.req).drive zero (s.oStb i)

/-- `o_a_stall`, `o_a_ack`, `o_a_err`, `o_b_stall`, `o_b_ack` and `o_b_err` -/
def reply : Master → Reply := i.i.toMaster zero (s.oCyc i) s.rAOwner

end Wires

/-- The arbiter in a run. -/
def arbiter (zero : Bool) (inp : ℕ → ArbiterInput aw dw) :
    Arbiter Master Unit (BusRequest aw dw) where
  reset _ := false
  owner n := owner (run step initial inp n).rAOwner
  cyc m _ n := ((inp n).port m).cyc
  request m _ n := if ((inp n).port m).stb then some ((inp n).port m).req else none
  stall m n := ((run step initial inp n).reply zero (inp n) m).stall
  ack m n := ((run step initial inp n).reply zero (inp n) m).ack
  err m n := ((run step initial inp n).reply zero (inp n) m).err
  outCyc _ n := (run step initial inp n).oCyc (inp n)
  outRequest _ n :=
    if (run step initial inp n).oStb (inp n) then
      some ((run step initial inp n).oReq zero (inp n))
    else none
  inStall n := (inp n).i.stall
  inAck n := (inp n).i.ack
  inErr n := (inp n).i.err

/-- The owner stays while its cycle is up. -/
theorem rAOwner_step (s : Wbpriarbiter) (i : ArbiterInput aw dw)
    (hcyc : (i.port (owner s.rAOwner)).cyc = true) :
  (s.step i).rAOwner = s.rAOwner
  := by
  cases howner : s.rAOwner with
  | true =>
      have hcyc' : i.iA.cyc = true := by simpa [howner, owner, ArbiterInput.port] using hcyc
      simp [step, howner, hcyc']
  | false =>
      have hcyc' : i.iB.cyc = true := by simpa [howner, owner, ArbiterInput.port] using hcyc
      simp [step, howner, hcyc']

/-- The lines to the slave are the owner's. -/
theorem outRequest_eq (zero : Bool) (s : Wbpriarbiter) (i : ArbiterInput aw dw) :
  (if s.oStb i then some (s.oReq zero i) else none)
    = if (i.port (owner s.rAOwner)).stb then some (i.port (owner s.rAOwner)).req else none
  := by
  have hstb : s.oStb i = (i.port (owner s.rAOwner)).stb := by
    rw [oStb]
    cases s.rAOwner <;> rfl
  rw [← hstb]
  cases hup : s.oStb i with
  | false => rfl
  | true =>
      rw [oReq, hup, BusRequest.drive_stb]
      cases s.rAOwner <;> rfl

/-- The arbiter connects the slave to its owner. -/
theorem arbiter_connects (zero : Bool) (inp : ℕ → ArbiterInput aw dw) :
  (arbiter zero inp).Connects
  := by
  constructor
  · intro n _ hcyc
    obtain ⟨_, hcyc⟩ := hcyc
    simp only [arbiter, run_succ]
    rw [rAOwner_step _ _ hcyc]
  · intro _ n
    simp only [arbiter, oCyc]
    cases (run step initial inp n).rAOwner <;> rfl
  · intro _ n _
    apply outRequest_eq zero
  · intro m n hm
    simp only [arbiter, reply, Reply.toMaster_other _ hm, and_self]
  · intro _ n hcyc
    change (run step initial inp n).oCyc (inp n) = true at hcyc
    simp only [arbiter, reply, hcyc, Reply.toMaster_owner, and_self]

end Wbpriarbiter

/-! ### The arbiter of two buses -/

/-- The buses of `wbdblpriarb`. -/
inductive DblBus where
  | a
  | b

/-- What a master of two buses drives: the cycles, the strobes and the request. -/
structure DblMasterPort (aw dw : ℕ) where
  cycA : Bool
  cycB : Bool
  stbA : Bool
  stbB : Bool
  req : BusRequest aw dw

namespace DblMasterPort

variable (p : DblMasterPort aw dw)

/-- The cycle of a bus. -/
def cyc : DblBus → Bool
  | .a => p.cycA
  | .b => p.cycB

/-- The strobe of a bus. -/
def stb : DblBus → Bool
  | .a => p.stbA
  | .b => p.stbB

end DblMasterPort

/-- The inputs of `wbdblpriarb`. -/
structure DblInput (aw dw : ℕ) where
  iReset : Bool
  iA : DblMasterPort aw dw
  iB : DblMasterPort aw dw
  i : Reply

/-- The lines that a master drives. -/
def DblInput.port (i : DblInput aw dw) : Master → DblMasterPort aw dw
  | .a => i.iA
  | .b => i.iB

/-- The register of `wbdblpriarb`. -/
structure Wbdblpriarb where
  rAOwner : Bool

namespace Wbdblpriarb

/-- The register at power up. -/
def initial : Wbdblpriarb := ⟨true⟩

/-- One clock of `wbdblpriarb`. -/
def step (s : Wbdblpriarb) (i : DblInput aw dw) : Wbdblpriarb where
  rAOwner :=
    if i.iReset then true
    else if !i.iB.cycA && !i.iB.cycB then true
    else if !i.iA.cycA && !i.iA.cycB && (i.iB.stbA || i.iB.stbB) then false
    else s.rAOwner

section Wires

variable (zero : Bool) (s : Wbdblpriarb) (i : DblInput aw dw)

def oCycA : Bool := if s.rAOwner then i.iA.cycA else i.iB.cycA

def oCycB : Bool := if s.rAOwner then i.iA.cycB else i.iB.cycB

def oStbA : Bool := if s.rAOwner then i.iA.stbA else i.iB.stbA

def oStbB : Bool := if s.rAOwner then i.iA.stbB else i.iB.stbB

/-- `o_we`, `o_adr`, `o_dat` and `o_sel` -/
def oReq : BusRequest aw dw :=
  (if s.rAOwner then i.iA.req else i.iB.req).drive zero (s.oStbA i || s.oStbB i)

/-- `o_a_stall`, `o_a_ack`, `o_a_err`, `o_b_stall`, `o_b_ack` and `o_b_err` -/
def reply : Master → Reply := i.i.toMaster zero (s.oCycA i || s.oCycB i) s.rAOwner

/-- The cycle of a bus. -/
def oCyc : DblBus → Bool
  | .a => s.oCycA i
  | .b => s.oCycB i

/-- The strobe of a bus. -/
def oStb : DblBus → Bool
  | .a => s.oStbA i
  | .b => s.oStbB i

end Wires

/-- The arbiter in a run. -/
def arbiter (zero : Bool) (inp : ℕ → DblInput aw dw) :
    Arbiter Master DblBus (BusRequest aw dw) where
  reset n := (inp n).iReset
  owner n := owner (run step initial inp n).rAOwner
  cyc m bus n := ((inp n).port m).cyc bus
  request m bus n := if ((inp n).port m).stb bus then some ((inp n).port m).req else none
  stall m n := ((run step initial inp n).reply zero (inp n) m).stall
  ack m n := ((run step initial inp n).reply zero (inp n) m).ack
  err m n := ((run step initial inp n).reply zero (inp n) m).err
  outCyc bus n := (run step initial inp n).oCyc (inp n) bus
  outRequest bus n :=
    if (run step initial inp n).oStb (inp n) bus then
      some ((run step initial inp n).oReq zero (inp n))
    else none
  inStall n := (inp n).i.stall
  inAck n := (inp n).i.ack
  inErr n := (inp n).i.err

/-- The owner stays while one of its cycles is up. -/
theorem rAOwner_step (s : Wbdblpriarb) (i : DblInput aw dw) (hreset : i.iReset = false)
    {bus : DblBus} (hcyc : (i.port (owner s.rAOwner)).cyc bus = true) :
  (s.step i).rAOwner = s.rAOwner
  := by
  cases howner : s.rAOwner with
  | true =>
      have hcyc' : i.iA.cyc bus = true := by simpa [howner, owner, DblInput.port] using hcyc
      cases bus <;> simp only [DblMasterPort.cyc] at hcyc' <;> simp [step, howner, hreset, hcyc']
  | false =>
      have hcyc' : i.iB.cyc bus = true := by simpa [howner, owner, DblInput.port] using hcyc
      cases bus <;> simp only [DblMasterPort.cyc] at hcyc' <;> simp [step, howner, hreset, hcyc']

/-- The lines to the slave are the owner's. -/
theorem outRequest_eq (zero : Bool) (s : Wbdblpriarb) (i : DblInput aw dw) (bus : DblBus) :
  (if s.oStb i bus then some (s.oReq zero i) else none)
    = if (i.port (owner s.rAOwner)).stb bus then some (i.port (owner s.rAOwner)).req else none
  := by
  have hstb : s.oStb i bus = (i.port (owner s.rAOwner)).stb bus := by
    cases bus <;> simp only [oStb, oStbA, oStbB] <;> cases s.rAOwner <;> rfl
  rw [← hstb]
  cases hup : s.oStb i bus with
  | false => rfl
  | true =>
      have hone : (s.oStbA i || s.oStbB i) = true := by
        cases bus <;> simp only [oStb] at hup <;> simp [hup]
      rw [oReq, hone, BusRequest.drive_stb]
      cases s.rAOwner <;> rfl

/-- The arbiter connects the slave to its owner. -/
theorem arbiter_connects (zero : Bool) (inp : ℕ → DblInput aw dw) :
  (arbiter zero inp).Connects
  := by
  constructor
  · intro n hreset hcyc
    obtain ⟨bus, hcyc⟩ := hcyc
    simp only [arbiter, run_succ]
    rw [rAOwner_step _ _ hreset hcyc]
  · intro bus n
    simp only [arbiter]
    cases bus <;> simp only [oCyc, oCycA, oCycB] <;>
      cases (run step initial inp n).rAOwner <;> rfl
  · intro bus n _
    apply outRequest_eq zero
  · intro m n hm
    simp only [arbiter, reply, Reply.toMaster_other _ hm, and_self]
  · intro bus n hcyc
    have hone : ((run step initial inp n).oCycA (inp n)
        || (run step initial inp n).oCycB (inp n)) = true := by
      simp only [arbiter] at hcyc
      cases bus <;> simp only [oCyc] at hcyc <;> simp [hcyc]
    simp only [arbiter, reply, hone, Reply.toMaster_owner, and_self]

end Wbdblpriarb

/-- Under every scheme the masters of `wbarbiter` share the slave, and so do those of
`wbpriarbiter` and of `wbdblpriarb`. Under the alternating scheme the masters take turns. -/
theorem masters_share (zero : Bool) :
  (∀ scheme (inp : ℕ → ArbiterInput aw dw), (Wbarbiter.arbiter zero scheme inp).Shares)
    ∧ (∀ inp : ℕ → ArbiterInput aw dw, (Wbpriarbiter.arbiter zero inp).Shares)
    ∧ (∀ inp : ℕ → DblInput aw dw, (Wbdblpriarb.arbiter zero inp).Shares)
    ∧ ∀ inp : ℕ → ArbiterInput aw dw, (Wbarbiter.arbiter zero .alternating inp).Alternates
  := by
  refine ⟨?_, ?_, ?_, ?_⟩
  · intro scheme inp
    apply (Wbarbiter.arbiter_connects zero scheme inp).shares
  · intro inp
    apply (Wbpriarbiter.arbiter_connects zero inp).shares
  · intro inp
    apply (Wbdblpriarb.arbiter_connects zero inp).shares
  · intro inp
    apply Wbarbiter.alternates

end ZBasic
