import ZBasic.Host.Returns
import ZBasic.Host.Framing
import ZBasic.Wbubus.ReadCycle

/-!
# The host and the device

The host calls `readv` and `writev`; `wbuexec` executes the codewords they come out as,
each held until it is accepted, on a bus that answers no request with an error; what it
returns is compressed and read by the host. Codewords wait in order between `wbudecompress`
and `wbuexec`, between `wbuexec` and `wbucompress`, where `wbuidleint` inserts states, and
between `wbucompress` and the host, for as long as it takes.
-/

namespace ZBasic

open Clocked

/-! ### The host -/

/-- The address a call starts at. -/
def Ttybus.Call.addr : Ttybus.Call → BitVec 32
  | readv a _ _ => a
  | writev a _ _ => a

/-- The words a call is to read. -/
def Ttybus.Call.wanted : Ttybus.Call → ℕ
  | readv _ _ len => len
  | writev .. => 0

/-- The host: what it needs for sending, and for reading what is returned. -/
structure Host where
  tty : Ttybus
  mReadtbl : BitVec 10 → BitVec 32
  mRdaddr : BitVec 10
  mBusErr : Bool
  mInterruptFlag : Bool
  /-- The words that `readv` has not read yet, `len - nread`. -/
  toRead : ℕ

namespace Host

open Ttybus

/-- The members that `readword` uses. -/
def readback (h : Host) : Readback where
  mReadtbl := h.mReadtbl
  mRdaddr := h.mRdaddr
  mLastaddr := h.tty.mLastaddr
  mAddrSet := h.tty.mAddrSet
  mBusErr := h.mBusErr
  mInterruptFlag := h.mInterruptFlag

/-- A call gets past its checks: `encode_address` refuses an address that is not aligned,
and `readv` has nothing to do without words to be read. -/
def Accepts : Call → Prop
  | .readv a _ len => a.extractLsb' 0 2 = 0#2 ∧ 0 < len
  | .writev a _ _ => a.extractLsb' 0 2 = 0#2

instance (c : Call) : Decidable (Accepts c) :=
  match c with
  | .readv a _ len => inferInstanceAs (Decidable (a.extractLsb' 0 2 = 0#2 ∧ 0 < len))
  | .writev a _ _ => inferInstanceAs (Decidable (a.extractLsb' 0 2 = 0#2))

/-- `encode_address` has an address command to send. -/
def Addresses (h : Host) (c : Call) : Prop := h.tty.encodeAddress c.addr ≠ []

instance (h : Host) (c : Call) : Decidable (h.Addresses c) :=
  inferInstanceAs (Decidable (h.tty.encodeAddress c.addr ≠ []))

/-- The commands of a call, as the device reads them; `writev` sends nothing if there is
nothing to be written. -/
def commands (h : Host) (c : Call) : List Command :=
  if Accepts c then
    match c with
    | .readv a inc len => h.tty.callCommands (.readv a inc len)
    | .writev _ _ [] => []
    | .writev a p (val :: buf) => h.tty.callCommands (.writev a p (val :: buf))
  else []

/-- The host after the commands of a call are sent: an address command sets `m_rdaddr` to
zero. -/
def call (h : Host) (c : Call) : Host :=
  if Accepts c then
    { h with
      tty := (h.tty.call c).1
      mRdaddr := if h.Addresses c then 0 else h.mRdaddr
      toRead := c.wanted }
  else h

/-- The host after it has heard a codeword. -/
def heard (h : Host) (what : Heard) (r : Readback) : Host where
  tty := { h.tty with mLastaddr := r.mLastaddr, mAddrSet := r.mAddrSet }
  mReadtbl := r.mReadtbl
  mRdaddr := r.mRdaddr
  mBusErr := r.mBusErr
  mInterruptFlag := r.mInterruptFlag
  toRead := match what with
    | .data .. => h.toRead - 1
    | _ => h.toRead

/-- The members that `init` sets. -/
structure Initial (h : Host) : Prop where
  tty : h.tty.Initial
  mRdaddr : h.mRdaddr = 0
  toRead : h.toRead = 0

end Host

/-! ### The host and the device -/

/-- The host, the device, and what is on its way between them. -/
structure Link where
  host : Host
  /-- The table of `wbudecompress`. -/
  unpack : Table
  /-- The codewords `wbuexec` has not accepted yet. -/
  commands : List Codeword
  /-- The first of them was offered at the last clock, and not accepted. -/
  offered : Bool
  runwb : Wbuexec
  /-- The requests the slave has not answered. -/
  asked : ℕ
  /-- What was returned, and not yet taken by `wbucompress`. -/
  returning : List Codeword
  packit : Wbucompress
  /-- What the host has not read yet: each codeword as it is and as it was sent. -/
  wire : List (Codeword × Codeword)

namespace Link

/-- What `wbucompress` is offered at a clock. -/
inductive Offer where
  | nothing
  /-- The oldest codeword that was returned. -/
  | returned
  /-- A state inserted by `wbuidleint`. -/
  | state (w : Codeword)

/-- What is offered is there to be offered. -/
def Offer.Sound (returning : List Codeword) : Offer → Prop
  | nothing => True
  | returned => returning ≠ []
  | state w => w.isStatus = true

instance (returning : List Codeword) (o : Offer) : Decidable (o.Sound returning) := by
  cases o <;> simp only [Offer.Sound] <;> infer_instance

/-- The inputs of a clock. -/
structure Input where
  /-- The next codeword stands on `i_codword`. -/
  iStb : Bool
  /-- What stands there otherwise. -/
  iCodword : Codeword
  iWbStall : Bool
  iWbAck : Bool
  iWbData : BitVec 32
  offer : Offer
  /-- The stage after `wbucompress` is busy. -/
  iBusy : Bool

/-- Something happens: a clock of the device, a call of the host, whose commands reach
`wbudecompress` as the codewords `raw`, or the host reads a codeword. -/
inductive Event where
  | clock (i : Input)
  | call (c : Ttybus.Call) (raw : List Codeword)
  | hear

section Wires

variable (s : Link) (i : Input)

/-- The inputs of `wbuexec`. -/
def execInput : Wbuexec.Input where
  iReset := false
  iStb := i.iStb
  iCodword := if i.iStb then s.commands.headD i.iCodword else i.iCodword
  iWbStall := i.iWbStall
  iWbAck := i.iWbAck
  iWbErr := false
  iWbData := i.iWbData

/-- The inputs of `wbucompress`. -/
def compressInput : Wbucompress.Input where
  iReset := false
  iStb := match i.offer with
    | .nothing => false
    | _ => true
  iCodword := match i.offer with
    | .nothing => 0
    | .returned => s.returning.headD 0
    | .state w => w
  iBusy := i.iBusy

/-- `wbucompress` takes a codeword that was returned. -/
def fetches : Bool :=
  match i.offer with
  | .returned => !s.packit.oBusy (s.compressInput i)
  | _ => false

/-- One clock of the device. -/
def clock : Link where
  host := s.host
  unpack := s.unpack
  commands := if s.runwb.takes (s.execInput i) then s.commands.tail else s.commands
  offered := i.iStb && s.runwb.oBusy
  runwb := s.runwb.step (s.execInput i)
  asked :=
    if s.runwb.oWbCyc then s.asked + (s.runwb.request (s.execInput i)).toNat - i.iWbAck.toNat
    else 0
  returning := (if s.fetches i then s.returning.tail else s.returning) ++ s.runwb.returned
  packit := s.packit.step (s.compressInput i)
  wire := s.wire
    ++ (s.packit.taken (s.compressInput i)).zip (s.packit.emitted (s.compressInput i))

/-- The host calls `c`. -/
def call (c : Ttybus.Call) (raw : List Codeword) : Link :=
  { s with
    host := s.host.call c
    unpack := s.unpack.nextAll raw
    commands := s.commands ++ s.unpack.outAll raw }

/-- The host reads the next codeword: in `readword`, or, where there is no word to be read,
in `readidle`, which passes over states as `readword` does. -/
def hear : Link :=
  match s.wire with
  | [] => s
  | (_, c) :: wire =>
      match s.host.readback.hear (groups c) with
      | none => { s with wire := wire }
      | some (what, r, _) => { s with host := s.host.heard what r, wire := wire }

end Wires

/-- What happens. -/
def step (s : Link) : Event → Link
  | .clock i => s.clock i
  | .call c raw => s.call c raw
  | .hear => s.hear

/-- What can happen: codewords are offered until they are accepted, the slave answers only
what was requested, `wbucompress` is offered what was returned or a state, and the host does
not call before it has read what it asked for. -/
def Legal (s : Link) : Event → Prop
  | .clock i => (i.iStb = true → s.commands ≠ []) ∧ (s.offered = true → i.iStb = true)
      ∧ (i.iWbAck = true → 0 < s.asked + (s.runwb.request (s.execInput i)).toNat)
      ∧ i.offer.Sound s.returning
  | .call c raw => s.host.toRead = 0 ∧ List.Forall₂ Carries raw (s.host.commands c)
  | .hear => s.wire ≠ []

instance (w : Codeword) (gs : List (BitVec 6)) : Decidable (Carries w gs) := by
  unfold Carries
  infer_instance

instance (s : Link) (e : Event) : Decidable (s.Legal e) := by
  cases e <;> simp only [Legal] <;> infer_instance

/-- The host and the device at the start. -/
structure Initial (s : Link) : Prop where
  host : s.host.Initial
  runwb : s.runwb.Initial
  packit : s.packit.Initial
  commands : s.commands = []
  offered : s.offered = false
  asked : s.asked = 0
  returning : s.returning = []
  wire : s.wire = []

end Link

end ZBasic
