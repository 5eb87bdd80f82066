import ZBasic.Clocked.Bits
import ZBasic.Cpu.Busdelay
import ZBasic.Wbxbar.Addrdecode
import ZBasic.Wishbone.Port
import ZBasic.Wishbone.Skidbuffer

/-!
# The crossbar

`wbxbar` connects the masters of the bus to its slaves. The requests of a master go through a skid
buffer to its address decoder. A slave is granted to the first master in order that requests it, and
a master keeps it as long as it is waiting for an answer. The answers are registered, as
`OPT_DBLBUFFER` says, and unused outputs are zero, as `OPT_LOWPOWER` says. The decoders are
registered too: only those of a crossbar with a single slave that takes every address are not.
-/

namespace ZBasic

open Clocked Wishbone

namespace BusRequest

variable {aw dw : ℕ}

/-- No request. -/
def zero : BusRequest aw dw where
  we := false
  addr := 0
  data := 0
  sel := 0

/-- `{ i_mwe[N], i_maddr[N*AW +: AW], i_mdata[N*DW +: DW], i_msel[N*DW/8 +: DW/8] }` -/
def pack (r : BusRequest aw dw) : BitVec (1 + aw + dw + dw / 8) :=
  BitVec.ofBool r.we ++ r.addr ++ r.data ++ r.sel

/-- `{ skd_we, skd_addr, skd_data, skd_sel }` -/
def unpack (v : BitVec (1 + aw + dw + dw / 8)) : BusRequest aw dw where
  we := v.getLsbD (aw + dw + dw / 8)
  addr := v.extractLsb' (dw + dw / 8) aw
  data := v.extractLsb' (dw / 8) dw
  sel := v.extractLsb' 0 (dw / 8)

/-- A request as a slave sees it. There is no data with a read. -/
def shown (r : BusRequest aw dw) : BusRequest aw dw := { r with data := if r.we then r.data else 0 }

theorem unpack_pack (r : BusRequest aw dw) :
  unpack r.pack = r
  := by
  have hwe : r.pack.getLsbD (aw + dw + dw / 8) = r.we := by
    rw [pack, BitVec.getLsbD_append, if_neg (by omega), BitVec.getLsbD_append, if_neg (by omega),
      BitVec.getLsbD_append, if_neg (by omega)]
    simp
  have haddr : r.pack.extractLsb' (dw + dw / 8) aw = r.addr := by
    rw [pack, extract_append_high _ _ (by omega), extract_append_high _ _ (by omega),
      show dw + dw / 8 - dw / 8 - dw = 0 by omega, extract_append_low _ _ (by omega), extract_all]
  have hdata : r.pack.extractLsb' (dw / 8) dw = r.data := by
    rw [pack, extract_append_high _ _ (by omega), Nat.sub_self,
      extract_append_low _ _ (by omega), extract_all]
  have hsel : r.pack.extractLsb' 0 (dw / 8) = r.sel := by
    rw [pack, extract_append_low _ _ (by omega), extract_all]
  rw [unpack, hwe, haddr, hdata, hsel]

end BusRequest

/-- The registers of `wbxbar`, with `nm` masters, `ns` slaves and counters of `lg` bits. -/
structure Wbxbar (nm ns aw dw lg : ℕ) where
  iskid : Fin nm → Skidbuffer (1 + aw + dw + dw / 8)
  adcd : Fin nm → Addrdecode ns aw (Bool × BitVec dw × BitVec (dw / 8))
  grant : Fin nm → Selection ns
  mgrant : Fin nm → Bool
  sgrant : Fin ns → Bool
  mindex : Fin nm → ℕ
  sindex : Fin ns → ℕ
  oScyc : Fin ns → Bool
  oSstb : Fin ns → Bool
  oS : Fin ns → BusRequest aw dw
  rMack : Fin nm → Bool
  rMerr : Fin nm → Bool
  oMdata : Fin nm → BitVec dw
  lclpending : Fin nm → BitVec lg
  mfull : Fin nm → Bool
  mnearfull : Fin nm → Bool
  mempty : Fin nm → Bool

namespace Wbxbar

variable {nm ns aw dw lg : ℕ}

/-- The inputs at a clock. -/
structure Input (nm ns aw dw : ℕ) where
  iReset : Bool
  iMcyc : Fin nm → Bool
  iMstb : Fin nm → Bool
  iM : Fin nm → BusRequest aw dw
  iSstall : Fin ns → Bool
  iSack : Fin ns → Bool
  iSerr : Fin ns → Bool
  iSdata : Fin ns → BitVec dw

/-- An entry of an array that is given by its number. -/
def entry {n : ℕ} {α : Type*} (f : Fin n → α) (unused : α) (k : ℕ) : α :=
  if h : k < n then f ⟨k, h⟩ else unused

@[simp]
theorem entry_val {n : ℕ} {α : Type*} (f : Fin n → α) (unused : α) (k : Fin n) :
  entry f unused k = f k
  := by rw [entry, dif_pos k.isLt]

/-- The numbers of the bits that are set, or-ed together. -/
def orOf {n : ℕ} (f : Fin n → Bool) : ℕ :=
  ((List.finRange n).filter f).foldl (fun (index : ℕ) (k : Fin n) => index ||| k) 0

/-- The options of the skid buffers. -/
def skid : Skidbuffer.Options where
  optLowpower := false
  optOutreg := false
  optPassthrough := false

section Wires

variable (p : Wbxbar nm ns aw dw lg) (i : Input nm ns aw dw)

/-- `dcd_stb` -/
def dcdStb (n : Fin nm) : Bool := (p.adcd n).oValid

/-- `{ m_we, m_addr, m_data, m_sel }` -/
def m (n : Fin nm) : BusRequest aw dw where
  we := (p.adcd n).oData.1
  addr := (p.adcd n).oAddr
  data := (p.adcd n).oData.2.1
  sel := (p.adcd n).oData.2.2

/-- `request` -/
def request (n : Fin nm) : Selection ns :=
  if i.iMcyc n && p.dcdStb n then (p.adcd n).oDecode else .zero

/-- `m_stb` -/
def mStb (n : Fin nm) : Bool := if p.mfull n then false else i.iMcyc n && p.dcdStb n

/-- A master that has no grant, or one it could give up. -/
def movable (n : Fin nm) : Bool := !p.mgrant n || p.mempty n

/-- `requested`: a prior master has requested the slave. -/
def requested (n : Fin nm) (s : Fin ns) : Bool :=
  (List.finRange nm).any fun k =>
    k < n && (p.request i k).slave s && ((p.grant k).slave s || p.movable k)

/-- `drop_sgrant` -/
def dropSgrant (s : Fin ns) : Bool :=
  if i.iReset then true
  else if !p.sgrant s then false
  else
    !entry i.iMcyc false (p.sindex s)
      || !entry (fun n => (p.request i n).slave s) false (p.sindex s)
        && entry (p.mStb i) false (p.sindex s) && entry p.mempty false (p.sindex s)

/-- `s_stall` -/
def sStall (s : Fin ns) : Bool := p.oSstb s && i.iSstall s

/-- `s_ack` -/
def sAck (s : Fin ns) : Bool := p.oScyc s && i.iSack s

/-- `s_err` -/
def sErr (s : Fin ns) : Bool := p.oScyc s && i.iSerr s

/-- `stay_on_channel` -/
def stayOnChannel (n : Fin nm) : Bool :=
  (List.finRange ns).any (fun s => (p.request i n).slave s && (p.grant n).slave s)
    || (p.request i n).none && (p.grant n).none || p.mgrant n && !p.mempty n

/-- `requested_channel_is_available` -/
def requestedChannelIsAvailable (n : Fin nm) : Bool :=
  if nm < 2 then p.mStb i n
  else
    (p.request i n).none
      || (List.finRange ns).any fun s =>
        (p.request i n).slave s && !p.sgrant s && !p.requested i n s

/-- `regrant`, of the slaves for a master -/
def regrantSlave (n : Fin nm) (s : Fin ns) : Bool :=
  ((p.grant n).slave s || !p.sgrant s && !p.requested i n s) && (p.request i n).slave s
    && !(p.mgrant n && !p.mempty n)

/-- `regrant[NS]` -/
def regrantNone (n : Fin nm) : Bool :=
  (p.grant n).none && (p.request i n).none && !(p.mgrant n && !p.mempty n)

/-- `reindex`, of the slaves for a master -/
def reindexSlave (n : Fin nm) : ℕ :=
  if (List.finRange ns).any (p.regrantSlave i n) || p.regrantNone i n then
    orOf (p.regrantSlave i n) ||| if p.regrantNone i n then ns else 0
  else p.mindex n

/-- `regrant`, of the masters for a slave -/
def regrantMaster (s : Fin ns) (n : Fin nm) : Bool :=
  ((p.grant n).slave s || !p.sgrant s && !p.requested i n s) && (p.request i n).slave s
    && !(p.mgrant n && !p.mempty n)

/-- `reindex`, of the masters for a slave -/
def reindexMaster (s : Fin ns) : ℕ :=
  if (List.finRange nm).any (p.regrantMaster i s) then orOf (p.regrantMaster i s) else p.sindex s

/-- `o_mack` -/
def oMack (n : Fin nm) : Bool := p.rMack n

/-- `o_merr` -/
def oMerr (n : Fin nm) : Bool := p.rMerr n

/-- `request[N][mindex[N]]` -/
def requestsOwn (n : Fin nm) : Bool :=
  entry (p.request i n).slave (p.mindex n == ns && (p.request i n).none) (p.mindex n)

/-- `m_stall` -/
def mStall (n : Fin nm) : Bool :=
  if p.oMerr n then false
  else if (p.grant n).none then true
  else if p.mgrant n && p.requestsOwn i n then
    p.mfull n || entry (p.sStall i) true (p.mindex n)
  else p.mStb i n

/-- What the skid buffer of a master is given. -/
def iskidInput (n : Fin nm) : Skidbuffer.Input (1 + aw + dw + dw / 8) where
  iReset := i.iReset || !i.iMcyc n
  iValid := i.iMstb n
  iData := (i.iM n).pack
  iReady := !(p.adcd n).oStall (p.mStall i n && i.iMcyc n)

/-- `{ skd_we, skd_addr, skd_data, skd_sel }` -/
def skd (n : Fin nm) : BusRequest aw dw := .unpack ((p.iskid n).oData skid (p.iskidInput i n))

/-- What the address decoder of a master is given. -/
def adcdInput (n : Fin nm) : Addrdecode.Input aw (Bool × BitVec dw × BitVec (dw / 8)) where
  iReset := i.iReset
  iValid := (p.iskid n).oValid skid (p.iskidInput i n) && i.iMcyc n
  iAddr := (p.skd i n).addr
  iData := ((p.skd i n).we, (p.skd i n).data, (p.skd i n).sel)
  iStall := p.mStall i n && i.iMcyc n

/-- `o_mstall` -/
def oMstall (n : Fin nm) : Bool := !(p.iskid n).oReady skid (p.iskidInput i n)

/-- One clock of `wbxbar`. -/
def step [NeZero ns] (A : AddressMap ns aw) : Wbxbar nm ns aw dw lg where
  iskid := fun n => (p.iskid n).step skid (p.iskidInput i n)
  adcd := fun n => (p.adcd n).step A (p.adcdInput i n)
  grant := fun n =>
    if i.iReset || !i.iMcyc n then .zero
    else if p.stayOnChannel i n then p.grant n
    else if p.requestedChannelIsAvailable i n then p.request i n
    else if p.mStb i n then .zero
    else p.grant n
  mgrant := fun n =>
    if i.iReset || !i.iMcyc n then false
    else if p.stayOnChannel i n then p.mgrant n
    else if p.requestedChannelIsAvailable i n then true
    else if p.mStb i n then false
    else p.mgrant n
  sgrant := fun s =>
    if p.dropSgrant i s then false
    else if (List.finRange nm).any (fun n => (p.request i n).slave s && p.movable n) then true
    else p.sgrant s
  mindex := fun n => if ns = 1 then 0 else p.reindexSlave i n
  sindex := fun s => if nm ≤ 1 then 0 else p.reindexMaster i s
  oScyc := fun s =>
    if i.iReset || p.sErr i s then false
    else p.sgrant s && entry i.iMcyc false (p.sindex s)
  oSstb := fun s =>
    if i.iReset || p.sErr i s then false
    else if p.sgrant s then
      if !entry i.iMcyc false (p.sindex s) then false
      else if !p.oSstb s || !p.sStall i s then
        entry (fun n => (p.request i n).slave s) false (p.sindex s)
          && !entry p.mfull false (p.sindex s)
      else p.oSstb s
    else false
  oS := fun s =>
    if !p.sgrant s then .zero
    else if !p.sStall i s then (entry p.m .zero (p.sindex s)).shown
    else p.oS s
  rMack := fun n =>
    if i.iReset || !i.iMcyc n || p.oMerr n then false
    else if (p.grant n).none then false
    else p.mgrant n && entry (p.sAck i) false (p.mindex n)
  rMerr := fun n =>
    if i.iReset || !i.iMcyc n || p.oMerr n then false
    else if (p.grant n).none then !p.oMerr n
    else p.mgrant n && entry (p.sErr i) true (p.mindex n)
  oMdata := fun n => if !p.mgrant n then 0 else entry i.iSdata 0 (p.mindex n)
  lclpending := fun n =>
    if i.iReset || !i.iMcyc n || p.oMerr n then 0
    else match p.mStb i n && !p.mStall i n, p.oMack n with
    | false, true => p.lclpending n - 1
    | true, false => p.lclpending n + 1
    | _, _ => p.lclpending n
  mfull := fun n =>
    if i.iReset || !i.iMcyc n || p.oMerr n then false
    else match p.mStb i n && !p.mStall i n, p.oMack n with
    | false, true => false
    | true, false => p.mnearfull n
    | _, _ => p.mfull n
  mnearfull := fun n =>
    if i.iReset || !i.iMcyc n || p.oMerr n then false
    else match p.mStb i n && !p.mStall i n, p.oMack n with
    | false, true => p.mfull n
    | true, false =>
        (p.lclpending n).extractLsb' 2 (lg - 2) == BitVec.allOnes (lg - 2)
          && (p.lclpending n).extractLsb' 0 2 != 0
    | _, _ => p.mnearfull n
  mempty := fun n =>
    if i.iReset || !i.iMcyc n || p.oMerr n then true
    else match p.mStb i n && !p.mStall i n, p.oMack n with
    | false, true => p.lclpending n == 1
    | true, false => false
    | _, _ => p.mempty n

end Wires

end Wbxbar

end ZBasic
