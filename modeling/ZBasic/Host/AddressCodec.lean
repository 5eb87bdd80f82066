import ZBasic.Host.Session
import ZBasic.Wbubus.ReadCycle

/-!
# Address commands

What `encode_address` sends comes out of the device's reader as one codeword, or as none
where nothing is sent. An idle executor that executes it has its address register at the
address asked for, if the host knew where the register was, or sent the whole address.
-/

namespace ZBasic

open Clocked

namespace Wbuexec

/-- The executor executes codewords, each at a clock at which it is not busy, and from `e`
ends in `e'`. -/
inductive Executes : Wbuexec → List Codeword → Wbuexec → Prop
  | done (e : Wbuexec) : Executes e [] e
  | next {e e' : Wbuexec} {i : Input} {ws : List Codeword} (hreset : i.iReset = false)
      (htakes : e.takes i = true) (hrest : Executes (e.step i) ws e') :
      Executes e (i.iCodword :: ws) e'

variable {e : Wbuexec} {i : Input}

/-- The bus takes 30 bits of the address register. -/
def busAddr (e : Wbuexec) : BitVec 30 := e.oWbAddr.setWidth 30

theorem busAddr_step_absolute (htakes : e.takes i = true) (habs : i.iCodword.isAbsolute = true) :
  (e.step i).busAddr = (i.iCodword.extractLsb' 0 32).setWidth 30
  := by
  have hfree : (i.iStb && !e.oBusy && i.iCodword.isAbsolute) = true := by
    rw [habs, Bool.and_true]
    apply htakes
  simp only [busAddr, step, nextAddr, hfree, if_true]

theorem busAddr_step_relative (htakes : e.takes i = true) (hrel : i.iCodword.isRelative = true)
    (habs : i.iCodword.isAbsolute = false) :
  (e.step i).busAddr = e.busAddr + i.iCodword.codData.setWidth 30
  := by
  have hstb : (i.iStb && !e.oBusy) = true := htakes
  simp only [busAddr, step, nextAddr, hstb, habs, hrel, Bool.and_true, if_true]
  rw [if_neg (by decide)]
  apply BitVec.setWidth_add
  decide

end Wbuexec

theorem Codeword.isAbsolute_of_isRelative {w : Codeword} (h : w.isRelative = true) :
  w.isAbsolute = false
  := by
  rw [isRelative, beq_iff_eq] at h
  rw [isAbsolute, beq_eq_false_iff_ne]
  intro habs
  have htop : (w.extractLsb' 32 4).extractLsb' 1 3 = w.extractLsb' 33 3 := by
    rw [extract_extract w (by decide)]
  rw [habs, h] at htop
  cases htop

namespace Ttybus

/-- Before the characters of an address command the reader is between two codewords. -/
def BetweenCommands (before : List (BitVec 8)) : Prop :=
  (Reader.start.feedAll (before.map Wbuinput.hexbitsOf)).1.part = []

/-- The host knows no address, or its `m_lastaddr` is four times the address register. -/
def KnowsAddress (h : Ttybus) (e : Wbuexec) : Prop :=
  h.mAddrSet = true → h.mLastaddr = e.oWbAddr <<< 2

variable {h : Ttybus} {a : BitVec 32} {e e' : Wbuexec}

theorem busAddr_of_knows (hknows : h.KnowsAddress e) (hset : h.mAddrSet = true) :
  e.busAddr = (h.mLastaddr >>> 2).setWidth 30
  := by
  rw [hknows hset, Wbuexec.busAddr]
  apply BitVec.eq_of_toNat_eq
  simp only [BitVec.toNat_setWidth, BitVec.toNat_ushiftRight, BitVec.toNat_shiftLeft,
    Nat.shiftLeft_eq, Nat.shiftRight_eq_div_pow]
  omega

/-- Nothing is sent only for the address that is held. -/
theorem encodeAddress_eq_nil (hnil : h.encodeAddress a = []) :
  h.mAddrSet = true ∧ a = h.mLastaddr
  := by
  rcases h.encodeAddress_cases a with ⟨-, hheld⟩ | hfull | ⟨j, -, -, heq, -⟩ | ⟨j, -, -, heq, -⟩
  · apply hheld
  · rw [hfull] at hnil
    cases hnil
  · rw [heq] at hnil
    cases hnil
  · rw [heq] at hnil
    cases hnil

/-- A codeword that moves the address takes the register there. -/
theorem MovesAddress.busAddr_step {i : Wbuexec.Input} (hknows : h.KnowsAddress e)
    (htakes : e.takes i = true) (hmoves : h.MovesAddress a i.iCodword) :
  (e.step i).busAddr = (a >>> 2).setWidth 30
  := by
  rcases hmoves with ⟨habs, haddr⟩ | ⟨hrel, hset, haddr⟩
  · rw [Wbuexec.busAddr_step_absolute htakes habs, haddr]
  · have hlast := hknows hset
    have haligned : h.mLastaddr.extractLsb' 0 2 = 0#2 := by
      rw [hlast]
      apply BitVec.eq_of_toNat_eq
      simp only [BitVec.extractLsb'_toNat, BitVec.toNat_shiftLeft, BitVec.toNat_ofNat,
        Nat.shiftRight_zero, Nat.shiftLeft_eq]
      omega
    rw [Wbuexec.busAddr_step_relative htakes hrel (Codeword.isAbsolute_of_isRelative hrel),
      ← haddr haligned, busAddr_of_knows hknows hset]
    symm
    apply BitVec.setWidth_add
    decide

/-- What the characters of an address command add to what the reader has let out: nothing,
or one codeword, that moves the address. -/
theorem address_decoded {s₀ : Wbuinput} {inp : ℕ → Wbuinput.Input} {before : List (BitVec 8)}
    {N n : ℕ} (hs₀ : s₀.Initial) (hspaced : Wbuinput.Spaced inp)
    (hend : ∀ n, N ≤ n → (inp n).iStb = false) (hn : N + 8 ≤ n)
    (hchars : Wbuinput.bytes inp N = before ++ (h.encodeAddress a).map charenc)
    (hbefore : BetweenCommands before) (ha : a.extractLsb' 0 2 = 0#2) :
  ∃ raw earlier now, Wbuinput.words s₀ inp n = earlier ++ now
    ∧ earlier = s₀.unpack.table.outAll raw
    ∧ List.Forall₂ Carries raw (Reader.start.feedAll (before.map Wbuinput.hexbitsOf)).2
    ∧ (h.encodeAddress a = [] ∧ now = []
      ∨ h.encodeAddress a ≠ [] ∧ ∃ w, now = [w] ∧ h.MovesAddress a w)
  := by
  obtain ⟨raw, hwords, hraw⟩ := Wbuinput.words_eq hs₀ hspaced hend hn
  have hbytes : Wbuinput.bytes inp n = before ++ (h.encodeAddress a).map charenc := by
    rw [← hchars]
    apply log_eq_of_silent (by omega)
    intro k hk _
    simp [Wbuinput.received, hend k hk]
  have hsymbols : ((h.encodeAddress a).map charenc).map Wbuinput.hexbitsOf
      = (h.addressItems a).flatMap Item.symbols := by
    rw [addressItems]
    split_ifs with hnil
    · rw [hnil]
      rfl
    · rw [List.flatMap_singleton]
      apply hexbitsOf_chars (.command (h.encodeAddress a))
  obtain ⟨wr', hyields⟩ :=
    h.yields_address a (Reader.start.feedAll (before.map Wbuinput.hexbitsOf)).1.write
  have hreader : (Reader.start.feedAll (before.map Wbuinput.hexbitsOf)).1
      = ⟨[], (Reader.start.feedAll (before.map Wbuinput.hexbitsOf)).1.write⟩ := by
    rw [← hbefore]
  rw [Yields, ← hreader] at hyields
  rw [hbytes, List.map_append, hsymbols, Reader.feedAll_append, hyields] at hraw
  obtain ⟨raw₁, raw₂, rfl, hraw₁, hraw₂⟩ := split_carries hraw
  use raw₁, s₀.unpack.table.outAll raw₁, (s₀.unpack.table.nextAll raw₁).outAll raw₂
  refine ⟨?_, rfl, hraw₁, ?_⟩
  · rw [hwords, Table.outAll_append]
  · rw [addressCommands] at hraw₂
    by_cases hne : h.encodeAddress a = []
    · left
      rw [if_pos hne] at hraw₂
      cases hraw₂
      exact ⟨hne, rfl⟩
    · right
      rw [if_neg hne] at hraw₂
      cases hraw₂ with
      | @cons w _ _ _ hw hnil =>
          cases hnil
          exact ⟨hne, _, rfl, out_encodeAddress _ ha hne hw⟩

/-- Wherever the host knows the address register of an idle executor, or knows no address,
the characters of `encode_address` are one complete codeword or none, and once it is
executed the register is at the address asked for. -/
theorem address_reached {s₀ : Wbuinput} {inp : ℕ → Wbuinput.Input} {before : List (BitVec 8)}
    {N n : ℕ} (hs₀ : s₀.Initial) (hspaced : Wbuinput.Spaced inp)
    (hend : ∀ n, N ≤ n → (inp n).iStb = false) (hn : N + 8 ≤ n)
    (hchars : Wbuinput.bytes inp N = before ++ (h.encodeAddress a).map charenc)
    (hbefore : BetweenCommands before) (ha : a.extractLsb' 0 2 = 0#2) (hidle : e.Idle)
    (hknows : h.KnowsAddress e) :
  ∃ raw earlier now, Wbuinput.words s₀ inp n = earlier ++ now
    ∧ earlier = s₀.unpack.table.outAll raw
    ∧ List.Forall₂ Carries raw (Reader.start.feedAll (before.map Wbuinput.hexbitsOf)).2
    ∧ now.length = (if h.encodeAddress a = [] then 0 else 1)
    ∧ (∃ e', e.Executes now e')
    ∧ ∀ e', e.Executes now e' → e'.busAddr = (a >>> 2).setWidth 30
  := by
  obtain ⟨raw, earlier, now, hwords, hearlier, hraw, hnow⟩ :=
    address_decoded hs₀ hspaced hend hn hchars hbefore ha
  refine ⟨raw, earlier, now, hwords, hearlier, hraw, ?_⟩
  rcases hnow with ⟨hnil, rfl⟩ | ⟨hne, w, rfl, hmoves⟩
  · rw [if_pos hnil]
    refine ⟨rfl, ⟨e, .done e⟩, ?_⟩
    intro e' hexec
    cases hexec
    obtain ⟨hset, rfl⟩ := encodeAddress_eq_nil hnil
    apply busAddr_of_knows hknows hset
  · rw [if_neg hne]
    refine ⟨rfl, ?_, ?_⟩
    · apply Exists.intro
      apply Wbuexec.Executes.next (i := ⟨false, true, w, false, false, false, 0⟩) rfl
      · rw [Wbuexec.takes, hidle.oBusy]
        rfl
      · apply Wbuexec.Executes.done
    · intro e' hexec
      cases hexec with
      | next hreset htakes hrest =>
          cases hrest
          apply hmoves.busAddr_step hknows htakes

/-- A host that last used the address `0x1000`, where the device's address register is. -/
def near : Ttybus := { init with mAddrSet := true, mLastaddr := 0x1000 }

theorem address_reached_near :
  ∃ now : List Codeword, now.length = 1
    ∧ ∀ e', (Wbuexec.idleAt 0x400).Executes now e' → e'.busAddr = (0x1010#32 >>> 2).setWidth 30
  := by
  have hsent : Wbuinput.bytes (paced ((near.encodeAddress 0x1010).map charenc)) 10
      = [] ++ (near.encodeAddress 0x1010).map charenc :=
    bytes_paced _ (k := 2) (by decide)
  have hend : ∀ n, 10 ≤ n →
      (paced ((near.encodeAddress 0x1010).map charenc) n).iStb = false := by
    intro n hn
    apply paced_silent _ hn
  have hidle : (Wbuexec.idleAt 0x400).Idle := Wbuexec.idleAt_idle 0x400
  have hknows : near.KnowsAddress (Wbuexec.idleAt 0x400) := fun _ => by decide
  obtain ⟨-, -, now, -, -, -, hlen, -, hreached⟩ := address_reached powerUp_initial
    (paced_spaced _) hend (Nat.le_refl 18) hsent rfl (by decide) hidle hknows
  use now
  constructor
  · rw [hlen]
    decide
  · apply hreached

end Ttybus

end ZBasic
