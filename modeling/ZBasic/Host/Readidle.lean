import ZBasic.Host.Lclreadcode
import ZBasic.Host.Readword

/-!
# Waiting for the bus to become idle

`readidle` reads what is waiting on the link and passes over it, except for errors and
interrupts. Its loop reads a character to see whether one is there, and then reads the next
one to see what it is, so that every first character is lost.
-/

namespace ZBasic

/-- The six bits of a code character. -/
def sixOf (b : BitVec 8) : BitVec 6 := (chardec b).setWidth 6

/-- The six bits of each code character. -/
def codesOf (bs : List (BitVec 8)) : List (BitVec 6) := (bs.filter isCode).map sixOf

theorem codesOf_append (bs bs' : List (BitVec 8)) :
  codesOf (bs ++ bs') = codesOf bs ++ codesOf bs'
  := by simp [codesOf]

theorem length_codesOf_singleton (b : BitVec 8) :
  (codesOf [b]).length = (isCode b).toNat
  := by cases h : isCode b <;> simp [codesOf, h]

/-- How `readidle` ends: it returns, throws a `BUSERR`, or waits for more to come. -/
inductive Ending where
  | returned
  | threw
  | waits
deriving DecidableEq

/-- `readidle` at work: the members of `TTYBUS` it uses, the buffer `m_buf`, what is still to
come from the device, and the codewords it has made something of. -/
structure Idling where
  back : Readback
  buf : Buffer
  rest : List (BitVec 8)
  heard : List (List (BitVec 6))

namespace Idling

variable (avail : ℕ → Bool) (chunk : ℕ → ℕ)

/-- The rest of a codeword of `want` characters is read. -/
def complete (want nr : ℕ) (s : Idling) : Option Idling :=
  (readcodes chunk want nr s.buf s.rest).map fun (buf', rest') =>
    { s with
      buf := buf'
      rest := rest'
      heard := s.heard ++ [(buf'.window 0 want).map sixOf] }

/-- A codeword of one character. -/
def single (sixbits : BitVec 6) (s : Idling) : Idling := { s with heard := s.heard ++ [[sixbits]] }

/-- A data word, which is read off and ignored, after the loop. -/
def found (sixbits : BitVec 6) (nr : ℕ) (s : Idling) : Idling × Ending :=
  if sixbits &&& 0x3e = 0x06 then
    ({ s.single sixbits with back := s.back.moveOn sixbits }, .returned)
  else if sixbits &&& 0x30 = 0x10 then
    match s.complete chunk 2 nr with
    | none => (s, .waits)
    | some s' => ({ s' with back := s'.back.moveOn sixbits }, .returned)
  else if sixbits &&& 0x30 = 0x20 then
    ({ s.single sixbits with back := s.back.moveOn sixbits }, .returned)
  else if sixbits &&& 0x38 = 0x38 then
    match s.complete chunk 6 nr with
    | none => (s, .waits)
    | some s' =>
        let val := shiftIn (((sixbits >>> 1) &&& 0x03).setWidth 32)
          ((s'.buf.window 1 5).map sixOf)
        ({ s' with back := (s'.back.hearRaw val).moveOn sixbits }, .returned)
  else (s.single sixbits, .returned)

/-- What the loop makes of the character in `m_buf[0]`, and how `readidle` ends if the loop
does. Addresses are read and ignored. -/
def handle (nr : ℕ) (s : Idling) : Idling × Option Ending :=
  let sixbits := sixOf (s.buf 0)
  if !isCode (s.buf 0) then (s, none)
  else if sixbits < 6 then
    ({ s.single sixbits with back := s.back.hearStatus sixbits },
      if sixbits = 3 ∨ sixbits = 5 then some .threw else none)
  else if sixbits &&& 0x3c = 0x08 then
    match s.complete chunk 6 nr with
    | none => (s, some .waits)
    | some s' => (s', none)
  else if sixbits &&& 0x3c = 0x0c then
    match s.complete chunk ((sixbits &&& 0x03).toNat + 2) nr with
    | none => (s, some .waits)
    | some s' => (s', none)
  else ((s.found chunk sixbits nr).1, some (s.found chunk sixbits nr).2)

end Idling

variable {avail : ℕ → Bool} {chunk : ℕ → ℕ}

/-- What is consumed to complete a codeword has the characters that it wants. -/
theorem readcodes_used {want nr : ℕ} {buf buf' : Buffer} {rest rest' : List (BitVec 8)}
    (h : readcodes chunk want nr buf rest = some (buf', rest')) :
  ∃ used, rest = used ++ rest' ∧ want ≤ nr + (codesOf used).length
  := by
  fun_induction readcodes chunk want nr buf rest with
  | case1 => cases h
  | case2 nr buf rest hrest bs got hmore ih =>
      obtain ⟨used, hused, hwant⟩ := ih h
      use bs ++ used
      rw [List.append_assoc, ← hused, arriving_append, codesOf_append, List.length_append]
      use rfl
      have hret : got.2 = (codesOf bs).length := by simp [got, lclreadcode_ret, codesOf]
      omega
  | case3 nr buf rest hrest bs got hmore =>
      use bs
      have hret : got.2 = (codesOf bs).length := by simp [got, lclreadcode_ret, codesOf]
      obtain ⟨rfl, rfl⟩ : got.1 = buf' ∧ rest.drop bs.length = rest' := by simpa using h
      use (arriving_append chunk (want - nr) rest).symm
      omega

namespace Idling

/-- A part of `readidle` consumes some characters, and makes no more of them, and of `more`
code characters read before, than there are. -/
def Consumes (s s' : Idling) (more : ℤ) : Prop :=
  ∃ used, s.rest = used ++ s'.rest
    ∧ (s'.heard.flatten.length : ℤ) ≤ s.heard.flatten.length + more + (codesOf used).length

theorem Consumes.nothing (s : Idling) {more : ℤ} (hmore : 0 ≤ more) :
  s.Consumes s more
  := by
  use [], rfl
  omega

theorem Consumes.mono {s s' : Idling} {more more' : ℤ} (h : s.Consumes s' more)
    (hle : more ≤ more') :
  s.Consumes s' more'
  := by
  obtain ⟨used, hused, hlen⟩ := h
  use used, hused
  omega

theorem Consumes.trans {s s' s'' : Idling} {more : ℤ} (h : s.Consumes s' more)
    (h' : s'.Consumes s'' 0) :
  s.Consumes s'' more
  := by
  obtain ⟨used, hused, hle⟩ := h
  obtain ⟨used', hused', hle'⟩ := h'
  use used ++ used'
  rw [hused, hused', List.append_assoc, codesOf_append, List.length_append]
  use rfl
  omega

theorem consumes_single (sixbits : BitVec 6) (s : Idling) {more : ℤ} (hone : 1 ≤ more) :
  s.Consumes (s.single sixbits) more
  := by
  use [], rfl
  simp [single, codesOf]
  omega

theorem consumes_complete {want nr : ℕ} {more : ℤ} {s s' : Idling}
    (h : s.complete chunk want nr = some s') (hnr : nr ≤ more) :
  s.Consumes s' more
  := by
  rw [complete, Option.map_eq_some_iff] at h
  obtain ⟨⟨buf', rest'⟩, hcodes, rfl⟩ := h
  obtain ⟨used, hused, hwant⟩ := readcodes_used hcodes
  use used, hused
  simp
  omega

theorem consumes_found (sixbits : BitVec 6) (s : Idling) {nr : ℕ} {more : ℤ} (hnr : nr ≤ more)
    (hone : 1 ≤ more) :
  s.Consumes (s.found chunk sixbits nr).1 more
  := by
  have hsingle := consumes_single sixbits s hone
  unfold found
  split_ifs
  · apply hsingle
  · cases hc : s.complete chunk 2 nr with
    | none => apply Consumes.nothing s (by omega)
    | some s' => apply consumes_complete hc hnr
  · apply hsingle
  · cases hc : s.complete chunk 6 nr with
    | none => apply Consumes.nothing s (by omega)
    | some s' => apply consumes_complete hc hnr
  · apply hsingle

/-- The character in `m_buf[0]` is part of what is made something of, if it is a code
character. -/
theorem consumes_handle (s : Idling) {nr : ℕ} {more : ℤ} (hnr : nr ≤ more)
    (hone : isCode (s.buf 0) = true → 1 ≤ more) :
  s.Consumes (s.handle chunk nr).1 more
  := by
  unfold handle
  cases hcode : isCode (s.buf 0) with
  | false => apply Consumes.nothing s (by omega)
  | true =>
      have hsingle := consumes_single (sixOf (s.buf 0)) s (hone hcode)
      simp only [Bool.not_true, Bool.false_eq_true, if_false]
      split_ifs
      · apply hsingle
      · apply hsingle
      · cases hc : s.complete chunk 6 nr with
        | none => apply Consumes.nothing s (by omega)
        | some s' => apply consumes_complete hc hnr
      · cases hc : s.complete chunk ((sixOf (s.buf 0) &&& 0x03).toNat + 2) nr with
        | none => apply Consumes.nothing s (by omega)
        | some s' => apply consumes_complete hc hnr
      · apply consumes_found _ s hnr (hone hcode)

/-- `lclreadcode(&m_buf[0], 1)`, which waits if nothing is there, and the value it returns. -/
def fetch (s : Idling) : Option (Idling × ℕ) :=
  match s.rest with
  | [] => none
  | b :: rest =>
      let got := lclreadcode s.buf 0 [b]
      some ({ s with buf := got.1, rest := rest }, got.2)

/-- The character read is in `m_buf[0]`, and counts if it is a code character. -/
theorem fetch_spec {s s' : Idling} {nr : ℕ} (h : s.fetch = some (s', nr)) :
  s.rest = s'.buf 0 :: s'.rest ∧ nr = (isCode (s'.buf 0)).toNat ∧ s'.heard = s.heard
    ∧ s'.back = s.back
  := by
  cases hrest : s.rest with
  | nil => simp [fetch, hrest] at h
  | cons b rest =>
      simp only [fetch, hrest, Option.some.injEq, Prod.mk.injEq] at h
      obtain ⟨rfl, rfl⟩ := h
      have hkept : (lclreadcode s.buf 0 [b]).1 0 = b := by
        have hone : 0 < [b].length := Nat.zero_lt_one
        have hzero : (lclreadcode s.buf 0 [b]).1 (0 + 0) = [b][0] := lclreadcode_kept hone (by simp)
        apply hzero
      dsimp only
      rw [lclreadcode_ret, hkept]
      refine ⟨rfl, ?_, rfl, rfl⟩
      cases hcode : isCode b <;> simp [hcode]

end Idling

/-- `readidle`: whether `available` finds something depends on how much is still to come, and
so does how many bytes a read returns. -/
def readidle (avail : ℕ → Bool) (chunk : ℕ → ℕ) (s : Idling) : Idling × Ending :=
  if avail s.rest.length then
    match _h₁ : s.fetch with
    | none => (s, .returned)
    | some (s₁, 0) => (s₁, .returned)
    | some (s₁, _ + 1) =>
        -- the first character is overwritten by the second
        match _h₂ : s₁.fetch with
        | none => (s₁, .waits)
        | some (s₂, nr) =>
            match _h₃ : s₂.handle chunk nr with
            | (s₃, none) => readidle avail chunk s₃
            | (s₃, some e) => (s₃, e)
  else (s, .returned)
termination_by s.rest.length
decreasing_by
  have h₁ := (Idling.fetch_spec _h₁).1
  have h₂ := (Idling.fetch_spec _h₂).1
  have hhandle : s₂.Consumes (s₂.handle chunk nr).1 (nr + 1) :=
    s₂.consumes_handle (by omega) (by omega)
  obtain ⟨used, hused, -⟩ := hhandle
  rw [_h₃] at hused
  rw [h₁, h₂, hused]
  simp
  omega

/-! ### What is lost -/

namespace Idling

/-- The characters read by `fetch` are consumed. -/
theorem Consumes.fetch {s s' s'' : Idling} {nr : ℕ} {more : ℤ} (hfetch : s.fetch = some (s', nr))
    (h : s'.Consumes s'' more) :
  s.Consumes s'' (more - nr)
  := by
  obtain ⟨hrest, rfl, hheard, -⟩ := fetch_spec hfetch
  obtain ⟨used, hused, hle⟩ := h
  use s'.buf 0 :: used
  have hcodes : (codesOf (s'.buf 0 :: used)).length
      = (isCode (s'.buf 0)).toNat + (codesOf used).length := by
    rw [← List.singleton_append, codesOf_append, List.length_append, length_codesOf_singleton]
  rw [hcodes, ← hheard, hrest, hused]
  use rfl
  push_cast
  omega

/-- What is done with the second character is accounted for by that character. -/
theorem Consumes.second {s s₂ s' : Idling} {nr : ℕ} (hfetch : s.fetch = some (s₂, nr))
    (h : s' = (s₂.handle chunk nr).1) :
  s.Consumes s' 0
  := by
  have hnr := (fetch_spec hfetch).2.1
  have hhandle : s₂.Consumes (s₂.handle chunk nr).1 nr := by
    apply consumes_handle s₂ (Int.le_refl _)
    intro hcode
    rw [hnr, hcode]
    decide
  have := Consumes.fetch hfetch hhandle
  rwa [Int.sub_self, ← h] at this

end Idling

open Idling

/-- `readidle` never makes more of the characters it consumes than there are. -/
theorem consumes_readidle (avail : ℕ → Bool) (chunk : ℕ → ℕ) (s : Idling) :
  s.Consumes (readidle avail chunk s).1 0
  := by
  have hnothing : ∀ s : Idling, s.Consumes s 0 := fun s => Consumes.nothing s (Int.le_refl 0)
  fun_induction readidle avail chunk s with
  | case1 s havail hfetch => apply hnothing
  | case2 s havail s₁ hfetch => apply Consumes.fetch hfetch (hnothing s₁)
  | case3 s havail s₁ nr hfetch hnone =>
      apply (Consumes.fetch hfetch (hnothing s₁)).mono
      omega
  | case4 s havail s₁ nr hfetch s₂ nr' hfetch' s₃ hhandle ih =>
      have hsecond : s₁.Consumes s₃ 0 := Consumes.second hfetch' (by rw [hhandle])
      apply (Consumes.fetch hfetch (hsecond.trans ih)).mono
      omega
  | case5 s havail s₁ nr hfetch s₂ nr' hfetch' s₃ e hhandle =>
      have hsecond : s₁.Consumes s₃ 0 := Consumes.second hfetch' (by rw [hhandle])
      apply (Consumes.fetch hfetch hsecond).mono
      omega
  | case6 s havail => apply hnothing

/-- If the first character that is waiting is a code character, it is lost. -/
theorem consumes_readidle_of_code {s : Idling} {b : BitVec 8} {rest : List (BitVec 8)}
    (havail : avail s.rest.length = true) (hrest : s.rest = b :: rest) (hcode : isCode b = true) :
  s.Consumes (readidle avail chunk s).1 (-1)
  := by
  have hnothing : ∀ s : Idling, s.Consumes s 0 := fun s => Consumes.nothing s (Int.le_refl 0)
  have hfirst : ∀ s₁ nr, s.fetch = some (s₁, nr) → nr = 1 := by
    intro s₁ nr hfetch
    obtain ⟨hcons, hnr, -⟩ := fetch_spec hfetch
    rw [hrest, List.cons.injEq] at hcons
    rw [hnr, ← hcons.1, hcode]
    rfl
  fun_cases readidle avail chunk s with
  | case1 _ hfetch => simp [fetch, hrest] at hfetch
  | case2 _ s₁ hfetch => cases hfirst s₁ 0 hfetch
  | case3 _ s₁ nr hfetch hnone =>
      have := hfirst s₁ _ hfetch
      apply (Consumes.fetch hfetch (hnothing s₁)).mono
      omega
  | case4 _ s₁ nr hfetch s₂ nr' hfetch' s₃ hhandle =>
      have := hfirst s₁ _ hfetch
      have hsecond : s₁.Consumes s₃ 0 := Consumes.second hfetch' (by rw [hhandle])
      apply (Consumes.fetch hfetch (hsecond.trans (consumes_readidle avail chunk s₃))).mono
      omega
  | case5 _ s₁ nr hfetch s₂ nr' hfetch' s₃ e hhandle =>
      have := hfirst s₁ _ hfetch
      have hsecond : s₁.Consumes s₃ 0 := Consumes.second hfetch' (by rw [hhandle])
      apply (Consumes.fetch hfetch hsecond).mono
      omega
  | case6 hnot => cases hnot havail

/-- The groups of a data word. -/
def isDataGroups (gs : List (BitVec 6)) : Bool :=
  let sixbits := gs.headD 0
  sixbits &&& 0x3e == 0x06 || sixbits &&& 0x30 == 0x10 || sixbits &&& 0x30 == 0x20
    || sixbits &&& 0x38 == 0x38

/-- An error or a reset comes before any data word. -/
def ErrorFirst (heard : List (List (BitVec 6))) : Prop :=
  ∃ before gs after, heard = before ++ gs :: after ∧ (gs = [3] ∨ gs = [5])
    ∧ ∀ d ∈ before, isDataGroups d = false

/-- `readidle` consumes whole codewords, in order, and makes of them what they mean. -/
structure LosesNothing (avail : ℕ → Bool) (chunk : ℕ → ℕ) (s : Idling) : Prop where
  ends : (readidle avail chunk s).2 ≠ .waits
  /-- The characters consumed are those of the codewords that something is made of. -/
  inOrder : ∃ used, s.rest = used ++ (readidle avail chunk s).1.rest
    ∧ codesOf used = (readidle avail chunk s).1.heard.flatten
  whole : ∀ gs ∈ (readidle avail chunk s).1.heard, gs.length = (topLen (gs.headD 0)).toNat
  throws : (readidle avail chunk s).2 = .threw ↔ ErrorFirst (readidle avail chunk s).1.heard
  interrupt : (readidle avail chunk s).1.back.mInterruptFlag
    = (s.back.mInterruptFlag || (readidle avail chunk s).1.heard.contains [4])

/-- There is nothing to be read, or the first character is not a code character. -/
def NothingToRead (avail : ℕ → Bool) (rest : List (BitVec 8)) : Prop :=
  avail rest.length = false ∨ ∀ b ∈ rest.head?, isCode b = false

theorem losesNothing_of_nothingToRead {s : Idling} (hheard : s.heard = [])
    (h : NothingToRead avail s.rest) :
  LosesNothing avail chunk s
  := by
  have hend : (readidle avail chunk s).2 = .returned
      ∧ (readidle avail chunk s).1.heard = [] ∧ (readidle avail chunk s).1.back = s.back
      ∧ ∃ used, s.rest = used ++ (readidle avail chunk s).1.rest ∧ codesOf used = [] := by
    have hcode : ∀ s₁ nr, avail s.rest.length = true → s.fetch = some (s₁, nr) → nr = 0 := by
      intro s₁ nr havail hfetch
      obtain ⟨hcons, hnr, -⟩ := fetch_spec hfetch
      rcases h with hnot | hhead
      · rw [havail] at hnot
        cases hnot
      · rw [hnr, hhead (s₁.buf 0) (by simp [hcons])]
        rfl
    fun_cases readidle avail chunk s with
    | case1 havail hfetch => exact ⟨rfl, hheard, rfl, [], rfl, rfl⟩
    | case2 havail s₁ hfetch =>
        obtain ⟨hcons, hnr, hsame, hback⟩ := fetch_spec hfetch
        refine ⟨rfl, hsame.trans hheard, hback, [s₁.buf 0], hcons, ?_⟩
        rw [← List.length_eq_zero_iff, length_codesOf_singleton, ← hnr]
    | case3 havail s₁ nr hfetch => cases hcode s₁ _ havail hfetch
    | case4 havail s₁ nr hfetch => cases hcode s₁ _ havail hfetch
    | case5 havail s₁ nr hfetch => cases hcode s₁ _ havail hfetch
    | case6 hnot => exact ⟨rfl, hheard, rfl, [], rfl, rfl⟩
  obtain ⟨hreturned, hnone, hback, used, hused, hcodes⟩ := hend
  constructor
  · rw [hreturned]
    simp
  · use used, hused
    rw [hnone, hcodes]
    rfl
  · simp [hnone]
  · simp [hreturned, hnone, ErrorFirst]
  · simp [hnone, hback]

theorem not_losesNothing_of_code {s : Idling} {b : BitVec 8} {rest : List (BitVec 8)}
    (hheard : s.heard = []) (havail : avail s.rest.length = true) (hrest : s.rest = b :: rest)
    (hcode : isCode b = true) :
  ¬ LosesNothing avail chunk s
  := by
  intro h
  obtain ⟨used, hused, hlen⟩ : s.Consumes (readidle avail chunk s).1 (-1) :=
    consumes_readidle_of_code havail hrest hcode
  obtain ⟨used', hused', hcodes⟩ := h.inOrder
  obtain rfl : used = used' := List.append_cancel_right (hused.symm.trans hused')
  rw [hcodes, hheard] at hlen
  simp at hlen

/-- `readidle` loses nothing exactly when there is nothing to be read. -/
theorem losesNothing_iff {s : Idling} (hheard : s.heard = []) :
  LosesNothing avail chunk s ↔ NothingToRead avail s.rest
  := by
  constructor
  · intro h
    by_contra hnot
    rw [NothingToRead, not_or] at hnot
    obtain ⟨havail, hhead⟩ := hnot
    push Not at hhead
    obtain ⟨b, hb, hcode⟩ := hhead
    obtain ⟨rest, hrest⟩ := List.head?_eq_some_iff.mp hb
    apply not_losesNothing_of_code hheard (by simpa using havail) hrest (by simpa using hcode) h
  · apply losesNothing_of_nothingToRead hheard

/-- The host before it waits for the bus to become idle, with some characters waiting. -/
def Idling.start (rest : List (BitVec 8)) : Idling where
  back :=
    { mReadtbl := fun _ => 0, mRdaddr := 0, mLastaddr := 0, mAddrSet := false, mBusErr := false
      mInterruptFlag := false }
  buf := fun _ => 0
  rest := rest
  heard := []

/-- A newline is waiting, and then an error. -/
theorem losesNothing_iff_newline :
  LosesNothing (fun _ => true) (fun _ => 1) (Idling.start [0x0a, 0x35])
  := by
  apply (losesNothing_iff rfl).mpr
  right
  decide

/-- An error is waiting, and then that the bus is idle: `readidle` reads both and returns,
as if there had been no error. -/
theorem error_lost :
  (readidle (fun _ => true) (fun _ => 1) (Idling.start [0x35, 0x30])).2 = .returned
    ∧ (readidle (fun _ => true) (fun _ => 1) (Idling.start [0x35, 0x30])).1.rest = []
    ∧ ¬ LosesNothing (fun _ => true) (fun _ => 1) (Idling.start [0x35, 0x30])
  := by
  let s₂ : Idling :=
    { Idling.start [] with
      buf := (lclreadcode (lclreadcode (fun _ => 0) 0 [0x35]).1 0 [0x30]).1 }
  let s₃ : Idling := { s₂.single 0 with back := s₂.back.hearStatus 0 }
  have hrun : readidle (fun _ => true) (fun _ => 1) (Idling.start [0x35, 0x30])
      = readidle (fun _ => true) (fun _ => 1) s₃ := by
    rw [readidle]
    rfl
  have hend : readidle (fun _ => true) (fun _ => 1) s₃ = (s₃, .returned) := by
    rw [readidle]
    rfl
  refine ⟨by rw [hrun, hend], by rw [hrun, hend]; rfl, ?_⟩
  apply not_losesNothing_of_code rfl rfl rfl
  decide

end ZBasic
