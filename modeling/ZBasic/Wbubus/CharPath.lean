import ZBasic.Clocked.Framing
import ZBasic.Clocked.Run
import ZBasic.Wbubus.Lines

/-!
# The character output path

`wbudeword`, `wbucompactlines` and `wbusixchar` as `wbuoutput` chains them: codewords in,
characters for the transmitter out.
-/

namespace ZBasic

open Clocked

/-- The stages from `wbudeword` on. -/
structure CharPath where
  deword : Wbudeword
  linepacker : Wbucompactlines
  mkbytes : Wbusixchar
deriving DecidableEq, Repr

namespace CharPath

/-- Every stage is as at power up. -/
def Initial (s : CharPath) : Prop :=
  (∃ rWord, s.deword = Wbudeword.initial rWord)
    ∧ (∃ oNlHexbits, s.linepacker = Wbucompactlines.initial oNlHexbits)
    ∧ s.mkbytes = Wbusixchar.initial

/-- What comes from outside at a clock: the codeword offered, if any, whether more is
expected from the bus, and whether the transmitter is busy. -/
structure Input where
  cpStb : Option Codeword
  busBusy : Bool
  iTxBusy : Bool

/-- `byte_busy` -/
def byteBusy (s : CharPath) : Bool := s.mkbytes.oBusy

/-- `ln_busy` -/
def lnBusy (s : CharPath) : Bool := s.linepacker.oBusy

/-- What `wbudeword` sees. -/
def dewordInput (s : CharPath) (i : Input) : Wbudeword.Input where
  iStb := i.cpStb
  iTxBusy := s.lnBusy

/-- What `wbucompactlines` sees. -/
def linepackerInput (s : CharPath) (i : Input) : Wbucompactlines.Input where
  iStb := if s.deword.oStb then some s.deword.oNlHexbits else none
  iBusBusy := i.busBusy
  iTxBusy := s.byteBusy

/-- What `wbusixchar` sees. -/
def mkbytesInput (s : CharPath) (i : Input) : Wbusixchar.Input where
  iStb := s.linepacker.oStb
  iBits := s.linepacker.oNlHexbits
  iBusy := i.iTxBusy

/-- One clock of the path. -/
def step (s : CharPath) (i : Input) : CharPath where
  deword := s.deword.step (s.dewordInput i)
  linepacker := s.linepacker.step (s.linepackerInput i)
  mkbytes := s.mkbytes.step (s.mkbytesInput i)

/-- The codeword taken in at a clock. -/
def accepted (s : CharPath) (i : Input) : List Codeword := s.deword.accepted (s.dewordInput i)

/-- The character the transmitter takes at a clock. -/
def emitted (s : CharPath) (i : Input) : List (BitVec 8) := s.mkbytes.emitted (s.mkbytesInput i)

/-- The transmitter takes a character while the next one waits in `wbucompactlines`. -/
def Reload (s : CharPath) (i : Input) : Prop := s.mkbytes.Reload (s.mkbytesInput i)

/-- The characters of a codeword. -/
def chars (w : Codeword) : List (BitVec 8) := (groups w).map fun g => sixchar (hexbits g)

theorem newline_notMem_chars (w : Codeword) :
  newline ∉ chars w
  := by
  intro h
  obtain ⟨g, _, hg⟩ := List.mem_map.mp h
  apply sixchar_hexbits_ne g hg

theorem flatMap_chars (l : List Codeword) :
  l.flatMap chars = ((l.flatMap groups).map hexbits).map sixchar
  := by
  have hchars : chars = fun w => ((groups w).map hexbits).map sixchar := by
    funext w
    simp [chars, Function.comp_def]
  rw [List.map_flatMap, List.map_flatMap, hchars]

/-! ### What one clock preserves -/

/-- The characters still in the path. -/
def held (s : CharPath) : List (BitVec 8) :=
  s.mkbytes.held ++ s.linepacker.held.map sixchar ++ s.deword.pending.map sixchar

/-- What holds after the codewords `ws` have been taken in and the characters `cs` sent. -/
structure Inv (s : CharPath) (ws : List Codeword) (cs : List (BitVec 8)) : Prop where
  deword : s.deword.Inv
  linepacker : s.linepacker.Inv
  started : ws = [] →
    s.deword.oStb = false ∧ s.linepacker.oStb = false ∧ s.linepacker.lastOutNl = true
  sentNl : s.mkbytes.oStb = true → s.mkbytes.oChar = newline → s.linepacker.lastOutNl = true
  framed : Framed chars newline ws (cs ++ s.held)

theorem initial_inv {s : CharPath} (h : s.Initial) :
  s.Inv [] []
  := by
  obtain ⟨⟨rWord, hdeword⟩, ⟨b, hline⟩, hsix⟩ := h
  constructor
  · rw [hdeword]
    apply Wbudeword.initial_inv
  · rw [hline]
    apply Wbucompactlines.initial_inv
  · intro _
    simp [hdeword, hline, Wbudeword.initial, Wbucompactlines.initial]
  · simp [hline, Wbucompactlines.initial]
  · have hheld : s.held = [] := by
      simp [held, hdeword, hline, hsix, Wbudeword.pending, Wbudeword.initial,
        Wbucompactlines.held, Wbucompactlines.initial, Wbusixchar.held, Wbusixchar.initial]
    rw [hheld]
    apply Framed.nil

variable {s : CharPath} {i : Input} {ws : List Codeword} {cs : List (BitVec 8)}

theorem lnBusy_eq (h : s.Inv ws cs) :
  s.lnBusy = s.linepacker.oStb
  := Wbucompactlines.oBusy_eq h.linepacker

/-- What `wbucompactlines` lets into the stream is what `wbudeword` sends, up to a newline
where no codeword is half sent. -/
theorem entered_pending (h : s.Inv ws cs) :
  ∃ nls, (nls = [] ∨ nls = [nlHexbits] ∧ s.deword.pending = [] ∧ ws ≠ []) ∧
    s.linepacker.entered (s.linepackerInput i) ++ (s.step i).deword.pending
      = nls ++ s.deword.pending ++ ((s.accepted i).flatMap groups).map hexbits
  := by
  have hpending := Wbudeword.step_pending (i := s.dewordInput i) h.deword
  cases hdeword : s.deword.oStb with
  | false =>
      have hi : (s.linepackerInput i).iStb = none := by simp [linepackerInput, hdeword]
      have hsent : s.deword.sent (s.dewordInput i) = [] := by simp [Wbudeword.sent, hdeword]
      rw [hsent] at hpending
      rcases Wbucompactlines.entered_of_none hi with hent | ⟨hent, hlast⟩
      · use []
        rw [hent]
        simpa [step, accepted] using hpending
      · use [nlHexbits]
        constructor
        · right
          refine ⟨rfl, Wbudeword.pending_of_oStb hdeword, ?_⟩
          intro hws
          simp [h.started hws] at hlast
        · rw [hent]
          simpa [step, accepted] using hpending
  | true =>
      have hi : (s.linepackerInput i).iStb = some s.deword.oNlHexbits := by
        simp [linepackerInput, hdeword]
      cases hline : s.linepacker.oStb with
      | true =>
          have hsent : s.deword.sent (s.dewordInput i) = [] := by
            simp [Wbudeword.sent, dewordInput, lnBusy_eq h, hline]
          rw [hsent] at hpending
          use []
          rw [Wbucompactlines.entered_of_oStb hline]
          simpa [step, accepted] using hpending
      | false =>
          have hsent : s.deword.sent (s.dewordInput i) = [s.deword.oNlHexbits] := by
            simp [Wbudeword.sent, dewordInput, lnBusy_eq h, hline, hdeword]
          have hws : ws ≠ [] := by
            intro hws
            simp [h.started hws] at hdeword
          rw [hsent] at hpending
          cases hnl : isNl s.deword.oNlHexbits with
          | false =>
              use []
              rcases Wbucompactlines.entered_of_some h.linepacker hline hi with hent | ⟨_, hnl'⟩
              · rw [hent]
                simpa [hnl, step, accepted] using hpending
              · rw [hnl] at hnl'
                cases hnl'
          | true =>
              have hlen := (h.deword.isNl_iff hdeword).mp hnl
              have heq := h.deword.nl_eq hdeword hlen
              rcases Wbucompactlines.entered_of_some h.linepacker hline hi with hent | ⟨hent, _⟩
              · use [nlHexbits]
                constructor
                · right
                  refine ⟨rfl, Wbudeword.pending_of_rLen hlen, hws⟩
                · rw [hent, heq]
                  simpa [hnl, step, accepted] using hpending
              · use []
                rw [hent]
                simpa [hnl, step, accepted] using hpending

/-- What leaves the path and what is still in it is what was in it and what came in, up to
a newline between codewords. -/
theorem step_framed (h : s.Inv ws cs) (hok : ¬ s.Reload i) :
  Framed chars newline (ws ++ s.accepted i) (cs ++ s.emitted i ++ (s.step i).held)
  := by
  have hsix : s.emitted i ++ (s.step i).mkbytes.held
      = s.mkbytes.held ++ (s.linepacker.sent (s.linepackerInput i)).map sixchar := by
    have hsent : s.mkbytes.entered (s.mkbytesInput i)
        = (s.linepacker.sent (s.linepackerInput i)).map sixchar := by
      cases hbusy : s.mkbytes.oBusy <;> cases hstb : s.linepacker.oStb <;>
        simp [Wbusixchar.entered, Wbucompactlines.sent, Wbucompactlines.held, mkbytesInput,
          linepackerInput, byteBusy, hbusy, hstb]
    rw [← hsent]
    apply Wbusixchar.step_held hok
  have hline := Wbucompactlines.step_held (i := s.linepackerInput i) h.linepacker
  obtain ⟨nls, hnls, hdeword⟩ := entered_pending (i := i) h
  have hheld : cs ++ s.emitted i ++ (s.step i).held
      = cs ++ s.mkbytes.held ++ s.linepacker.held.map sixchar ++ nls.map sixchar
        ++ s.deword.pending.map sixchar ++ (s.accepted i).flatMap chars := by
    calc cs ++ s.emitted i ++ (s.step i).held
      _ = cs ++ (s.emitted i ++ (s.step i).mkbytes.held)
            ++ (s.step i).linepacker.held.map sixchar
            ++ (s.step i).deword.pending.map sixchar := by simp [held]
      _ = cs ++ s.mkbytes.held
            ++ (s.linepacker.sent (s.linepackerInput i) ++ (s.step i).linepacker.held).map sixchar
            ++ (s.step i).deword.pending.map sixchar := by simp [hsix]
      _ = cs ++ s.mkbytes.held ++ s.linepacker.held.map sixchar
            ++ (s.linepacker.entered (s.linepackerInput i)
              ++ (s.step i).deword.pending).map sixchar := by
          rw [step, hline]
          simp
      _ = _ := by
          rw [hdeword]
          simp [flatMap_chars]
  rw [hheld]
  apply Framed.words
  have hframed := h.framed
  rcases hnls with rfl | ⟨rfl, hpending, hws⟩
  · simpa [held] using hframed
  · rw [held, hpending] at hframed
    rw [hpending]
    have := hframed.sep hws
    simpa using this

theorem step_inv (h : s.Inv ws cs) (hok : ¬ s.Reload i) :
  (s.step i).Inv (ws ++ s.accepted i) (cs ++ s.emitted i)
  := by
  constructor
  · apply Wbudeword.step_inv h.deword
  · apply Wbucompactlines.step_inv h.linepacker
  · intro hws
    obtain ⟨hws, haccepted⟩ := List.append_eq_nil_iff.mp hws
    obtain ⟨hdeword, hline, hlast⟩ := h.started hws
    have hi : i.cpStb = none := by
      simpa [accepted, Wbudeword.accepted, Wbudeword.oBusy, hdeword, dewordInput] using haccepted
    have hbusy : s.linepacker.oBusy = false := by
      rw [Wbucompactlines.oBusy_eq h.linepacker, hline]
    refine ⟨?_, ?_, ?_⟩
    · apply (Wbudeword.step_idle h.deword hdeword hi).1
    · simp [step, Wbucompactlines.step, hbusy, linepackerInput, hdeword, hlast]
    · simp [step, Wbucompactlines.step, hline, hlast]
  · intro hs hchar
    have hold := h.sentNl
    have hnl := sixchar_eq_newline s.linepacker.oNlHexbits
    simp only [Reload, Wbusixchar.Reload, mkbytesInput] at hok
    simp only [step, Wbusixchar.step, Wbusixchar.oBusy, mkbytesInput] at hs hchar
    simp only [step, Wbucompactlines.step, linepackerInput, byteBusy, Wbusixchar.oBusy]
    grind
  · apply step_framed h hok

/-! ### Progress -/

/-- How far the foremost character that is not a newline is from the transmitter. -/
def rank (s : CharPath) : ℕ :=
  if s.mkbytes.oStb ∧ s.mkbytes.oChar ≠ newline then 1
  else if s.linepacker.oStb then
    if isNl s.linepacker.oNlHexbits then 4 else 2
  else 3

theorem rank_pos (s : CharPath) :
  0 < s.rank
  := by
  unfold rank
  grind

theorem rank_le (s : CharPath) :
  s.rank ≤ 4
  := by
  unfold rank
  grind

/-- A character waiting for a busy transmitter, and what waits behind it, stay. -/
theorem step_of_busy (h : s.Inv ws cs) (hsix : s.mkbytes.oStb = true) (hi : i.iTxBusy = true) :
  (s.step i).mkbytes = s.mkbytes ∧ (s.linepacker.oStb = true →
    (s.step i).linepacker.oStb = true
      ∧ (s.step i).linepacker.oNlHexbits = s.linepacker.oNlHexbits)
  := by
  constructor
  · cases hs : s.mkbytes
    simp_all [step, Wbusixchar.step, Wbusixchar.oBusy, mkbytesInput]
  · intro hline
    simp [step, Wbucompactlines.step, Wbucompactlines.oBusy_eq h.linepacker, hline,
      linepackerInput, byteBusy, Wbusixchar.oBusy, hsix]

/-- What waits in `wbucompactlines` moves on as soon as it can. -/
theorem step_of_waiting (hsix : s.mkbytes.oStb = false) (hline : s.linepacker.oStb = true) :
  (s.step i).mkbytes.oStb = true
    ∧ (s.step i).mkbytes.oChar = sixchar s.linepacker.oNlHexbits
    ∧ (s.step i).linepacker.oStb = false
  := by
  simp [step, Wbusixchar.step, Wbusixchar.oBusy, Wbucompactlines.step, Wbucompactlines.oBusy,
    mkbytesInput, linepackerInput, byteBusy, hsix, hline]

/-- A group moves into an empty `wbucompactlines`. -/
theorem step_of_pending (h : s.Inv ws cs) (hline : s.linepacker.oStb = false)
    (hpending : s.deword.pending ≠ []) :
  (s.step i).linepacker.oStb = true ∧ isNl (s.step i).linepacker.oNlHexbits = false
  := by
  have hdeword : s.deword.oStb = true := by
    by_contra hs
    apply hpending
    apply Wbudeword.pending_of_oStb (by simpa using hs)
  have hlen : s.deword.rLen ≠ 0#3 := by
    intro hlen
    apply hpending
    apply Wbudeword.pending_of_rLen hlen
  have hnl : isNl s.deword.oNlHexbits = false := by
    simpa [hlen] using h.deword.isNl_iff hdeword
  simp [step, Wbucompactlines.step, Wbucompactlines.oBusy_eq h.linepacker, hline,
    linepackerInput, hdeword, hnl]

/-- A character that is not a newline and is in neither of the last two stages is in the
first one. -/
theorem pending_ne_nil (hheld : s.held.filter (· ≠ newline) ≠ [])
    (hsix : s.mkbytes.oStb = true → s.mkbytes.oChar = newline)
    (hline : s.linepacker.oStb = false) :
  s.deword.pending ≠ []
  := by
  intro hpending
  apply hheld
  cases hstb : s.mkbytes.oStb with
  | true =>
      simp [held, hpending, Wbusixchar.held, Wbucompactlines.held, hline, hstb, hsix hstb]
  | false => simp [held, hpending, Wbusixchar.held, Wbucompactlines.held, hline, hstb]

/-- As long as the path holds a character that is not a newline, one is sent, or the
foremost one moves, or it stays because the transmitter is busy. -/
theorem step_rank (h : s.Inv ws cs) (hok : ¬ s.Reload i)
    (hheld : s.held.filter (· ≠ newline) ≠ []) :
  (s.emitted i).filter (· ≠ newline) ≠ []
    ∨ (s.step i).rank < s.rank
    ∨ i.iTxBusy = true ∧ (s.step i).rank ≤ s.rank
  := by
  cases hsix : s.mkbytes.oStb with
  | true =>
      cases hi : i.iTxBusy with
      | true =>
          obtain ⟨hmk, hln⟩ := step_of_busy h hsix hi
          right
          right
          use rfl
          by_cases hempty : s.mkbytes.oChar = newline ∧ s.linepacker.oStb = false
          · obtain ⟨hchar, hline⟩ := hempty
            have hpending := pending_ne_nil hheld (fun _ => hchar) hline
            obtain ⟨hstb, hnl⟩ := step_of_pending (i := i) h hline hpending
            unfold rank
            grind
          · unfold rank
            grind
      | false =>
          have hline : s.linepacker.oStb = false := by
            by_contra hline
            apply hok
            exact ⟨hsix, hi, by simpa [mkbytesInput] using hline⟩
          by_cases hchar : s.mkbytes.oChar = newline
          · have hpending : s.deword.pending ≠ [] := by
              intro hpending
              apply hheld
              simp [held, hpending, Wbusixchar.held, Wbucompactlines.held, hsix, hline, hchar]
            obtain ⟨hstb, hnl⟩ := step_of_pending (i := i) h hline hpending
            right
            left
            unfold rank
            grind
          · left
            simp [emitted, Wbusixchar.emitted, Wbusixchar.held, mkbytesInput, hi, hsix, hchar]
  | false =>
      right
      left
      cases hline : s.linepacker.oStb with
      | true =>
          obtain ⟨hstb, hchar, hempty⟩ := step_of_waiting (i := i) hsix hline
          have hnl := sixchar_eq_newline s.linepacker.oNlHexbits
          unfold rank
          grind
      | false =>
          have hpending := pending_ne_nil hheld (by simp [hsix]) hline
          obtain ⟨hstb, hnl⟩ := step_of_pending (i := i) h hline hpending
          unfold rank
          grind

/-! ### Runs -/

variable {s₀ : CharPath} {inp : ℕ → Input}

/-- The codewords taken in before clock `n`. -/
def words (s₀ : CharPath) (inp : ℕ → Input) (n : ℕ) : List Codeword :=
  log (fun k => (run step s₀ inp k).accepted (inp k)) n

/-- The characters sent before clock `n`. -/
def sent (s₀ : CharPath) (inp : ℕ → Input) (n : ℕ) : List (BitVec 8) :=
  log (fun k => (run step s₀ inp k).emitted (inp k)) n

/-- What holds along a run up to the first clock at which a character is reloaded. -/
theorem run_inv (h₀ : s₀.Initial) {n : ℕ} (hok : ∀ k < n, ¬ (run step s₀ inp k).Reload (inp k)) :
  (run step s₀ inp n).Inv (words s₀ inp n) (sent s₀ inp n)
  := by
  induction n with
  | zero => apply initial_inv h₀
  | succ n ih =>
      apply step_inv (ih _) (hok n (Nat.lt_succ_self n))
      intro k hk
      apply hok k (Nat.lt_succ_of_lt hk)

theorem filter_inv (h : s.Inv ws cs) :
  cs.filter (· ≠ newline) ++ s.held.filter (· ≠ newline) = ws.flatMap chars
  := by
  rw [← List.filter_append]
  apply h.framed.filter newline_notMem_chars

/-- The transmitter is ready again and again. -/
def Fair (inp : ℕ → Input) : Prop := ∀ n, ∃ m, n ≤ m ∧ (inp m).iTxBusy = false

/-- What the character path is for: the characters sent are the codewords' characters,
framed by newlines; if the transmitter is ready again and again, every codeword taken in
is sent. -/
structure Delivered (s₀ : CharPath) (inp : ℕ → Input) : Prop where
  framed : ∀ n, ∃ cs, sent s₀ inp n <+: cs ∧ Framed chars newline (words s₀ inp n) cs
  exact : ∀ n, (sent s₀ inp n).filter (· ≠ newline) <+: (words s₀ inp n).flatMap chars
  complete : Fair inp →
    ∀ n, ∃ m, (words s₀ inp n).flatMap chars <+: (sent s₀ inp m).filter (· ≠ newline)

/-- The characters other than newlines sent by a given clock have grown by those sent at
the last one. -/
theorem length_filter_sent_succ (s₀ : CharPath) (inp : ℕ → Input) (n : ℕ) :
  ((sent s₀ inp (n + 1)).filter (· ≠ newline)).length
    = ((sent s₀ inp n).filter (· ≠ newline)).length
      + (((run step s₀ inp n).emitted (inp n)).filter (· ≠ newline)).length
  := by rw [sent, log_succ, List.filter_append, List.length_append, sent]

/-- How many characters of the codewords taken in before clock `n` have not been sent
before clock `m`. -/
def missing (s₀ : CharPath) (inp : ℕ → Input) (n m : ℕ) : ℕ :=
  ((words s₀ inp n).flatMap chars).length - ((sent s₀ inp m).filter (· ≠ newline)).length

theorem words_mono (s₀ : CharPath) (inp : ℕ → Input) {n m : ℕ} (h : n ≤ m) :
  (words s₀ inp n).flatMap chars <+: (words s₀ inp m).flatMap chars
  := by
  obtain ⟨l, hl⟩ := log_mono (fun k => (run step s₀ inp k).accepted (inp k)) h
  use l.flatMap chars
  rw [words, words, ← hl, List.flatMap_append]

/-- While characters are missing, one is sent or the foremost one moves on, unless the
transmitter is busy. -/
theorem missing_succ {n m : ℕ} (hinv : (run step s₀ inp m).Inv (words s₀ inp m) (sent s₀ inp m))
    (hok : ¬ (run step s₀ inp m).Reload (inp m)) (hm : n ≤ m) (hmissing : missing s₀ inp n m ≠ 0) :
  4 * missing s₀ inp n (m + 1) + (run step s₀ inp (m + 1)).rank
      < 4 * missing s₀ inp n m + (run step s₀ inp m).rank
    ∨ (inp m).iTxBusy = true
      ∧ 4 * missing s₀ inp n (m + 1) + (run step s₀ inp (m + 1)).rank
        ≤ 4 * missing s₀ inp n m + (run step s₀ inp m).rank
  := by
  have hlen := length_filter_sent_succ s₀ inp m
  have hheld : (run step s₀ inp m).held.filter (· ≠ newline) ≠ [] := by
    intro hheld
    apply hmissing
    have hall := filter_inv hinv
    rw [hheld, List.append_nil] at hall
    rw [missing, hall, Nat.sub_eq_zero_iff_le]
    apply (words_mono s₀ inp hm).length_le
  have hpos := rank_pos (run step s₀ inp m)
  have hle := rank_le (run step s₀ inp (m + 1))
  rw [missing] at hmissing
  rcases step_rank hinv hok hheld with hsent | hrank | ⟨hbusy, hrank⟩
  · left
    have := List.length_pos_iff.mpr hsent
    simp only [missing, hlen]
    omega
  · left
    simp only [missing, hlen, run_succ]
    omega
  · right
    use hbusy
    simp only [missing, hlen, run_succ]
    omega

/-- If no character is ever reloaded and the transmitter is ready again and again, the
characters of the codewords taken in get sent. -/
theorem complete_of_not_reload (h₀ : s₀.Initial)
    (hok : ∀ n, ¬ (run step s₀ inp n).Reload (inp n)) (hfair : Fair inp) (n : ℕ) :
  ∃ m, (words s₀ inp n).flatMap chars <+: (sent s₀ inp m).filter (· ≠ newline)
  := by
  have hinv := fun m => run_inv (n := m) h₀ (fun k _ => hok k)
  obtain ⟨m, hm, hgoal⟩ : ∃ m, n ≤ m ∧ missing s₀ inp n m = 0 := by
    apply eventually_of_fair_measure hfair
      fun m => 4 * missing s₀ inp n m + (run step s₀ inp m).rank
    · intro m hm hmissing
      have := missing_succ (hinv m) (hok m) hm hmissing
      omega
    · intro m hm hmissing hready
      rcases missing_succ (hinv m) (hok m) hm hmissing with hdrop | ⟨hbusy, _⟩
      · apply hdrop
      · rw [hready] at hbusy
        cases hbusy
  use m
  apply List.prefix_of_prefix_length_le (words_mono s₀ inp hm)
  · rw [← filter_inv (hinv m)]
    apply List.prefix_append
  · rwa [missing, Nat.sub_eq_zero_iff_le] at hgoal

/-- If no character is ever reloaded, the path delivers. -/
theorem delivered_of_not_reload (h₀ : s₀.Initial)
    (hok : ∀ n, ¬ (run step s₀ inp n).Reload (inp n)) :
  Delivered s₀ inp
  := by
  have hinv := fun n => run_inv (n := n) h₀ (fun k _ => hok k)
  constructor
  · intro n
    use sent s₀ inp n ++ (run step s₀ inp n).held
    constructor
    · apply List.prefix_append
    · apply (hinv n).framed
  · intro n
    rw [← filter_inv (hinv n)]
    apply List.prefix_append
  · intro hfair n
    apply complete_of_not_reload h₀ hok hfair

/-! ### After a reload -/

/-- Once a character has been reloaded, it and the one waiting behind it stay for ever. -/
theorem jammed {n : ℕ} (hsix : (run step s₀ inp n).mkbytes.oStb = true)
    (hline : (run step s₀ inp n).linepacker.oStb = true) (k : ℕ) :
  (run step s₀ inp (n + k)).mkbytes = (run step s₀ inp n).mkbytes
    ∧ (run step s₀ inp (n + k)).linepacker.oStb = true
  := by
  induction k with
  | zero => exact ⟨rfl, hline⟩
  | succ k ih =>
      obtain ⟨hmk, hln⟩ := ih
      rw [← Nat.add_assoc, run_succ]
      constructor
      · rw [← hmk] at hsix ⊢
        apply Wbusixchar.step_of_reload hsix hln
      · simp [step, Wbucompactlines.step, Wbucompactlines.oBusy, hln, linepackerInput, byteBusy,
          Wbusixchar.oBusy, hmk, hsix]

/-- From then on the character reloaded is sent whenever the transmitter is ready. -/
theorem sent_of_jammed {n : ℕ} (hsix : (run step s₀ inp n).mkbytes.oStb = true)
    (hline : (run step s₀ inp n).linepacker.oStb = true) (k : ℕ) :
  ∃ j, sent s₀ inp (n + k)
    = sent s₀ inp n ++ List.replicate j (run step s₀ inp n).mkbytes.oChar
  := by
  induction k with
  | zero =>
      use 0
      simp
  | succ k ih =>
      obtain ⟨j, hj⟩ := ih
      obtain ⟨hmk, -⟩ := jammed hsix hline k
      cases hi : (inp (n + k)).iTxBusy with
      | true =>
          use j
          simp_all [← Nat.add_assoc, sent, log_succ, emitted, Wbusixchar.emitted, mkbytesInput]
      | false =>
          use j + 1
          rw [← Nat.add_assoc, sent, log_succ, ← sent, hj, List.replicate_succ', emitted,
            Wbusixchar.emitted, Wbusixchar.held, hmk]
          simp [mkbytesInput, hi, hsix]

/-- A transmitter that is ready again and again is sent as many characters as one likes. -/
theorem sent_unbounded {n : ℕ} (hsix : (run step s₀ inp n).mkbytes.oStb = true)
    (hline : (run step s₀ inp n).linepacker.oStb = true) (hfair : Fair inp) (l : ℕ) :
  ∃ k, l ≤ (sent s₀ inp (n + k)).length
  := by
  induction l with
  | zero =>
      use 0
      apply Nat.zero_le
  | succ l ih =>
      obtain ⟨k, hk⟩ := ih
      obtain ⟨m, hm, hready⟩ := hfair (n + k)
      obtain ⟨k', rfl⟩ : ∃ k', m = n + k' := ⟨m - n, by omega⟩
      obtain ⟨hmk, -⟩ := jammed hsix hline k'
      use k' + 1
      have hmono := (log_mono (fun j => (run step s₀ inp j).emitted (inp j)) hm).length_le
      have hlast : (sent s₀ inp (n + (k' + 1))).length = (sent s₀ inp (n + k')).length + 1 := by
        rw [← Nat.add_assoc, sent, log_succ, List.length_append, ← sent, emitted,
          Wbusixchar.emitted, Wbusixchar.held, hmk]
        simp [mkbytesInput, hready, hsix]
      simp only [sent] at *
      omega

/-- Behind a reloaded character at most one more codeword is taken in. -/
theorem words_of_jammed {n : ℕ} (hsix : (run step s₀ inp n).mkbytes.oStb = true)
    (hline : (run step s₀ inp n).linepacker.oStb = true) (k : ℕ) :
  (words s₀ inp (n + k)).length + (if (run step s₀ inp (n + k)).deword.oStb then 0 else 1)
    ≤ (words s₀ inp n).length + 1
  := by
  induction k with
  | zero =>
      simp only [Nat.add_zero]
      split <;> omega
  | succ k ih =>
      obtain ⟨-, hln⟩ := jammed hsix hline k
      have hword : (words s₀ inp (n + (k + 1))).length = (words s₀ inp (n + k)).length
          + ((run step s₀ inp (n + k)).accepted (inp (n + k))).length := by
        rw [← Nat.add_assoc, words, log_succ, List.length_append, words]
      rw [hword, ← Nat.add_assoc, run_succ]
      have hbusy : ((run step s₀ inp (n + k)).dewordInput (inp (n + k))).iTxBusy = true := by
        simp [dewordInput, lnBusy, Wbucompactlines.oBusy, hln]
      cases hs : (run step s₀ inp (n + k)).deword.oStb with
      | true =>
          rw [accepted, Wbudeword.accepted_of_oStb hs, step, Wbudeword.step_held hs hbusy]
          simpa [hs] using ih
      | false =>
          cases hi : (inp (n + k)).cpStb with
          | none =>
              simp only [hs, Bool.false_eq_true, if_false] at ih
              simp [accepted, Wbudeword.accepted, Wbudeword.oBusy, hs, dewordInput, hi]
              split <;> omega
          | some w =>
              rw [step, Wbudeword.step_load (w := w) hs (by simp [dewordInput, hi])]
              simp [accepted, Wbudeword.accepted, Wbudeword.oBusy, hs, dewordInput, hi]
              simpa [hs] using ih

theorem length_chars_le (l : List Codeword) :
  (l.flatMap chars).length ≤ 6 * l.length
  := by
  induction l with
  | nil => simp
  | cons w l ih =>
      have : (chars w).length ≤ 6 := by
        rw [chars, List.length_map, groups, List.length_take]
        apply Nat.min_le_right
      rw [List.flatMap_cons, List.length_append, List.length_cons]
      omega

/-- If the transmitter is ready again and again, a reload breaks the delivery. -/
theorem not_delivered_of_reload (h₀ : s₀.Initial) (hfair : Fair inp) {n : ℕ}
    (hreload : (run step s₀ inp n).Reload (inp n))
    (hfirst : ∀ k < n, ¬ (run step s₀ inp k).Reload (inp k)) :
  ¬ Delivered s₀ inp
  := by
  intro hdelivered
  have hinv := run_inv h₀ hfirst
  obtain ⟨hsix, -, hline⟩ := hreload
  have hline : (run step s₀ inp n).linepacker.oStb = true := hline
  by_cases hchar : (run step s₀ inp n).mkbytes.oChar = newline
  · -- only newlines are sent from now on, and the character behind them never is
    have hnl := hinv.linepacker.notNl (hinv.sentNl hsix hchar) hline
    have hmissing : ((run step s₀ inp n).held.filter (· ≠ newline)).length ≠ 0 := by
      have : sixchar (run step s₀ inp n).linepacker.oNlHexbits ≠ newline := by
        rw [ne_eq, sixchar_eq_newline, hnl]
        simp
      simp [held, Wbucompactlines.held, hline, this, List.filter_append]
    have hall := congrArg List.length (filter_inv hinv)
    obtain ⟨m, hm⟩ := hdelivered.complete hfair n
    have hsilent : ((sent s₀ inp m).filter (· ≠ newline)).length
        ≤ ((sent s₀ inp n).filter (· ≠ newline)).length := by
      rcases Nat.le_total m n with hmn | hmn
      · apply ((log_mono _ hmn).filter _).length_le
      · obtain ⟨k, rfl⟩ := Nat.exists_eq_add_of_le hmn
        obtain ⟨j, hj⟩ := sent_of_jammed hsix hline k
        rw [hj, List.filter_append, List.filter_replicate, if_neg (by simpa using hchar),
          List.append_nil]
    have := hm.length_le
    rw [List.length_append] at hall
    omega
  · -- the character is sent more often than the codewords taken in can hold it
    obtain ⟨k, hk⟩ := sent_unbounded hsix hline hfair
      ((sent s₀ inp n).length + 6 * ((words s₀ inp n).length + 1) + 1)
    obtain ⟨j, hj⟩ := sent_of_jammed hsix hline k
    have hexact := (hdelivered.exact (n + k)).length_le
    have hwords := words_of_jammed hsix hline k
    have hchars := length_chars_le (words s₀ inp (n + k))
    rw [hj, List.length_append, List.length_replicate] at hk
    rw [hj, List.filter_append, List.filter_replicate, if_pos (by simpa using hchar),
      List.length_append, List.length_replicate] at hexact
    omega

/-- The path delivers if the transmitter never takes a character while the next one waits
in `wbucompactlines`; and, for a transmitter that is ready again and again, only then. -/
theorem delivered_iff (h₀ : s₀.Initial) :
  ((∀ n, ¬ (run step s₀ inp n).Reload (inp n)) → Delivered s₀ inp)
    ∧ (Fair inp → (Delivered s₀ inp ↔ ∀ n, ¬ (run step s₀ inp n).Reload (inp n)))
  := by
  have hsufficient : (∀ n, ¬ (run step s₀ inp n).Reload (inp n)) → Delivered s₀ inp :=
    delivered_of_not_reload h₀
  refine ⟨hsufficient, fun hfair => ⟨?_, hsufficient⟩⟩
  intro hdelivered
  by_contra hreload
  push Not at hreload
  classical
  apply not_delivered_of_reload h₀ hfair (Nat.find_spec hreload) _ hdelivered
  intro k hk
  apply Nat.find_min hreload hk

/-- A transmitter that is always ready never makes the path reload a character. -/
theorem not_reload_of_ready (h₀ : s₀.Initial) (hready : ∀ n, (inp n).iTxBusy = false) (n : ℕ) :
  ¬ (run step s₀ inp n).Reload (inp n)
  := by
  have halone : ¬ ((run step s₀ inp n).mkbytes.oStb = true
      ∧ (run step s₀ inp n).linepacker.oStb = true) := by
    induction n with
    | zero =>
        obtain ⟨-, -, hsix⟩ := h₀
        simp [hsix, Wbusixchar.initial]
    | succ n ih =>
        rw [run_succ]
        simp only [step, Wbusixchar.step, Wbucompactlines.step, Wbucompactlines.oBusy,
          mkbytesInput, linepackerInput, byteBusy, Wbusixchar.oBusy, hready]
        grind
  rintro ⟨hsix, -, hline⟩
  apply halone ⟨hsix, hline⟩

/-- The path at power up. -/
def powerUp : CharPath where
  deword := Wbudeword.initial 0
  linepacker := Wbucompactlines.initial 0
  mkbytes := Wbusixchar.initial

theorem powerUp_initial :
  powerUp.Initial
  := ⟨⟨0, rfl⟩, ⟨0, rfl⟩, rfl⟩

/-- A single codeword, of the data `0x12345678`, and a transmitter that is busy at the
clocks `busy`. -/
def oneWord (busy : ℕ → Bool) (n : ℕ) : Input where
  cpStb := if n = 0 then some 0xe48d159e2 else none
  busBusy := true
  iTxBusy := busy n

theorem delivered_iff_oneWord :
  Delivered powerUp (oneWord fun _ => false)
  := by
  apply (delivered_iff powerUp_initial).1
  apply not_reload_of_ready powerUp_initial
  intro n
  rfl

/-- A transmitter that is busy for the first five clocks is sent the first character of the
codeword twice. -/
theorem oneWord_not_delivered :
  Fair (oneWord fun n => n < 5) ∧ ¬ Delivered powerUp (oneWord fun n => n < 5)
  := by
  constructor
  · intro n
    use n + 5, Nat.le_add_right n 5
    simp [oneWord]
  · intro h
    have hexact := h.exact 7
    revert hexact
    decide

end CharPath

end ZBasic
