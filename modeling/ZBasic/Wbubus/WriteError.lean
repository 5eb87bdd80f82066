import ZBasic.Wbubus.DebugBus

/-!
# After a write error

A bus error takes the executor into the state in which it drops the rest of the vector. It
is busy there, so as wired in `wbuconsole` it is never shown the rest. `recovered_iff` says
when it gets out nevertheless: when the watchdog runs out at the clock of the error, and
resets it.
-/

namespace ZBasic

open Clocked

namespace DebugBus

variable {lgfifo lgwatchdog : ℕ}

/-! ### What recovery is -/

/-- The response codeword of a bus error. -/
def isBusError (w : Codeword) : Bool := w.extractLsb' 30 6 = 5#6

/-- The executor is idle and ready for the next codeword. -/
structure Ready (s : DebugBus lgfifo lgwatchdog) : Prop where
  fifo : s.padififo.Inv
  noReset : s.rWdtReset = false
  wbState : s.runwb.wbState = .idle
  oWbCyc : s.runwb.oWbCyc = false
  oWbStb : s.runwb.oWbStb = false
  oBusy : s.runwb.oBusy = false

/-- The codewords offered to the FIFO. -/
def offered (inp : ℕ → Input) : ℕ → List Codeword := log fun k => (inp k).inStb.toList

/-- The codewords that were in the FIFO at first, and those offered to it. -/
def supplied (s₀ : DebugBus lgfifo lgwatchdog) (inp : ℕ → Input) (n : ℕ) : List Codeword :=
  s₀.padififo.contents ++ offered inp n

/-- The first codewords supplied are a vector of writes and its end. -/
structure WriteVector (s₀ : DebugBus lgfifo lgwatchdog) (inp : ℕ → Input) (ws : List Codeword)
    (eow : Codeword) : Prop where
  nonempty : ws ≠ []
  writes : ∀ w ∈ ws, w.isWrite = true
  ends : eow.isEndOfWrite = true
  supplied : ∃ q, s₀.supplied inp q = ws ++ [eow]

/-- At clock `d` the bus answers with an error for the first time, the watchdog not having
fired before. -/
structure FirstError (s₀ : DebugBus lgfifo lgwatchdog) (inp : ℕ → Input) (d : ℕ) : Prop where
  oWbCyc : (run step s₀ inp d).runwb.oWbCyc = true
  iWbErr : (inp d).iWbErr = true
  before : ∀ k < d, (run step s₀ inp k).runwb.oWbCyc = true → (inp k).iWbErr = false
  noReset : ∀ k ≤ d, (run step s₀ inp k).rWdtReset = false

/-- At clock `t` the command path has recovered from the error at clock `d` in the vector
`vec`: it is idle and ready for the next command, it has dropped the vector to its end and
nothing else, it has reported one error, it has put no write on the bus since, and
acknowledgments have changed nothing. -/
structure Recovered (s₀ : DebugBus lgfifo lgwatchdog) (inp : ℕ → Input) (vec : List Codeword)
    (d t : ℕ) : Prop where
  later : d < t
  wbState : (run step s₀ inp t).runwb.wbState = .idle
  oBusy : (run step s₀ inp t).runwb.oBusy = false
  dropped : s₀.supplied inp t = vec ++ (run step s₀ inp t).padififo.contents
  oneError : ((log (fun k => (run step s₀ inp (k + 1)).responded) t).filter isBusError).length = 1
  noWrite : ∀ k, d < k → k ≤ t → (run step s₀ inp k).runwb.oWbStb = false
  noEffect : ∀ k, d < k → k < t → ∀ ack,
    (run step s₀ inp k).step { inp k with iWbAck := ack } = run step s₀ inp (k + 1)

/-! ### Reports of errors -/

variable {s : DebugBus lgfifo lgwatchdog} {i : Input}

theorem isBusError_nextCodword (s : Wbuexec) (i : Wbuexec.Input) :
  isBusError (s.nextCodword i) = (!i.iReset && s.oWbCyc && i.iWbErr)
  := by
  have hfour : ∀ w : Codeword, w.extractLsb' 32 4 = 2#4 → isBusError w = false := by
    intro w hw
    have hfield := extract_extract w (a := 30) (b := 2) (m := 4) (n := 6) (by decide)
    rw [hw] at hfield
    simp only [isBusError, decide_eq_false_iff_not]
    intro h
    rw [h] at hfield
    revert hfield
    decide
  have hthree : ∀ w : Codeword, w.extractLsb' 33 3 = 7#3 → isBusError w = false := by
    intro w hw
    have hfield := extract_extract w (a := 30) (b := 3) (m := 3) (n := 6) (by decide)
    rw [hw] at hfield
    simp only [isBusError, decide_eq_false_iff_not]
    intro h
    rw [h] at hfield
    revert hfield
    decide
  have hsix : ∀ (c : BitVec 6) (data : BitVec 30), isBusError (c ++ data) = decide (c = 5#6) := by
    intro c data
    rw [isBusError, extract_append_high _ _ (by decide), extract_all]
  cases hreset : i.iReset with
  | true => simp [Wbuexec.nextCodword, hreset, hsix]
  | false =>
      cases hcyc : s.oWbCyc with
      | false =>
          simp only [Wbuexec.nextCodword, hreset, hcyc, Bool.not_false]
          apply hfour
          apply extract_append_high _ _ (by decide)
      | true =>
          cases herr : i.iWbErr with
          | true => simp [Wbuexec.nextCodword, hreset, hcyc, herr, hsix]
          | false =>
              cases hwe : s.oWbWe with
              | true => simp [Wbuexec.nextCodword, hreset, hcyc, herr, hwe, hsix]
              | false =>
                  simp only [Wbuexec.nextCodword, hreset, hcyc, herr, hwe, Bool.not_true,
                    Bool.false_eq_true, if_false]
                  apply hthree
                  simp (disch := decide) only [extract_append_high]
                  rfl

/-- An error is reported after a clock at which the bus answers with one. -/
theorem filter_responded_step :
  (s.step i).responded.filter isBusError
    = if !s.rWdtReset && s.runwb.oWbCyc && i.iWbErr then [(s.step i).runwb.oCodword] else []
  := by
  have hword : isBusError (s.step i).runwb.oCodword
      = (!s.rWdtReset && s.runwb.oWbCyc && i.iWbErr) := isBusError_nextCodword _ _
  cases herr : !s.rWdtReset && s.runwb.oWbCyc && i.iWbErr with
  | true =>
      have hstb : (s.step i).runwb.oStb = true := by
        simp only [Bool.and_eq_true, Bool.not_eq_true'] at herr
        simp [step, Wbuexec.step, execInput, herr]
      rw [herr] at hword
      simp [responded, hstb, hword]
  | false =>
      rw [herr] at hword
      cases hstb : (s.step i).runwb.oStb <;> simp [responded, hstb, hword]

/-! ### The command path between vectors -/

/-- The command path but for the response it shows. -/
def silence (s : DebugBus lgfifo lgwatchdog) : DebugBus lgfifo lgwatchdog :=
  { s with runwb := { s.runwb with oStb := false } }

theorem step_silence (s : DebugBus lgfifo lgwatchdog) (i : Input) :
  s.silence.step i = s.step i
  := rfl

theorem Quiet.silence (h : s.Quiet) :
  s.silence.Quiet
  := by
  constructor
  · apply h.fifo
  · apply h.fill_le
  · apply h.noReset
  · apply h.wbState
  · apply h.oWbCyc
  · apply h.oWbStb
  · apply h.oBusy
  · rfl

/-- Nothing is going on and nothing is queued. -/
structure AtRest (s : DebugBus lgfifo lgwatchdog) : Prop where
  quiet : s.silence.Quiet
  contents : s.padififo.contents = []

/-- A ready command path is quiet, or shows the executor a codeword. -/
theorem Ready.quiet_or_shows (h : s.Ready) :
  s.silence.Quiet ∨ s.fifoInStb = true
  := by
  cases hshown : s.padififo.oEmptyN with
  | true =>
      right
      simp [fifoInStb, h.oBusy, hshown]
  | false =>
      left
      constructor
      · apply h.fifo
      · by_contra hfill
        have hshown' := h.fifo.shown_of_fill (Nat.lt_of_not_le hfill)
        rw [hshown] at hshown'
        cases hshown'
      · apply h.noReset
      · apply h.wbState
      · apply h.oWbCyc
      · apply h.oWbStb
      · apply h.oBusy
      · rfl

/-! ### Until the error -/

/-- The executor waits for the next codeword of the vector, its request on the bus. -/
structure Writing (s : DebugBus lgfifo lgwatchdog) : Prop where
  wbState : s.runwb.wbState = .writeRequest
  oBusy : s.runwb.oBusy = true
  oWbCyc : s.runwb.oWbCyc = true

theorem step_writing (hreset : s.rWdtReset = false) (hidle : s.runwb.wbState = .idle)
    (hstb : s.fifoInStb = true) (hw : s.padififo.oData.isWrite = true) :
  (s.step i).Writing
  := by
  constructor <;>
    simp [DebugBus.step, Wbuexec.step, Wbuexec.fsm, execInput, hreset, hidle, hstb, hw]

theorem Writing.step (h : s.Writing) (hreset : s.rWdtReset = false) (herr : i.iWbErr = false) :
  (s.step i).Writing
  := by
  have hstb : s.fifoInStb = false := by simp [fifoInStb, h.oBusy]
  constructor <;>
    simp [DebugBus.step, Wbuexec.step, Wbuexec.fsm, execInput, hreset, h.wbState, hstb, herr]

/-- A quiet command path holds what it held and what is offered, less what it shows. -/
theorem Quiet.contents_step (h : s.Quiet) (hlg : 2 ≤ lgfifo) :
  s.padififo.shown ++ (s.step i).padififo.contents = s.padififo.contents ++ i.inStb.toList
  := by
  have hstep := Wbufifo.step_contents h.fifo (i := s.fifoInput i) h.noReset
  have hpopped : s.padififo.popped (s.fifoInput i) = s.padififo.shown := by
    simp only [Wbufifo.popped, Wbufifo.shown, fifoInput, h.fifoInStb_eq]
    grind
  have hpushed : s.padififo.accepted (s.fifoInput i) = i.inStb.toList := h.pushed_eq hlg i
  rw [hpopped, hpushed] at hstep
  apply hstep

theorem shown_of_fifoInStb (h : s.fifoInStb = true) :
  s.padififo.shown = [s.padififo.oData]
  := by
  simp only [fifoInStb, Bool.and_eq_true] at h
  simp [Wbufifo.shown, h.2]

theorem Quiet.shown_eq_nil (h : s.Quiet) (hstb : s.fifoInStb = false) :
  s.padififo.shown = []
  := by
  rw [h.fifoInStb_eq] at hstb
  simp [Wbufifo.shown, hstb]

section Runs

variable {s₀ : DebugBus lgfifo lgwatchdog} {inp : ℕ → Input} {ws : List Codeword}
  {eow : Codeword} {d m n : ℕ}

theorem offered_succ (inp : ℕ → Input) (n : ℕ) :
  offered inp (n + 1) = offered inp n ++ (inp n).inStb.toList
  := rfl

theorem offered_mono (inp : ℕ → Input) {m n : ℕ} (h : m ≤ n) :
  ∃ more, offered inp m ++ more = offered inp n
  := log_mono (fun k => (inp k).inStb.toList) h

/-- Where nothing is added, nothing is offered in between. -/
theorem inStb_of_offered_eq {k : ℕ} (h : offered inp n = offered inp m) (hmk : m ≤ k)
    (hkn : k < n) :
  (inp k).inStb = none
  := by
  obtain ⟨before, hbefore⟩ := offered_mono inp hmk
  obtain ⟨after, hafter⟩ := offered_mono inp (Nat.succ_le_of_lt hkn)
  have hlen := congrArg List.length hafter
  rw [Nat.succ_eq_add_one, offered_succ, h, ← hbefore] at hlen
  cases hi : (inp k).inStb with
  | none => rfl
  | some w =>
      rw [hi] at hlen
      simp at hlen

/-- The first codeword supplied is a write. -/
theorem WriteVector.first (h : WriteVector s₀ inp ws eow) {n : ℕ} {w : Codeword}
    {rest : List Codeword} (hn : s₀.supplied inp n = w :: rest) :
  w.isWrite = true
  := by
  obtain ⟨q, hq⟩ := h.supplied
  obtain ⟨w', ws', rfl⟩ := List.exists_cons_of_ne_nil h.nonempty
  have hhead : w = w' := by
    rcases Nat.le_total n q with hle | hle
    · obtain ⟨more, hmore⟩ := offered_mono inp hle
      rw [DebugBus.supplied, ← hmore, ← List.append_assoc] at hq
      rw [DebugBus.supplied] at hn
      rw [hn] at hq
      apply (List.cons.inj hq).1
    · obtain ⟨more, hmore⟩ := offered_mono inp hle
      rw [DebugBus.supplied, ← hmore, ← List.append_assoc] at hn
      rw [DebugBus.supplied] at hq
      rw [hq] at hn
      apply (List.cons.inj hn).1.symm
  rw [hhead]
  apply h.writes w' List.mem_cons_self

/-- From the first write on the executor waits, until the error. -/
theorem writing_run (herr : FirstError s₀ inp d) (hmn : m ≤ n) (hn : n ≤ d)
    (h : (run step s₀ inp m).Writing) :
  (run step s₀ inp n).Writing
  := by
  induction n, hmn using Nat.le_induction with
  | base => apply h
  | succ n hmn ih =>
      have hwriting := ih (by omega)
      apply hwriting.step (herr.noReset n (by omega))
      apply herr.before n (by omega) hwriting.oWbCyc

/-- Until the first write is shown the command path is quiet. -/
theorem quiet_or_writing (h₀ : s₀.silence.Quiet) (hlg : 2 ≤ lgfifo)
    (hvec : WriteVector s₀ inp ws eow) (herr : FirstError s₀ inp d) {n : ℕ} (hn : n ≤ d) :
  (run step s₀ inp n).Writing
    ∨ (run step s₀ inp n).silence.Quiet
      ∧ (run step s₀ inp n).padififo.contents = s₀.supplied inp n
  := by
  induction n with
  | zero =>
      right
      use h₀
      rw [supplied, offered, log_zero, List.append_nil]
      rfl
  | succ n ih =>
      rcases ih (by omega) with hwriting | ⟨hquiet, hcontents⟩
      · left
        apply writing_run herr (Nat.le_succ n) hn hwriting
      · have hstep := hquiet.contents_step (i := inp n) hlg
        cases hstb : (run step s₀ inp n).fifoInStb with
        | true =>
            left
            have hreset : (run step s₀ inp n).rWdtReset = false := hquiet.noReset
            apply step_writing hreset hquiet.wbState hstb
            apply hvec.first (n := n)
            rw [← hcontents, Wbufifo.contents, shown_of_fifoInStb hstb, List.singleton_append]
        | false =>
            right
            constructor
            · have hquiet' : (run step s₀ inp (n + 1)).Quiet := by
                apply hquiet.step hlg
                intro hyes
                change (run step s₀ inp n).fifoInStb = true at hyes
                rw [hstb] at hyes
                cases hyes
              apply hquiet'.silence
            · rw [hquiet.shown_eq_nil hstb, List.nil_append] at hstep
              rw [supplied, offered_succ, ← List.append_assoc]
              change _ = (run step s₀ inp n).padififo.contents ++ _ at hstep
              rw [hcontents] at hstep
              apply hstep

theorem writing_at_error (h₀ : s₀.Ready) (hlg : 2 ≤ lgfifo) (hvec : WriteVector s₀ inp ws eow)
    (herr : FirstError s₀ inp d) :
  (run step s₀ inp d).Writing
  := by
  rcases h₀.quiet_or_shows with hquiet | hstb
  · rcases quiet_or_writing hquiet hlg hvec herr (Nat.le_refl d) with hwriting | ⟨hquiet', -⟩
    · apply hwriting
    · have hcyc := herr.oWbCyc
      have hno : (run step s₀ inp d).runwb.oWbCyc = false := hquiet'.oWbCyc
      rw [hno] at hcyc
      cases hcyc
  · have hpos : 1 ≤ d := by
      by_contra hzero
      have hcyc := herr.oWbCyc
      obtain rfl : d = 0 := by omega
      rw [run_zero, h₀.oWbCyc] at hcyc
      cases hcyc
    apply writing_run herr hpos (Nat.le_refl d)
    apply step_writing h₀.noReset h₀.wbState hstb
    apply hvec.first (n := 0)
    rw [supplied, offered, log_zero, List.append_nil, Wbufifo.contents, shown_of_fifoInStb hstb,
      List.singleton_append]

end Runs

/-! ### Dropping the vector -/

/-- The executor waits for the end of the vector. -/
structure Flushing (s : DebugBus lgfifo lgwatchdog) : Prop where
  wbState : s.runwb.wbState = .flushWriteRequests
  oBusy : s.runwb.oBusy = true
  oWbCyc : s.runwb.oWbCyc = false
  oWbStb : s.runwb.oWbStb = false

theorem Writing.step_error (h : s.Writing) (hreset : s.rWdtReset = false)
    (herr : i.iWbErr = true) :
  (s.step i).Flushing
  := by
  constructor <;>
    simp [DebugBus.step, Wbuexec.step, Wbuexec.fsm, execInput, hreset, h.wbState, herr]

/-- Without a reset it waits for ever. -/
theorem Flushing.step (h : s.Flushing) (hreset : s.rWdtReset = false) :
  (s.step i).Flushing ∧ (s.step i).rWdtReset = false
  := by
  have hstb : s.fifoInStb = false := by simp [fifoInStb, h.oBusy]
  constructor
  · constructor <;>
      simp [DebugBus.step, Wbuexec.step, Wbuexec.fsm, execInput, hreset, h.wbState, hstb]
  · simp [DebugBus.step, h.oWbCyc]

/-- A reset brings it back to rest. -/
theorem Flushing.step_reset (h : s.Flushing) (hreset : s.rWdtReset = true) :
  (s.step i).AtRest
  := by
  have hfifo : (s.fifoInput i).iReset = true := hreset
  constructor
  · constructor
    · apply Wbufifo.step_inv_of_reset hfifo
    · have hfill : (s.step i).silence.padififo.fill = 0 := Wbufifo.fill_step_of_reset hfifo
      rw [hfill]
      apply Nat.zero_le
    · simp [silence, DebugBus.step, h.oWbCyc]
    · simp [silence, DebugBus.step, Wbuexec.step, execInput, hreset]
    · simp [silence, DebugBus.step, Wbuexec.step, execInput, hreset]
    · simp [silence, DebugBus.step, Wbuexec.step, execInput, hreset]
    · simp [silence, DebugBus.step, Wbuexec.step, execInput, hreset]
    · rfl
  · apply Wbufifo.contents_step_of_reset hfifo

/-! ### At rest again -/

/-- A quiet command path stays quiet and shows no write, as long as nothing is put on the
bus. -/
theorem Quiet.step_of_noStb (h : s.Quiet) (hlg : 2 ≤ lgfifo)
    (hno : (s.step i).runwb.oWbStb = false) :
  (s.step i).Quiet ∧ ∀ w ∈ s.padififo.shown, w.isWrite = false
  := by
  have hnot : s.fifoInStb = true →
      s.padififo.oData.isWrite = false ∧ s.padififo.oData.isRead = false := by
    intro hstb
    rw [← Bool.or_eq_false_iff]
    by_contra hgo
    have hgo' : (s.padififo.oData.isWrite || s.padififo.oData.isRead) = true :=
      Bool.of_not_eq_false hgo
    simp [DebugBus.step, Wbuexec.step, Wbuexec.fsm, execInput, h.noReset, h.wbState, hstb,
      hgo'] at hno
  constructor
  · apply h.step hlg hnot
  · intro w hw
    cases hstb : s.fifoInStb with
    | true =>
        rw [shown_of_fifoInStb hstb] at hw
        rw [List.mem_singleton.mp hw]
        apply (hnot hstb).1
    | false =>
        rw [h.shown_eq_nil hstb] at hw
        cases hw

theorem isWrite_of_isEndOfWrite {w : Codeword} (h : w.isEndOfWrite = true) :
  w.isWrite = false
  := by
  simp only [Codeword.isEndOfWrite, beq_iff_eq] at h
  have hfield := extract_extract w (a := 30) (b := 4) (m := 2) (n := 6) (by decide)
  simp [Codeword.isWrite, ← hfield, h]

/-- What is left of a list of writes and its end without writes is its end, or nothing. -/
theorem append_eq_vector {ws as ps : List Codeword} {eow : Codeword}
    (hws : ∀ w ∈ ws, w.isWrite = true) (hps : ∀ w ∈ ps, w.isWrite = false)
    (h : as ++ ps = ws ++ [eow]) :
  as = ws ∨ as = ws ++ [eow]
  := by
  rcases List.eq_nil_or_concat ps with rfl | ⟨ps', p, rfl⟩
  · right
    simpa using h
  · left
    rw [List.concat_eq_append] at hps h
    rw [← List.append_assoc] at h
    obtain ⟨h, -⟩ := List.append_inj' h rfl
    have hnil : ps' = [] := by
      rw [List.eq_nil_iff_forall_not_mem]
      intro w hw
      have hwrite := hws w (by rw [← h]; apply List.mem_append_right _ hw)
      rw [hps w (List.mem_append_left _ hw)] at hwrite
      cases hwrite
    simpa [hnil] using h

section Runs

variable {s₀ : DebugBus lgfifo lgwatchdog} {inp : ℕ → Input} {ws : List Codeword}
  {eow : Codeword} {d t m n : ℕ}

/-- From rest on, as long as nothing is put on the bus, the command path holds what is
offered, less what it has shown, among which there is no write. -/
theorem rest_run (hrest : (run step s₀ inp m).AtRest) (hlg : 2 ≤ lgfifo)
    (hno : ∀ k, m < k → k ≤ t → (run step s₀ inp k).runwb.oWbStb = false) (hmn : m ≤ n)
    (hnt : n ≤ t) :
  (run step s₀ inp n).silence.Quiet
    ∧ ∃ ps, (∀ w ∈ ps, w.isWrite = false)
      ∧ offered inp n = offered inp m ++ ps ++ (run step s₀ inp n).padififo.contents
  := by
  induction n, hmn using Nat.le_induction with
  | base =>
      use hrest.quiet, []
      have hempty : (run step s₀ inp m).padififo.contents = [] := hrest.contents
      simp [hempty]
  | succ n hmn ih =>
      obtain ⟨hquiet, ps, hps, hoffered⟩ := ih (by omega)
      have hnext := hno (n + 1) (by omega) hnt
      rw [run_succ, ← step_silence] at hnext
      obtain ⟨hquiet', hshown⟩ := hquiet.step_of_noStb hlg hnext
      have hcontents := hquiet.contents_step (i := inp n) hlg
      rw [step_silence] at hquiet' hcontents
      use hquiet'.silence, ps ++ (run step s₀ inp n).padififo.shown
      constructor
      · intro w hw
        rcases List.mem_append.mp hw with hold | hnew
        · apply hps w hold
        · apply hshown w hnew
      · calc offered inp (n + 1)
          _ = offered inp m ++ ps
                ++ ((run step s₀ inp n).padififo.contents ++ (inp n).inStb.toList) := by
              rw [offered_succ, hoffered, List.append_assoc]
          _ = offered inp m ++ ps ++ ((run step s₀ inp n).padififo.shown
                ++ (run step s₀ inp (n + 1)).padififo.contents) := by
              rw [run_succ]
              exact congrArg _ hcontents.symm
          _ = _ := by simp

/-- The watchdog runs out. -/
def expires (s : DebugBus lgfifo lgwatchdog) (i : Input) : Bool :=
  !i.iWbAck && s.rWdtTimer == BitVec.allOnes lgwatchdog

/-- After the error the executor waits for ever, if the watchdog does not run out. -/
theorem flushing_run (h₀ : s₀.Ready) (hlg : 2 ≤ lgfifo) (hvec : WriteVector s₀ inp ws eow)
    (herr : FirstError s₀ inp d)
    (hdog : (run step s₀ inp d).expires (inp d) = false) (hn : d < n) :
  (run step s₀ inp n).Flushing ∧ (run step s₀ inp n).rWdtReset = false
  := by
  induction n, hn using Nat.le_induction with
  | base =>
      constructor
      · apply (writing_at_error h₀ hlg hvec herr).step_error (herr.noReset d (Nat.le_refl d))
        apply herr.iWbErr
      · have hcyc := herr.oWbCyc
        rw [expires] at hdog
        simp only [Nat.succ_eq_add_one, run_succ, step, hcyc, Bool.not_true, Bool.false_or]
        apply hdog
  | succ n hn ih => apply ih.1.step ih.2

/-- If it runs out, the command path is at rest two clocks later. -/
theorem rest_after_reset (h₀ : s₀.Ready) (hlg : 2 ≤ lgfifo) (hvec : WriteVector s₀ inp ws eow)
    (herr : FirstError s₀ inp d)
    (hdog : (run step s₀ inp d).expires (inp d) = true) :
  (run step s₀ inp (d + 1)).Flushing ∧ (run step s₀ inp (d + 2)).AtRest
  := by
  have hflush : (run step s₀ inp (d + 1)).Flushing := by
    apply (writing_at_error h₀ hlg hvec herr).step_error (herr.noReset d (Nat.le_refl d))
    apply herr.iWbErr
  use hflush
  apply hflush.step_reset
  have hcyc := herr.oWbCyc
  rw [expires] at hdog
  simp only [run_succ, step, hcyc, Bool.not_true, Bool.false_or]
  apply hdog

/-- One report of an error is made, as long as no cycle follows. -/
theorem one_report (herr : FirstError s₀ inp d) (hdt : d < t)
    (hcyc : ∀ k, d < k → k < t → (run step s₀ inp k).runwb.oWbCyc = false) :
  ((log (fun k => (run step s₀ inp (k + 1)).responded) t).filter isBusError).length = 1
  := by
  have hbefore : ∀ k, 0 ≤ k → k < d →
      (run step s₀ inp (k + 1)).responded.filter isBusError = [] := by
    intro k _ hk
    rw [run_succ, filter_responded_step, if_neg]
    cases hc : (run step s₀ inp k).runwb.oWbCyc with
    | true => simp [herr.before k hk hc]
    | false => simp
  have hreport : (run step s₀ inp (d + 1)).responded.filter isBusError
      = [(run step s₀ inp (d + 1)).runwb.oCodword] := by
    rw [run_succ, filter_responded_step, if_pos]
    simp [herr.noReset d (Nat.le_refl d), herr.oWbCyc, herr.iWbErr]
  have hafter : ∀ k, d + 1 ≤ k → k < t →
      (run step s₀ inp (k + 1)).responded.filter isBusError = [] := by
    intro k hdk hkt
    rw [run_succ, filter_responded_step, if_neg]
    simp [hcyc k hdk hkt]
  rw [← log_filter, log_eq_of_silent hdt hafter, log_succ,
    log_eq_of_silent (Nat.zero_le d) hbefore, hreport]
  rfl

/-- Without a cycle acknowledgments change nothing. -/
theorem step_iWbAck (hcyc : s.runwb.oWbCyc = false) (hstate : s.runwb.wbState ≠ .readRequest)
    (ack : Bool) :
  s.step { i with iWbAck := ack } = s.step i
  := by
  have hfsm : s.runwb.fsm (s.execInput { i with iWbAck := ack }) = s.runwb.fsm (s.execInput i) := by
    cases hs : s.runwb.wbState with
    | readRequest => cases hstate hs
    | _ =>
        simp only [Wbuexec.fsm, hs, execInput]
        rfl
  simp only [step, Wbuexec.step, hfsm]
  generalize s.runwb.fsm (s.execInput i) = f
  simp [hcyc, Wbuexec.nextAddr, Wbuexec.nextCodword, Wbuexec.request, execInput, fifoInput]
  and_intros <;> rfl

/-- Between two clocks a codeword is offered, if one is offered at all. -/
theorem exists_offer {a : Codeword} {q : ℕ} (hq : offered inp q = offered inp m ++ [a]) :
  ∃ e, m ≤ e ∧ offered inp e = offered inp m ∧ (inp e).inStb = some a
  := by
  have hmq : m ≤ q := by
    by_contra hlt
    obtain ⟨more, hmore⟩ := offered_mono inp (Nat.le_of_not_le hlt)
    have hlen := congrArg List.length hmore
    rw [hq] at hlen
    simp at hlen
  induction q, hmq using Nat.le_induction with
  | base => simp at hq
  | succ q hmq ih =>
      obtain ⟨more, hmore⟩ := offered_mono inp hmq
      rw [offered_succ, ← hmore, List.append_assoc] at hq
      have hlast := List.append_cancel_left hq
      cases hi : (inp q).inStb with
      | none =>
          apply ih
          rw [← hmore]
          rw [hi, Option.toList_none, List.append_nil] at hlast
          rw [hlast]
      | some w =>
          obtain ⟨rfl, rfl⟩ : more = [] ∧ w = a := by simpa [hi, List.append_eq_singleton_iff] using hlast
          use q, hmq
          constructor
          · rw [← hmore, List.append_nil]
          · apply hi

/-- Where nothing is held, the word offered is not shown at the next clock. -/
theorem Quiet.hidden_next (h : s.Quiet) (hempty : s.padififo.contents = []) :
  s.fifoInStb = false ∧ (s.step i).padififo.oEmptyN = false
  := by
  have hshown : s.padififo.oEmptyN = false := by
    have := (List.append_eq_nil_iff.mp hempty).1
    simpa [Wbufifo.shown] using this
  have hfill : s.padififo.fill = 0 := by
    simpa [Clocked.segment] using (List.append_eq_nil_iff.mp hempty).2
  have hunder := h.fifo.underflow_iff.mpr hfill
  constructor
  · rw [h.fifoInStb_eq, hshown]
  · simp [DebugBus.step, Wbufifo.step, Wbufifo.rEmptyN, hshown, hunder]

/-- The end of a vector that is offered at rest is dropped three clocks later. -/
theorem dropped_after_offer {e : ℕ} (hlg : 2 ≤ lgfifo)
    (hquiet : (run step s₀ inp e).silence.Quiet)
    (hempty : (run step s₀ inp e).padififo.contents = []) (hi : (inp e).inStb = some eow)
    (heow : eow.isEndOfWrite = true) :
  (∀ k, e < k → k ≤ e + 3 → (run step s₀ inp k).Quiet)
    ∧ offered inp (e + 3) = offered inp e ++ [eow] ++ (run step s₀ inp (e + 3)).padififo.contents
  := by
  obtain ⟨hstb, hhidden⟩ := hquiet.hidden_next (i := inp e) hempty
  have hquiet₁ : (run step s₀ inp (e + 1)).Quiet := by
    apply hquiet.step hlg
    rw [hstb]
    intro hno
    cases hno
  have hcontents₁ : (run step s₀ inp (e + 1)).padififo.contents = [eow] := by
    have hstep := hquiet.contents_step (i := inp e) hlg
    rw [hquiet.shown_eq_nil hstb, hi] at hstep
    change _ = (run step s₀ inp e).padififo.contents ++ _ at hstep
    rw [hempty] at hstep
    apply hstep
  have hstb₁ : (run step s₀ inp (e + 1)).fifoInStb = false := by
    rw [hquiet₁.fifoInStb_eq]
    apply hhidden
  have hquiet₂ : (run step s₀ inp (e + 2)).Quiet := by
    apply hquiet₁.step hlg
    rw [hstb₁]
    intro hno
    cases hno
  have hcontents₂ : (run step s₀ inp (e + 2)).padififo.contents
      = eow :: (inp (e + 1)).inStb.toList := by
    have hstep := hquiet₁.contents_step (i := inp (e + 1)) hlg
    rw [hquiet₁.shown_eq_nil hstb₁, hcontents₁] at hstep
    apply hstep
  have hshown₂ : (run step s₀ inp (e + 2)).padififo.oEmptyN = true := by
    apply hquiet₁.shown_next hhidden
    rw [hcontents₁]
    apply List.cons_ne_nil
  have hstb₂ : (run step s₀ inp (e + 2)).fifoInStb = true := by
    rw [hquiet₂.fifoInStb_eq, hshown₂]
  have hdata : (run step s₀ inp (e + 2)).padififo.oData = eow := by
    have hheld := hcontents₂
    rw [Wbufifo.contents, shown_of_fifoInStb hstb₂] at hheld
    apply (List.cons.inj hheld).1
  have hquiet₃ : (run step s₀ inp (e + 3)).Quiet := by
    apply hquiet₂.step hlg
    intro _
    rw [hdata]
    exact ⟨isWrite_of_isEndOfWrite heow, Codeword.isRead_of_isEndOfWrite heow⟩
  constructor
  · intro k hek hk
    obtain rfl | rfl | rfl : k = e + 1 ∨ k = e + 2 ∨ k = e + 3 := by omega
    · apply hquiet₁
    · apply hquiet₂
    · apply hquiet₃
  · have hstep := hquiet₂.contents_step (i := inp (e + 2)) hlg
    rw [shown_of_fifoInStb hstb₂, hdata, hcontents₂] at hstep
    have hcontents₃ := (List.cons.inj hstep).2
    change (run step s₀ inp (e + 3)).padififo.contents = _ at hcontents₃
    rw [hcontents₃, offered_succ, offered_succ, offered_succ, hi]
    simp

/-- As long as nothing is offered at rest, nothing happens. -/
theorem rest_stays (hrest : (run step s₀ inp m).AtRest) (hlg : 2 ≤ lgfifo)
    (hsame : offered inp n = offered inp m) :
  ∀ k, m ≤ k → k ≤ n → (run step s₀ inp k).AtRest
  := by
  intro k hmk
  induction k, hmk using Nat.le_induction with
  | base =>
      intro _
      apply hrest
  | succ k hmk ih =>
      intro hkn
      have hrest' := ih (by omega)
      have hnone := inStb_of_offered_eq hsame hmk (by omega)
      obtain ⟨hstb, -⟩ := hrest'.quiet.hidden_next (i := inp k) hrest'.contents
      have hstep := hrest'.quiet.contents_step (i := inp k) hlg
      rw [hrest'.quiet.shown_eq_nil hstb, hnone] at hstep
      change _ = (run step s₀ inp k).padififo.contents ++ _ at hstep
      rw [hrest'.contents] at hstep
      constructor
      · have hquiet : (run step s₀ inp (k + 1)).Quiet := by
          apply hrest'.quiet.step hlg
          rw [hstb]
          intro hno
          cases hno
        apply hquiet.silence
      · apply hstep

/-- A command path that is quiet from the reset on, and drops the vector, has recovered. -/
theorem recovered_of_quiet {vec : List Codeword} (herr : FirstError s₀ inp d)
    (hflush : (run step s₀ inp (d + 1)).Flushing)
    (hdt : d + 2 ≤ t) (hquiet : ∀ k, d + 2 ≤ k → k ≤ t → (run step s₀ inp k).silence.Quiet)
    (hdropped : s₀.supplied inp t = vec ++ (run step s₀ inp t).padififo.contents) :
  Recovered s₀ inp vec d t
  := by
  have hcyc : ∀ k, d < k → k ≤ t → (run step s₀ inp k).runwb.oWbCyc = false
      ∧ (run step s₀ inp k).runwb.oWbStb = false
      ∧ (run step s₀ inp k).runwb.wbState ≠ .readRequest := by
    intro k hdk hkt
    rcases Nat.eq_or_lt_of_le (Nat.succ_le_of_lt hdk) with rfl | hlt
    · refine ⟨hflush.oWbCyc, hflush.oWbStb, ?_⟩
      rw [Nat.succ_eq_add_one, hflush.wbState]
      decide
    · have hq := hquiet k hlt hkt
      refine ⟨hq.oWbCyc, hq.oWbStb, ?_⟩
      have hidle : (run step s₀ inp k).runwb.wbState = .idle := hq.wbState
      rw [hidle]
      decide
  have hq := hquiet t hdt (Nat.le_refl t)
  constructor
  · omega
  · apply hq.wbState
  · apply hq.oBusy
  · apply hdropped
  · apply one_report herr (by omega)
    intro k hdk hkt
    apply (hcyc k hdk (by omega)).1
  · intro k hdk hkt
    apply (hcyc k hdk hkt).2.1
  · intro k hdk hkt ack
    obtain ⟨hno, -, hstate⟩ := hcyc k hdk (by omega)
    rw [run_succ, step_iWbAck hno hstate]

/-- The command path recovers from an error exactly if the watchdog runs out at the clock
of the error, and its reset, which empties the FIFO, comes after the last write of the
vector and before the first command behind it. -/
theorem recovered_iff (h₀ : s₀.Ready) (hlg : 2 ≤ lgfifo) (hvec : WriteVector s₀ inp ws eow)
    (herr : FirstError s₀ inp d) :
  (∃ t, Recovered s₀ inp (ws ++ [eow]) d t)
    ↔ (run step s₀ inp d).expires (inp d) = true
      ∧ (s₀.supplied inp (d + 2) = ws ∨ s₀.supplied inp (d + 2) = ws ++ [eow])
  := by
  constructor
  · rintro ⟨t, hrec⟩
    have hdog : (run step s₀ inp d).expires (inp d) = true := by
      by_contra hno
      have hstuck := flushing_run h₀ hlg hvec herr (Bool.eq_false_of_not_eq_true hno) hrec.later
      have hbusy := hrec.oBusy
      rw [hstuck.1.oBusy] at hbusy
      cases hbusy
    use hdog
    obtain ⟨hflush, hrest⟩ := rest_after_reset h₀ hlg hvec herr hdog
    have hdt : d + 2 ≤ t := by
      by_contra hlt
      obtain rfl : t = d + 1 := by
        have := hrec.later
        omega
      have hbusy := hrec.oBusy
      rw [hflush.oBusy] at hbusy
      cases hbusy
    obtain ⟨-, ps, hps, hoffered⟩ := rest_run hrest hlg
      (fun k hk hkt => hrec.noWrite k (by omega) hkt) hdt (Nat.le_refl t)
    have hsupplied := hrec.dropped
    rw [supplied, hoffered, ← List.append_assoc, ← List.append_assoc] at hsupplied
    apply append_eq_vector hvec.writes hps (List.append_cancel_right hsupplied)
  · rintro ⟨hdog, hsupplied⟩
    obtain ⟨hflush, hrest⟩ := rest_after_reset h₀ hlg hvec herr hdog
    rcases hsupplied with hwrites | hall
    · obtain ⟨q, hq⟩ := hvec.supplied
      have hlast : offered inp q = offered inp (d + 2) ++ [eow] := by
        rw [← hwrites, supplied, supplied, List.append_assoc] at hq
        apply List.append_cancel_left hq
      obtain ⟨e, hde, he, hi⟩ := exists_offer hlast
      have hstays := rest_stays hrest hlg he
      have hrest' := hstays e hde (Nat.le_refl e)
      obtain ⟨hquiet, hdropped⟩ :=
        dropped_after_offer hlg hrest'.quiet hrest'.contents hi hvec.ends
      use e + 3
      apply recovered_of_quiet herr hflush (by omega)
      · intro k hdk hk
        rcases Nat.lt_or_ge e k with hlt | hge
        · apply (hquiet k hlt hk).silence
        · apply (hstays k hdk hge).quiet
      · rw [supplied, hdropped, he, ← hwrites, supplied]
        simp
    · use d + 2
      apply recovered_of_quiet herr hflush (Nat.le_refl _)
      · intro k hdk hk
        obtain rfl : k = d + 2 := by omega
        apply hrest.quiet
      · rw [hall, hrest.contents, List.append_nil]

end Runs

/-! ### Two slaves -/

/-- The codewords `cmds` are offered one after the other, and the slave answers with an
error at clock `d`. -/
def failing (cmds : List Codeword) (d n : ℕ) : Input where
  inStb := cmds[n]?
  iWbStall := false
  iWbAck := false
  iWbErr := n = d
  iWbData := 0

/-- A write of zero and the end of its vector. -/
def oneWrite : List Codeword := [0x400000000#36] ++ [0xb80000000#36]

theorem powerUp_ready (lgfifo lgwatchdog : ℕ) :
  (powerUp lgfifo lgwatchdog).Ready
  := by
  have hquiet := (powerUp_initial lgfifo lgwatchdog).quiet
  constructor
  · apply hquiet.fifo
  · apply hquiet.noReset
  · apply hquiet.wbState
  · apply hquiet.oWbCyc
  · apply hquiet.oWbStb
  · apply hquiet.oBusy

theorem oneWrite_vector (d : ℕ) :
  WriteVector (powerUp lgfifo lgwatchdog) (failing oneWrite d) [0x400000000#36] 0xb80000000#36
  := by
  constructor
  · decide
  · intro w hw
    rw [List.mem_singleton.mp hw]
    decide
  · decide
  · use 2
    rw [supplied, (powerUp_initial lgfifo lgwatchdog).contents]
    rfl

/-- The error comes at the clock at which a watchdog of two bits runs out. -/
theorem recovered_iff_watchdog :
  ∃ t, Recovered (powerUp 2 2) (failing oneWrite 6) oneWrite 6 t
  := by
  apply (recovered_iff (powerUp_ready 2 2) (by decide) (oneWrite_vector 6) _).mpr
  · constructor
    · decide
    · right
      decide
  · constructor
    · decide
    · decide
    · intro k hk _
      simp only [failing, decide_eq_false_iff_not]
      omega
    · decide

/-- One clock after the request is accepted the slave answers with an error, and the
command path does not recover. -/
theorem single_error_not_recovered :
  let inp := failing oneWrite 4
  WriteVector (powerUp 6 19) inp [0x400000000#36] 0xb80000000#36
    ∧ FirstError (powerUp 6 19) inp 4
    ∧ ¬ ∃ t, Recovered (powerUp 6 19) inp oneWrite 4 t
  := by
  intro inp
  have hvec : WriteVector (powerUp 6 19) inp [0x400000000#36] 0xb80000000#36 := oneWrite_vector 4
  have herr : FirstError (powerUp 6 19) inp 4 := by
    constructor
    · decide
    · decide
    · intro k hk _
      simp only [inp, failing, decide_eq_false_iff_not]
      omega
    · decide
  use hvec, herr
  rintro ⟨t, hrec⟩
  have hstuck := flushing_run (powerUp_ready 6 19) (by decide) hvec herr (by decide) hrec.later
  have hbusy := hrec.oBusy
  rw [hstuck.1.oBusy] at hbusy
  cases hbusy

end DebugBus

end ZBasic
