import ZBasic.Cpu.Memops
import ZBasic.Cpu.Pipemem

/-!
# The memory units compared

Both units do what the accesses ask for, and so agree, but for three things. `pipemem` flags
every access when it is to flag the misaligned ones, and it makes the request of an access that
follows others on the bus of those, whatever its address is. `memops` makes no request for an
access to a bus that it holds for a lock.
-/

namespace ZBasic

section Runs

variable {aw : ℕ} {cfg cfg' : MemoryConfig} {s₀ : Pipemem aw} {t₀ : Memops aw}
  {inp inp' : ℕ → MemoryInput}

/-- The units agree at all clocks exactly as long as `pipemem` is offered no aligned access while
it is to flag the misaligned ones, and none in a cycle of the other bus, and `memops` none to a
bus that is locked. -/
theorem memoryUnits_agree_iff (h₀ : s₀.Initial) (h₀' : t₀.Initial)
    (hopt : cfg'.optAlignmentErr = cfg.optAlignmentErr)
    (hlocal : cfg'.withLocalBus = cfg.withLocalBus)
    (henv : ∀ n, (Pipemem.unit aw cfg).Environment
      ((Pipemem.unit aw cfg).history s₀ inp n) (inp n))
    (henv' : ∀ n, (Memops.unit aw cfg').Environment
      ((Memops.unit aw cfg').history t₀ inp' n) (inp' n)) :
  (∀ n k, Agree cfg cfg' (Pipemem.unit aw cfg) (Memops.unit aw cfg')
    ((Pipemem.unit aw cfg).history s₀ inp n) ((Memops.unit aw cfg').history t₀ inp' k))
    ↔ ((∀ n, Pipemem.AllFlagged cfg (inp n))
        ∧ ∀ n, Pipemem.SameBus cfg ((Pipemem.unit aw cfg).history s₀ inp n).1 (inp n))
      ∧ ∀ k, Memops.Unlocked cfg' ((Memops.unit aw cfg').history t₀ inp' k).1 (inp' k)
  := by
  rw [← Pipemem.serves_iff h₀ henv, ← Memops.serves_iff h₀' henv']
  constructor
  · intro h
    constructor
    · intro n
      apply (h n 0).left
    · intro k
      apply (h 0 k).right
  · rintro ⟨h, h'⟩ n k
    apply (h n).agree (h' k) hopt hlocal

end Runs

/-- The parameters, with or without flags for misaligned accesses. -/
def plainConfig (optAlignmentErr : Bool) : MemoryConfig := ⟨true, true, optAlignmentErr, false⟩

/-- `pipemem` at power up. -/
def Pipemem.start : Pipemem 30 :=
  ⟨false, false, false, false, 0, 0, fun _ => 0, false, false, false, false, 0, 0, 0, false, false,
    0, 0, false, false⟩

/-- `memops` at power up. -/
def Memops.start : Memops 30 :=
  ⟨false, false, false, false, false, 0, 0, 0, 0, false, false, 0, 0, false, false⟩

theorem Pipemem.initial_start :
  Pipemem.start.Initial
  := by constructor <;> rfl

theorem Memops.initial_start :
  Memops.start.Initial
  := by constructor <;> rfl

/-- A byte and a halfword are loaded, offered and answered at the clocks given. -/
def loadsTwo (first second answer answer' : ℕ) (n : ℕ) : MemoryInput where
  iReset := false
  iStb := n == first || n == second
  iLock := false
  access := if n == first then ⟨0b110, 5, 0, 1⟩ else ⟨0b100, 10, 0, 2⟩
  iWbStall := false
  iWbAck := n == answer || n == answer'
  iWbErr := false
  iWbData := if n == answer then 0x11223344 else 0x55667788

theorem environment_of_quiet {σ : Type} {u : MemoryUnit 30 σ} {x : σ × Traffic 30}
    {i : MemoryInput} (hstb : i.iStb = false) (hack : i.iWbAck = false) (herr : i.iWbErr = false) :
  u.Environment x i
  := by constructor <;> simp [hstb, hack, herr]

theorem loadsTwo_quiet {first second answer answer' n : ℕ} (h : first < n ∧ second < n)
    (h' : answer < n ∧ answer' < n) :
  (loadsTwo first second answer answer' n).iStb = false
    ∧ (loadsTwo first second answer answer' n).iWbAck = false
  := by
  simp only [loadsTwo, Bool.or_eq_false_iff, beq_eq_false_iff_ne]
  omega

/-- Two loads that follow one another at once in the one unit, and wait for one another in the
other, are the same for both. -/
theorem memoryUnits_agree_iff_loads :
  let u := Pipemem.unit 30 (plainConfig false)
  let v := Memops.unit 30 (plainConfig false)
  (∀ n k, Agree (plainConfig false) (plainConfig false) u v
      (u.history Pipemem.start (loadsTwo 0 1 3 4) n) (v.history Memops.start (loadsTwo 0 3 2 5) k))
    ∧ (u.history Pipemem.start (loadsTwo 0 1 3 4) 5).2.returned = [(1, 0x22), (2, 0x7788)]
    ∧ (v.history Memops.start (loadsTwo 0 3 2 5) 6).2.returned = [(1, 0x22), (2, 0x7788)]
  := by
  refine ⟨?_, by decide, by decide⟩
  have hquiet : ∀ n, 6 ≤ n →
      (loadsTwo 0 1 3 4 n).iStb = false ∧ (loadsTwo 0 1 3 4 n).iWbAck = false :=
    fun n hn => loadsTwo_quiet (by omega) (by omega)
  have hquiet' : ∀ n, 6 ≤ n →
      (loadsTwo 0 3 2 5 n).iStb = false ∧ (loadsTwo 0 3 2 5 n).iWbAck = false :=
    fun n hn => loadsTwo_quiet (by omega) (by omega)
  have henv : ∀ n, (Pipemem.unit 30 (plainConfig false)).Environment
      ((Pipemem.unit 30 (plainConfig false)).history Pipemem.start (loadsTwo 0 1 3 4) n)
      (loadsTwo 0 1 3 4 n) := by
    intro n
    rcases Nat.lt_or_ge n 6 with hn | hn
    · interval_cases n <;> constructor <;> decide
    · apply environment_of_quiet (hquiet n hn).1 (hquiet n hn).2 rfl
  have henv' : ∀ n, (Memops.unit 30 (plainConfig false)).Environment
      ((Memops.unit 30 (plainConfig false)).history Memops.start (loadsTwo 0 3 2 5) n)
      (loadsTwo 0 3 2 5 n) := by
    intro n
    rcases Nat.lt_or_ge n 6 with hn | hn
    · interval_cases n <;> constructor <;> decide
    · apply environment_of_quiet (hquiet' n hn).1 (hquiet' n hn).2 rfl
  apply (memoryUnits_agree_iff Pipemem.initial_start Memops.initial_start rfl rfl henv henv').mpr
  refine ⟨⟨?_, ?_⟩, ?_⟩
  · intro n _ _ hopt
    cases hopt
  · intro n
    rcases Nat.lt_or_ge n 6 with hn | hn
    · interval_cases n <;> unfold Pipemem.SameBus <;> decide
    · intro _ hstb
      rw [(hquiet n hn).1] at hstb
      cases hstb
  · intro k
    rcases Nat.lt_or_ge k 6 with hk | hk
    · interval_cases k <;> unfold Memops.Unlocked <;> decide
    · intro _
      simp [Memops.gblStb, Memops.lclStb, (hquiet' k hk).1]

/-- A word is loaded from address four, and answered two clocks later if at all. -/
def loadsWord (answered : Bool) (n : ℕ) : MemoryInput :=
  ⟨false, n == 0, false, ⟨0b010, 4, 0, 1⟩, false, answered && n == 2, false, 7⟩

theorem loadsWord_environment {σ : Type} {u : MemoryUnit 30 σ} {s₀ : σ} {answered : Bool}
    (hstall : u.stalled s₀ (loadsWord answered 0) = false) (hbusy : u.oBusy s₀ = false)
    (hanswered : answered = true →
      (u.history s₀ (loadsWord answered) 2).2.answers.length
        < (u.history s₀ (loadsWord answered) 2).2.requests.length) (n : ℕ) :
  u.Environment (u.history s₀ (loadsWord answered) n) (loadsWord answered n)
  := by
  constructor
  · intro hstb
    obtain rfl : n = 0 := by simpa [loadsWord] using hstb
    apply hstall
  · intro hstb hbusy'
    obtain rfl : n = 0 := by simpa [loadsWord] using hstb
    change u.oBusy s₀ = true at hbusy'
    rw [hbusy] at hbusy'
    contradiction
  · intro hack
    obtain ⟨hyes, rfl⟩ : answered = true ∧ n = 2 := by simpa [loadsWord] using hack
    rw [List.length_append]
    apply Nat.lt_of_lt_of_le (hanswered hyes) (Nat.le_add_right _ _)
  · rfl

/-- With flags for misaligned accesses, `pipemem` flags a load that is aligned. -/
theorem not_agree_alignedLoad :
  (∀ n, (Pipemem.unit 30 (plainConfig true)).Environment
      ((Pipemem.unit 30 (plainConfig true)).history Pipemem.start (loadsWord false) n)
      (loadsWord false n))
    ∧ (∀ n, (Memops.unit 30 (plainConfig true)).Environment
      ((Memops.unit 30 (plainConfig true)).history Memops.start (loadsWord true) n)
      (loadsWord true n))
    ∧ ¬ ∀ n k, Agree (plainConfig true) (plainConfig true)
      (Pipemem.unit 30 (plainConfig true)) (Memops.unit 30 (plainConfig true))
      ((Pipemem.unit 30 (plainConfig true)).history Pipemem.start (loadsWord false) n)
      ((Memops.unit 30 (plainConfig true)).history Memops.start (loadsWord true) k)
  := by
  constructor
  · apply loadsWord_environment rfl rfl
    decide
  constructor
  · apply loadsWord_environment rfl rfl
    decide
  · intro h
    have herrors := (h 1 1).errors rfl
    have := congrArg List.length herrors
    revert this
    decide

end ZBasic
