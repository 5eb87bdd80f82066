import ZBasic.Host.Window

/-!
# Runs of a read

Host, device and transmitter move whenever they like, as long as each moves again and again, so
that the FIFO may fill with all that was asked for.

The window of `readv` is as long as the memory of the FIFO. One codeword more fits, in the
output register, which is enough for the address; a write acknowledgement that is still there
at the call is one too many.
-/

namespace ZBasic

open Clocked

namespace Window

/-- Host, device and transmitter move again and again, and no error is reported. -/
structure Fair (inp : ℕ → Input) : Prop where
  host : ∀ n, ∃ m, n ≤ m ∧ (inp m).host = true
  device : ∀ n, ∃ m, n ≤ m ∧ (inp m).iStb = true
  transmitter : ∀ n, ∃ m, n ≤ m ∧ (inp m).cwBusy = false
  calm : ∀ n sixbits, (inp n).state = some sixbits → sixbits ≠ 3 ∧ sixbits ≠ 5

/-- What is promised of a run of `readv` for `len` words. -/
structure Served (h : Ttybus) (a : BitVec 32) (answer : ℕ → BitVec 32) (inc : Bool)
    (oWbAddr : BitVec 32) (mBuflen len : ℕ) (s₀ : Window) (inp : ℕ → Input) : Prop where
  /-- The host does one thing after the other, and writes the commands of the call. -/
  commands : (∀ t, (run (step answer inc oWbAddr) s₀ inp t).actions <:+ s₀.actions)
    ∧ s₀.actions.flatMap (Ttybus.Action.chars inc) = (h.readv a inc len).flatMap Item.chars
  /-- Every `readcmd` is given a legal length, and every line fits in `m_buf`. -/
  lines : ∀ t address asks acts,
    (run (step answer inc oWbAddr) s₀ inp t).actions = .write address asks :: acts →
      (∀ n ∈ asks, 0 < n ∧ n < 520) ∧ (Ttybus.text inc address asks).length + 1 ≤ mBuflen
  /-- The words asked for and not yet read fit in the FIFO. -/
  window : ∀ t, (run (step answer inc oWbAddr) s₀ inp t).cmdrd
    ≤ (run (step answer inc oWbAddr) s₀ inp t).nread + 2 ^ 10
  /-- The FIFO takes in everything that is returned. -/
  keeps : ∀ t, ((run (step answer inc oWbAddr) s₀ inp t).called answer inc oWbAddr (inp t)).Keeps
    (inp t)
  /-- The words are stored in order, and nothing else is. -/
  stored : ∀ t j, (run (step answer inc oWbAddr) s₀ inp t).buf j
    = if j < (run (step answer inc oWbAddr) s₀ inp t).nread then answer j else s₀.buf j
  /-- In the end as many words as wanted have been asked for and read. -/
  ends : ∃ t, (run (step answer inc oWbAddr) s₀ inp t).actions = []
    ∧ (run (step answer inc oWbAddr) s₀ inp t).cmdrd = len
    ∧ (run (step answer inc oWbAddr) s₀ inp t).nread = len

section Progress

variable {answer : ℕ → BitVec 32} {inc : Bool} {oWbAddr : BitVec 32} {mBuflen len quiet : ℕ}
  {buf : ℕ → BitVec 32} {s : Window} {i : Input}

/-! ### Progress -/

/-- How many moves an action leads to at most. -/
def weight : Ttybus.Action → ℕ
  | .write _ asks => 2 * asks.sum + 3
  | .read => 1

/-- How many moves are left at most. -/
def rank (s : Window) : ℕ :=
  (s.actions.map weight).sum + 2 * s.due.length + s.busoutfifo.contents.length

theorem length_replies (newAddr : Bool) (cmdrd n : ℕ) :
  (replies answer inc oWbAddr newAddr cmdrd n).length = newAddr.toNat + n
  := by
  rw [replies, List.length_append, List.length_map, List.length_range']
  cases newAddr <;> rfl

/-- The host moves, or leaves everything as it is. -/
theorem act_rank (s : Window) :
  (s.act answer inc oWbAddr).rank < s.rank ∨ s.act answer inc oWbAddr = s
  := by
  rw [act]
  cases hacts : s.actions with
  | nil =>
      right
      rfl
  | cons action acts =>
      cases action with
      | write address asks =>
          have hnew := Bool.toNat_le (address ≠ [] || s.rNewAddr)
          left
          simp only [rank, ask, hacts, List.map_cons, List.sum_cons, weight, List.length_append,
            length_replies]
          omega
      | read =>
          cases hread : readword 0#32 s.flight with
          | waits =>
              right
              rfl
          | threw rest =>
              left
              simp only [rank, hacts, List.map_cons, List.sum_cons, weight, List.map_nil,
                List.sum_nil]
              omega
          | word val rest =>
              left
              simp only [rank, store, hacts, List.map_cons, List.sum_cons, weight]
              omega

/-- At a clock of the device a codeword is returned, or one leaves the FIFO, or both stay as
they are. -/
theorem serve_rank (hinv : s.busoutfifo.Inv) (hkeeps : s.Keeps i) :
  (s.serve i).rank + (s.busoutfifo.accepted (s.fifoInput i)).length
    + (s.busoutfifo.popped (s.fifoInput i)).length = s.rank
  := by
  have hdue := congrArg List.length (accepted_append_due hkeeps)
  have hheld := congrArg List.length (popped_append_held hinv hkeeps)
  have hactions : (s.serve i).actions = s.actions := rfl
  rw [held, held] at hheld
  rw [rank, rank, hactions]
  simp only [List.length_append] at hdue hheld
  omega

variable (answer inc oWbAddr) in
theorem called_busoutfifo (s : Window) (i : Input) :
  (s.called answer inc oWbAddr i).busoutfifo = s.busoutfifo
  := by
  rw [called]
  split
  · rw [act]
    split
    · rfl
    · rfl
    · split <;> rfl
  · rfl

variable (answer inc oWbAddr) in
theorem called_rank (s : Window) (i : Input) :
  (s.called answer inc oWbAddr i).rank < s.rank ∨ s.called answer inc oWbAddr i = s
  := by
  rw [called]
  split
  · apply act_rank
  · right
    rfl

/-- Every clock leaves no more moves to be made. -/
theorem step_rank_le (hinv : s.busoutfifo.Inv)
    (hkeeps : (s.called answer inc oWbAddr i).Keeps i) :
  (s.step answer inc oWbAddr i).rank ≤ (s.called answer inc oWbAddr i).rank
  := by
  rw [← s.called_busoutfifo answer inc oWbAddr i] at hinv
  rw [step, ← serve_rank hinv hkeeps]
  omega

/-- Without a move nothing changes but for what is inserted. -/
theorem still (hinv : s.busoutfifo.Inv) (hkeeps : (s.called answer inc oWbAddr i).Keeps i)
    (hrank : s.rank ≤ (s.step answer inc oWbAddr i).rank) :
  s.called answer inc oWbAddr i = s ∧ s.Keeps i
    ∧ s.busoutfifo.accepted (s.fifoInput i) = [] ∧ s.busoutfifo.popped (s.fifoInput i) = []
  := by
  have hle := step_rank_le hinv hkeeps
  have hcalled : s.called answer inc oWbAddr i = s := by
    rcases s.called_rank answer inc oWbAddr i with hlt | heq
    · have := lt_of_lt_of_le hlt (le_trans hrank hle)
      omega
    · apply heq
  rw [hcalled] at hkeeps
  have hserve := serve_rank hinv hkeeps
  rw [step, hcalled] at hrank
  refine ⟨hcalled, hkeeps, ?_, ?_⟩
  · apply List.eq_nil_of_length_eq_zero
    omega
  · apply List.eq_nil_of_length_eq_zero
    omega

/-- A host that has something to do and cannot do it waits for a word that it has asked
for. -/
theorem waits_of_act (h : Inv answer inc mBuflen len quiet buf s) (hacts : s.actions ≠ [])
    (hact : s.act answer inc oWbAddr = s) :
  s.nread < s.cmdrd ∧ wordsOf s.flight = []
  := by
  have hw := h.windowed
  cases hs : s.actions with
  | nil => cases hacts hs
  | cons action acts =>
      rw [hs] at hw
      cases action with
      | write address asks =>
          have hsame := congrArg Window.actions hact
          simp [act, hs] at hsame
      | read =>
          have hcalm : ∀ f ∈ s.flight, f.Calm :=
            fun f hf => h.calm f (List.mem_append_left _ hf)
          use hw.1
          rcases readword_cases 0#32 hcalm with ⟨hnone, -⟩ | ⟨val, rest, hread, -, -⟩
          · apply hnone
          · have hsame := congrArg Window.nread hact
            simp [act, hs, hread, store] at hsame

section Runs

variable {inp : ℕ → Input} {σ : ℕ → Window}

/-- From clock `n` on nothing moves. -/
structure Still (inp : ℕ → Input) (σ : ℕ → Window) (n : ℕ) : Prop where
  next : ∀ m, n ≤ m → σ (m + 1) = (σ m).serve (inp m)
  keeps : ∀ m, n ≤ m → (σ m).Keeps (inp m)
  accepted : ∀ m, n ≤ m → (σ m).busoutfifo.accepted ((σ m).fifoInput (inp m)) = []
  popped : ∀ m, n ≤ m → (σ m).busoutfifo.popped ((σ m).fifoInput (inp m)) = []

theorem Still.actions {n m : ℕ} (h : Still inp σ n) (hm : n ≤ m) :
  (σ m).actions = (σ n).actions
  := by
  induction m, hm using Nat.le_induction with
  | base => rfl
  | succ m hm ih =>
      rw [h.next m hm, ← ih]
      rfl

/-- Nothing is due, since the device would return it. -/
theorem Still.due {n m : ℕ} (h : Still inp σ n) (hfair : Fair inp) (hm : n ≤ m) :
  (σ m).due = []
  := by
  have hsame : ∀ m, n ≤ m → (σ m).due = (σ n).due := by
    intro m hm
    induction m, hm using Nat.le_induction with
    | base => rfl
    | succ m hm ih =>
        rw [h.next m hm, ← ih, ← accepted_append_due (h.keeps m hm), h.accepted m hm]
        rfl
  obtain ⟨d, hd, hstb⟩ := hfair.device n
  rw [hsame m hm, ← hsame d hd]
  cases hhead : (σ d).due with
  | nil => rfl
  | cons w ws =>
      have hw : ((σ d).fifoInput (inp d)).iWr = some w := by
        simp [fifoInput, hstb, hhead]
      have hacc := h.accepted d hd
      rw [h.keeps d hd w hw] at hacc
      cases hacc

/-- Nothing is in the FIFO, since the transmitter would take it. -/
theorem Still.contents {n m : ℕ} (h : Still inp σ n) (hfair : Fair inp)
    (hinv : ∀ n, (σ n).busoutfifo.Inv) (hm : n ≤ m) :
  (σ m).busoutfifo.contents = []
  := by
  by_contra hne
  have hstays : ∀ k, m ≤ k → (σ k).busoutfifo.contents ≠ [] := by
    intro k hk
    induction k, hk using Nat.le_induction with
    | base => apply hne
    | succ k hk ih =>
        have hheld := popped_append_held (hinv k) (h.keeps k (hm.trans hk))
        rw [h.popped k (hm.trans hk), List.nil_append, ← h.next k (hm.trans hk), held, held,
          h.due hfair (Nat.le_succ_of_le (hm.trans hk)), h.due hfair (hm.trans hk),
          List.append_nil, List.append_nil] at hheld
        rw [hheld]
        apply ih
  obtain ⟨k, hk, hready⟩ := hfair.transmitter (m + 1)
  obtain ⟨k, rfl⟩ : ∃ k', k = k' + 1 := ⟨k - 1, by omega⟩
  have hshown : (σ (k + 1)).busoutfifo.oEmptyN = true := by
    rw [h.next k (by omega)]
    apply Wbufifo.step_oEmptyN_of_contents (hinv k) rfl (hstays k (by omega))
    apply h.popped k (by omega)
  have hpop := h.popped (k + 1) (by omega)
  simp [Wbufifo.popped, Wbufifo.shown, fifoInput, hshown, hready] at hpop

/-- Host, device and transmitter make a move sooner or later, as long as the host has
something to do. -/
theorem moves (hfair : Fair inp)
    (hσ : ∀ n, σ (n + 1) = (σ n).step answer inc oWbAddr (inp n))
    (hinv : ∀ n, Inv answer inc mBuflen len quiet buf (σ n))
    (hkeeps : ∀ n, ((σ n).called answer inc oWbAddr (inp n)).Keeps (inp n))
    {n : ℕ} (hacts : (σ n).actions ≠ []) :
  ∃ m, n ≤ m ∧ (σ (m + 1)).rank < (σ m).rank
  := by
  by_contra hnever
  push Not at hnever
  have hnone : ∀ m, n ≤ m → (σ m).called answer inc oWbAddr (inp m) = σ m
      ∧ (σ m).Keeps (inp m) ∧ (σ m).busoutfifo.accepted ((σ m).fifoInput (inp m)) = []
      ∧ (σ m).busoutfifo.popped ((σ m).fifoInput (inp m)) = [] := by
    intro m hm
    apply still (hinv m).busoutfifo (hkeeps m)
    rw [← hσ]
    apply hnever m hm
  have hstill : Still inp σ n := by
    constructor
    · intro m hm
      rw [hσ, step, (hnone m hm).1]
    · intro m hm
      apply (hnone m hm).2.1
    · intro m hm
      apply (hnone m hm).2.2.1
    · intro m hm
      apply (hnone m hm).2.2.2
  obtain ⟨m, hm, hhost⟩ := hfair.host n
  have hact := (hnone m hm).1
  rw [called, if_pos hhost] at hact
  rw [← hstill.actions hm] at hacts
  -- The word that the host waits for is nowhere.
  obtain ⟨hlt, hflight⟩ := waits_of_act (hinv m) hacts hact
  have hwords := congrArg List.length (hinv m).words
  rw [pending, held, hstill.due hfair hm,
    hstill.contents hfair (fun n => (hinv n).busoutfifo) hm, List.append_nil, List.map_nil,
    List.append_nil, hflight, List.length_map, List.length_range', List.length_nil] at hwords
  omega

/-- In the end the host has nothing more to do. -/
theorem finishes (hfair : Fair inp)
    (hσ : ∀ n, σ (n + 1) = (σ n).step answer inc oWbAddr (inp n))
    (hinv : ∀ n, Inv answer inc mBuflen len quiet buf (σ n))
    (hkeeps : ∀ n, ((σ n).called answer inc oWbAddr (inp n)).Keeps (inp n)) :
  ∃ n, (σ n).actions = []
  := by
  by_contra hnever
  push Not at hnever
  have hmono : ∀ n, (σ (n + 1)).rank ≤ (σ n).rank := by
    intro n
    rw [hσ]
    apply le_trans (step_rank_le (hinv n).busoutfifo (hkeeps n))
    rcases (σ n).called_rank answer inc oWbAddr (inp n) with hlt | heq
    · apply hlt.le
    · rw [heq]
  have hend : ∃ m, 0 ≤ m ∧ False := by
    apply eventually_of_fair_measure (fun n => moves hfair hσ hinv hkeeps (hnever n))
      (fun n => (σ n).rank) 0
    · intro n _ _
      apply hmono
    · intro n _ _ hmove
      apply hmove
  obtain ⟨m, -, hm⟩ := hend
  apply hm

end Runs

end Progress

/-! ### Room in the FIFO -/

section Room

variable (answer : ℕ → BitVec 32) (inc : Bool) (oWbAddr : BitVec 32) {mBuflen len : ℕ}
  {h : Ttybus} {a : BitVec 32} {s₀ : Window} {inp : ℕ → Input}

theorem addresses_replicate (rNewAddr : Bool) (k : ℕ) (acts : List Ttybus.Action) :
  addresses rNewAddr (List.replicate k .read ++ acts) = addresses rNewAddr acts
  := by
  induction k with
  | zero => rfl
  | succ k ih => apply ih

/-- Only the first line has an address. -/
theorem addresses_readvLoop {cmdrd nread : ℕ} (hahead : cmdrd - nread ≤ Ttybus.readAhead) :
  addresses false (Ttybus.readvLoop len cmdrd nread [] hahead) = 0
  := by
  induction cmdrd, nread, hahead using Ttybus.readLines.induct len with
  | case1 cmdrd nread hahead hmore ih =>
      rw [Ttybus.readvLoop, dif_pos hmore]
      simp only [addresses, addresses_replicate, ih]
      rfl
  | case2 cmdrd nread hahead hmore =>
      rw [Ttybus.readvLoop, dif_neg hmore, ← List.append_nil (List.replicate _ _),
        addresses_replicate]
      rfl

/-- The first line asks for as many words as the window allows. -/
theorem readvActions_eq (h : Ttybus) {a : BitVec 32} (ha : a.extractLsb' 0 2 = 0#2)
    (hlen : 1 ≤ len) :
  ∃ asks acts, h.readvActions a len = .write (h.encodeAddress a) asks :: acts
    ∧ asks.sum = min len Ttybus.maxRdLen ∧ addresses false acts = 0
  := by
  have hpos : 0 < len := hlen
  have hline : Ttybus.LineOf len 0 0 (Ttybus.readLine len 0 0) :=
    Ttybus.readLine_lineOf hpos (Nat.le_refl 0) (by decide)
  rw [Ttybus.readvActions, if_neg (not_not_intro ha), Ttybus.readvLoop, dif_pos hpos]
  refine ⟨_, _, rfl, ?_, ?_⟩
  · rw [← Nat.zero_add (List.sum _), hline.sum, hline.stop, Nat.zero_add]
  · rw [addresses_replicate, addresses_readvLoop]

/-- The codewords of the device that are no data words: those it holds at the call, and the
address it sends first, if it sends one. -/
def quiet (h : Ttybus) (a : BitVec 32) (s₀ : Window) : ℕ :=
  s₀.held.length + (h.encodeAddress a ≠ [] || s₀.rNewAddr).toNat

theorem Calls.inv (hcall : Calls h a len s₀) (ha : a.extractLsb' 0 2 = 0#2) (hlen : 1 ≤ len)
    (hbuf : Ttybus.Allocated mBuflen) :
  Inv answer inc mBuflen len (quiet h a s₀) s₀.buf s₀
  := by
  obtain ⟨asks, acts, hacts, -, hrest⟩ := readvActions_eq h ha hlen
  constructor
  · rw [hcall.actions, hcall.cmdrd, hcall.nread]
    apply Ttybus.windowed_readvActions h ha hbuf
  · rw [hcall.cmdrd, hcall.nread]
  · rw [hcall.cmdrd]
    apply Nat.zero_le
  · apply hcall.busoutfifo
  · apply hcall.calm
  · rw [hcall.words, hcall.cmdrd]
    simp
  · rw [hcall.actions, hacts, addresses, hrest]
    apply Nat.add_le_add_right
    apply List.countP_le_length
  · intro j
    rw [hcall.nread, if_neg (Nat.not_lt_zero j)]

theorem step_inv {n : ℕ} {buf : ℕ → BitVec 32} {s : Window} {i : Input}
    (hroom : n + min len Ttybus.maxRdLen ≤ 2 ^ 10 + 1)
    (hstate : ∀ sixbits, i.state = some sixbits → sixbits ≠ 3 ∧ sixbits ≠ 5)
    (hinv : Inv answer inc mBuflen len n buf s) :
  (s.called answer inc oWbAddr i).Keeps i
    ∧ Inv answer inc mBuflen len n buf (s.step answer inc oWbAddr i)
  := by
  have hcalled : Inv answer inc mBuflen len n buf (s.called answer inc oWbAddr i) := by
    rw [called]
    split
    · apply act_inv hinv
    · apply hinv
  have hkeeps : (s.called answer inc oWbAddr i).Keeps i :=
    keeps_of_length hcalled.busoutfifo (hcalled.length_held.trans hroom)
  use hkeeps
  apply serve_inv hcalled hkeeps hstate

/-- What the host has to do are the last of the things it had to do. -/
theorem actions_step (s : Window) (i : Input) :
  (s.step answer inc oWbAddr i).actions <:+ s.actions
  := by
  have hact : (s.act answer inc oWbAddr).actions <:+ s.actions := by
    rw [act]
    cases hacts : s.actions with
    | nil =>
        simp only [hacts]
        apply List.suffix_refl
    | cons action acts =>
        cases action with
        | write address asks => apply List.suffix_cons
        | read =>
            cases readword 0#32 s.flight with
            | waits =>
                simp only [hacts]
                apply List.suffix_refl
            | threw rest => apply List.nil_suffix
            | word val rest => apply List.suffix_cons
  change (s.called answer inc oWbAddr i).actions <:+ s.actions
  rw [called]
  split_ifs
  · apply hact
  · apply List.suffix_refl

/-- With room for everything that is returned, every run is as promised. -/
theorem served_of_room (hcall : Calls h a len s₀) (ha : a.extractLsb' 0 2 = 0#2)
    (hlen : 1 ≤ len) (hbuf : Ttybus.Allocated mBuflen) (hfair : Fair inp)
    (hroom : quiet h a s₀ + min len Ttybus.maxRdLen ≤ 2 ^ 10 + 1) :
  Served h a answer inc oWbAddr mBuflen len s₀ inp
  := by
  have hinv : ∀ t, Inv answer inc mBuflen len (quiet h a s₀) s₀.buf
      (run (step answer inc oWbAddr) s₀ inp t) := by
    apply run_induction (hcall.inv answer inc ha hlen hbuf)
    intro t s hs
    apply (step_inv answer inc oWbAddr hroom (hfair.calm t) hs).2
  have hkeeps := fun t => (step_inv answer inc oWbAddr hroom (hfair.calm t) (hinv t)).1
  constructor
  · constructor
    · intro t
      induction t with
      | zero => apply List.suffix_refl
      | succ t ih =>
          rw [run_succ]
          apply (actions_step answer inc oWbAddr _ (inp t)).trans ih
    · rw [hcall.actions]
      apply Ttybus.chars_readvActions h inc ha hlen
  · intro t address asks acts hacts
    have hw := (hinv t).windowed
    rw [hacts] at hw
    use hw.1, hw.2.1
  · intro t
    apply (hinv t).window
  · apply hkeeps
  · intro t
    apply (hinv t).stored
  · obtain ⟨t, hdone⟩ := finishes hfair (fun t => run_succ _ _ _ t) hinv hkeeps
    have hw := (hinv t).windowed
    rw [hdone] at hw
    use t, hdone, hw.1, hw.2

/-! ### No room -/

/-- While the transmitter is busy nothing leaves the FIFO. -/
theorem length_held_serve {s : Window} {i : Input} (hinv : s.busoutfifo.Inv) (hkeeps : s.Keeps i)
    (hbusy : i.cwBusy = true) :
  (s.serve i).held.length = s.held.length
  := by
  have hpopped : s.busoutfifo.popped (s.fifoInput i) = [] := by
    simp [Wbufifo.popped, fifoInput, hbusy]
  rw [← popped_append_held hinv hkeeps, hpopped, List.nil_append]

/-- The host asks at the first clock and waits until clock `n`, and so does the transmitter;
the device returns something whenever it can. -/
def stalled (n t : ℕ) : Input where
  host := t == 0 || n ≤ t
  iStb := true
  cwBusy := t < n
  state := none

theorem fair_stalled (n : ℕ) :
  Fair (stalled n)
  := by
  constructor
  · intro m
    use max n m, Nat.le_max_right n m
    simp [stalled]
  · intro m
    use m
    constructor <;> rfl
  · intro m
    use max n m, Nat.le_max_right n m
    simp [stalled]
  · intro m sixbits hstate
    cases hstate

theorem run_busoutfifo (hinv : s₀.busoutfifo.Inv) (t : ℕ) :
  (run (step answer inc oWbAddr) s₀ inp t).busoutfifo.Inv
  := by
  induction t with
  | zero => apply hinv
  | succ t ih =>
      rw [run_succ]
      apply Wbufifo.step_inv
      · rw [called_busoutfifo]
        apply ih
      · rfl
      · decide

theorem called_stalled_zero (hcall : Calls h a len s₀) (ha : a.extractLsb' 0 2 = 0#2)
    (hlen : 1 ≤ len) (n : ℕ) :
  (s₀.called answer inc oWbAddr (stalled n 0)).held.length
    = quiet h a s₀ + min len Ttybus.maxRdLen
  := by
  obtain ⟨asks, acts, hacts, hsum, -⟩ := readvActions_eq h ha hlen
  have hact : s₀.act answer inc oWbAddr
      = { s₀.ask answer inc oWbAddr (h.encodeAddress a) asks with actions := acts } := by
    simp only [act, hcall.actions, hacts]
  have hhost : (stalled n 0).host = true := rfl
  rw [called, if_pos hhost, hact]
  show (s₀.ask answer inc oWbAddr (h.encodeAddress a) asks).held.length = _
  rw [held_ask, List.length_append, length_replies, hsum, quiet, Nat.add_assoc]

/-- Without room for everything the device returns, the FIFO drops something. -/
theorem drops (hcall : Calls h a len s₀) (ha : a.extractLsb' 0 2 = 0#2) (hlen : 1 ≤ len)
    {n : ℕ} (hn : quiet h a s₀ + min len Ttybus.maxRdLen = n) (hroom : 2 ^ 10 + 1 < n) :
  ¬ ∀ t, ((run (step answer inc oWbAddr) s₀ (stalled n) t).called answer inc oWbAddr
    (stalled n t)).Keeps (stalled n t)
  := by
  intro hkeeps
  generalize hσ : run (step answer inc oWbAddr) s₀ (stalled n) = σ at hkeeps
  have hinv : ∀ t, (σ t).busoutfifo.Inv := by
    rw [← hσ]
    apply run_busoutfifo answer inc oWbAddr hcall.busoutfifo
  have hserve : ∀ t, t < n →
      (σ (t + 1)).held.length = ((σ t).called answer inc oWbAddr (stalled n t)).held.length
        ∧ (σ (t + 1)).due = ((σ t).called answer inc oWbAddr (stalled n t)).due.tail := by
    intro t ht
    have hsucc : σ (t + 1) = ((σ t).called answer inc oWbAddr (stalled n t)).serve
        (stalled n t) := by rw [← hσ, run_succ, step]
    rw [hsucc]
    constructor
    · apply length_held_serve _ (hkeeps t) (decide_eq_true ht)
      rw [called_busoutfifo]
      apply hinv
    · rfl
  -- All that is returned stays with the device, and more and more of it is in the FIFO.
  have hfill : ∀ t, t < n →
      ((σ t).called answer inc oWbAddr (stalled n t)).held.length = n
        ∧ ((σ t).called answer inc oWbAddr (stalled n t)).due.length + t ≤ n := by
    intro t ht
    induction t with
    | zero =>
        have hzero : σ 0 = s₀ := by rw [← hσ, run_zero]
        have hheld := called_stalled_zero answer inc oWbAddr hcall ha hlen n
        rw [hn] at hheld
        rw [hzero]
        use hheld
        rw [held, List.length_append] at hheld
        omega
    | succ t ih =>
        obtain ⟨hheld, hdue⟩ := ih (by omega)
        obtain ⟨hheld', hdue'⟩ := hserve t (by omega)
        have hwaits : (σ (t + 1)).called answer inc oWbAddr (stalled n (t + 1)) = σ (t + 1) := by
          have hhost : (stalled n (t + 1)).host = false := by
            simp only [stalled]
            grind
          rw [called, hhost]
          rfl
        rw [hwaits]
        use hheld'.trans hheld
        rw [hdue', List.length_tail]
        omega
  obtain ⟨hheld, hdue⟩ := hfill (n - 1) (by omega)
  obtain ⟨hheld', hdue'⟩ := hserve (n - 1) (by omega)
  have hlast : n - 1 + 1 = n := by omega
  have hle := Wbufifo.length_contents_le (hinv n)
  rw [hlast] at hheld' hdue'
  rw [hheld, held, List.length_append, hdue', List.length_tail] at hheld'
  omega

/-- A call that has nothing to do leaves the host as it is. -/
theorem run_cmdrd (hacts : s₀.actions = []) (t : ℕ) :
  (run (step answer inc oWbAddr) s₀ inp t).actions = []
    ∧ (run (step answer inc oWbAddr) s₀ inp t).cmdrd = s₀.cmdrd
  := by
  induction t with
  | zero => exact ⟨hacts, rfl⟩
  | succ t ih =>
      rw [run_succ]
      generalize run (step answer inc oWbAddr) s₀ inp t = s at ih ⊢
      have hcalled : s.called answer inc oWbAddr (inp t) = s := by
        simp [called, act, ih.1]
      rw [step, hcalled]
      apply ih

/-- An address that is not aligned is refused. -/
theorem aligned_of_ends (hcall : Calls h a len s₀) (hlen : 1 ≤ len) {t : ℕ}
    (hends : (run (step answer inc oWbAddr) s₀ inp t).cmdrd = len) :
  a.extractLsb' 0 2 = 0#2
  := by
  by_contra ha
  have hacts : s₀.actions = [] := by rw [hcall.actions, Ttybus.readvActions, if_pos ha]
  obtain ⟨-, hcmdrd⟩ := run_cmdrd answer inc oWbAddr hacts t
  rw [hends, hcall.cmdrd] at hcmdrd
  omega

end Room

/-- A call of `readv` keeps what is promised, whoever moves when, exactly if the address is
aligned and the FIFO, with its output register, has room for the codewords the device holds at
the call, an address and the words of the window. The device answers every read command that
reaches it: `answer` gives the words, and they are returned at clocks of its own choice. -/
theorem served_iff
    (h : Ttybus) (a : BitVec 32) (answer : ℕ → BitVec 32) (inc : Bool) (oWbAddr : BitVec 32)
    {mBuflen len : ℕ} {s₀ : Window} (hlen : 1 ≤ len) (hbuf : Ttybus.Allocated mBuflen)
    (hcall : Calls h a len s₀) :
  (∀ inp, Fair inp → Served h a answer inc oWbAddr mBuflen len s₀ inp)
    ↔ a.extractLsb' 0 2 = 0#2 ∧ quiet h a s₀ + min len Ttybus.maxRdLen ≤ 2 ^ 10 + 1
  := by
  constructor
  · intro hserved
    obtain ⟨t, -, hends, -⟩ := (hserved _ (fair_stalled 0)).ends
    have ha := aligned_of_ends answer inc oWbAddr hcall hlen hends
    use ha
    by_contra hroom
    apply drops answer inc oWbAddr hcall ha hlen rfl (Nat.lt_of_not_le hroom)
    apply (hserved _ (fair_stalled _)).keeps
  · rintro ⟨ha, hroom⟩ inp hfair
    apply served_of_room answer inc oWbAddr hcall ha hlen hbuf hfair hroom

/-- A host that has just written a word. -/
def wrote : Ttybus where
  mAddrSet := true
  mLastaddr := 0x2000
  mWraddr := 1
  mWrloaded := false
  mWritetbl _ := 0

/-- A call for 1024 words. The acknowledgement of the write is in the FIFO of the device, or has
been sent. -/
def afterWrite (oEmptyN : Bool) : Window where
  actions := wrote.readvActions 0x1000 1024
  cmdrd := 0
  nread := 0
  buf _ := 0
  rNewAddr := false
  due := []
  busoutfifo := { Wbufifo.initial (fun _ => 0) (2#6 ++ 0#30) with oEmptyN := oEmptyN }
  flight := []

theorem afterWrite_fill (oEmptyN : Bool) :
  (afterWrite oEmptyN).busoutfifo.fill = 0
  := by
  revert oEmptyN
  decide

theorem afterWrite_pending (oEmptyN : Bool) :
  (afterWrite oEmptyN).pending = if oEmptyN then [.status 2] else []
  := by
  revert oEmptyN
  decide

theorem afterWrite_calls (oEmptyN : Bool) :
  Calls wrote 0x1000 1024 (afterWrite oEmptyN)
  := by
  constructor
  · rfl
  · rfl
  · rfl
  · constructor <;> rw [afterWrite_fill]
    · decide
    · simp [afterWrite, Wbufifo.initial]
    · simp [afterWrite, Wbufifo.initial]
    · intro hlt
      omega
  · intro f hf
    rw [afterWrite_pending] at hf
    split_ifs at hf
    · rw [List.mem_singleton.mp hf]
      constructor <;> decide
    · cases hf
  · rw [afterWrite_pending]
    cases oEmptyN <;> rfl

/-- With the acknowledgement sent the FIFO holds the address and all the words. -/
theorem served_afterWrite :
  Served wrote 0x1000 (fun k => BitVec.ofNat 32 k) true 0x400 128 1024 (afterWrite false)
    (stalled 1025)
  := (served_iff wrote 0x1000 _ _ _ (by decide) Ttybus.Allocated.init (afterWrite_calls false)).mpr
    (by decide) _ (fair_stalled 1025)

/-- With the acknowledgement in the FIFO it does not. -/
theorem not_served_afterWrite :
  ¬ ∀ inp, Fair inp →
    Served wrote 0x1000 (fun k => BitVec.ofNat 32 k) true 0x400 128 1024 (afterWrite true) inp
  := by
  intro hserved
  apply drops (fun k => BitVec.ofNat 32 k) true 0x400 (afterWrite_calls true) (by decide)
    (by decide) rfl (by decide)
  apply (hserved _ (fair_stalled _)).keeps

end Window

end ZBasic
