import ZBasic.Host.Readword

/-!
# What is returned is what was read

The codewords that `wbucompress` lets out are heard by the host as the codewords it took
in: the data words, their increment bits and the addresses, in order, however long the
search through the table could run for each of them.
-/

namespace ZBasic

open Clocked

/-- The codewords the device returns: data words, addresses in full and states. -/
def Codeword.IsReturn (w : Codeword) : Prop :=
  w.isData = true ∨ w.isFullAddress = true ∨ w.isStatus = true

instance (w : Codeword) : Decidable w.IsReturn :=
  inferInstanceAs (Decidable (w.isData = true ∨ w.isFullAddress = true ∨ w.isStatus = true))

theorem addrword_of_not {w : Codeword} (hw : w.isFullAddress = false) :
  addrword w = w
  := by
  rw [Codeword.isFullAddress, beq_eq_false_iff_ne] at hw
  rw [addrword, if_pos hw]

theorem addrword_isAddress {w : Codeword} (hw : w.isFullAddress = true) :
  (addrword w).isAddress = true
  := by
  have hfull : w.extractLsb' 32 4 = 2#4 := by simpa [Codeword.isFullAddress] using hw
  unfold addrword
  rw [if_neg (by simpa using hfull)]
  split
  iterate 4
    · simp (disch := decide) only [Codeword.isAddress, extract_append_high]
      rfl
  · apply Codeword.isAddress_of_isFullAddress hw

namespace Readback

variable {h : Readback} {past : List (BitVec 32)} {w c : Codeword}

/-- What stands for a codeword is heard as that codeword, and the host knows afterwards
which words can be referred to. -/
theorem hear_encodes (hk : h.Knows past) (hw : w.IsReturn) (hc : Encodes past (addrword w) c)
    (gs : List (BitVec 6)) :
  ∃ h', h.hear (groups c ++ gs) = some (w.meaning, h', gs) ∧ h'.Knows (pastAfter past c)
  := by
  rcases hw with hdata | haddr | hstatus
  · obtain ⟨haddr, hfull⟩ := Codeword.kind_of_isData hdata
    rw [addrword_of_not hfull] at hc
    rw [Codeword.meaning, if_pos hdata]
    cases hc with
    | plain =>
        rw [pastAfter, haddr, if_neg Bool.false_ne_true, if_pos hdata]
        apply hear_data hk hdata
    | back k _ hone hle hpast =>
        obtain ⟨haddr, hdata'⟩ := tableWord_kind w (k == 1) (k < 10#10) (k.extractLsb' 0 3 - 2#3)
          (k - 10#10)
        rw [← reference] at haddr hdata'
        rw [pastAfter, haddr, hdata', if_neg Bool.false_ne_true, if_neg Bool.false_ne_true]
        apply hear_reference hk hone hle hpast
  · have hnot := Codeword.isData_of_isAddress (addrword_isAddress haddr)
    cases hc with
    | plain =>
        obtain ⟨h', hheard⟩ := h.hear_addrword haddr gs
        have hdata : w.isData = false :=
          Codeword.isData_of_isAddress (Codeword.isAddress_of_isFullAddress haddr)
        use h'
        rw [pastAfter, if_pos (addrword_isAddress haddr), Codeword.meaning, hdata,
          if_neg Bool.false_ne_true, if_pos haddr]
        apply And.intro hheard (Recent.nil _ _)
    | back k hdata => simp [hnot] at hdata
  · obtain ⟨haddr, hfull, hdata⟩ := Codeword.kind_of_isStatus hstatus
    rw [addrword_of_not hfull] at hc
    cases hc with
    | plain =>
        rw [pastAfter, haddr, hdata, if_neg Bool.false_ne_true, if_neg Bool.false_ne_true,
          Codeword.meaning, hdata, hfull, if_neg Bool.false_ne_true, if_neg Bool.false_ne_true]
        apply hear_isStatus hk hstatus
    | back k hd => simp [hdata] at hd

/-- What stands for some codewords is heard as those codewords. -/
theorem hearAll_encodes
    {ws cs : List Codeword} (hk : h.Knows past) (hws : ∀ w ∈ ws, w.IsReturn)
    (hcs : EncodesAll past (ws.map addrword) cs) {k : ℕ} (hlen : cs.length ≤ k) :
  h.hearAll k (cs.flatMap groups) = ws.map Codeword.meaning
  := by
  induction ws generalizing h past cs k with
  | nil =>
      cases cs with
      | nil => cases k <;> rfl
      | cons c cs => cases hcs
  | cons w ws ih =>
      cases cs with
      | nil => cases hcs
      | cons c cs =>
          obtain ⟨hc, hcs⟩ := hcs
          obtain ⟨k, rfl⟩ : ∃ j, k = j + 1 := Nat.exists_eq_add_one.mpr (by simp at hlen; omega)
          obtain ⟨h', hheard, hk'⟩ := hear_encodes hk (hws w (by simp)) hc (cs.flatMap groups)
          have hrest := ih hk' (fun v hv => hws v (List.mem_cons_of_mem w hv)) hcs
            (Nat.le_of_succ_le_succ hlen)
          rw [List.flatMap_cons, hearAll, hheard, List.map_cons]
          simp only [hrest]

theorem length_le_groups (cs : List Codeword) :
  cs.length ≤ (cs.flatMap groups).length
  := by
  induction cs with
  | nil => rfl
  | cons c cs ih =>
      have hpos : 0 < (groups c).length := by
        have := wLen_pos c
        simp only [groups, List.length_take, List.length_cons]
        bv_omega
      rw [List.length_cons, List.flatMap_cons, List.length_append]
      omega

end Readback

namespace Wbucompress

/-- The codewords taken in fall into those that have been heard and at most two that are
on their way. -/
theorem heard_split
    {s₀ : Wbucompress} {inp : ℕ → Input} (h₀ : s₀.Initial)
    (hreset : ∀ n, (inp n).iReset = false)
    (hlegal : ∀ n, ∀ w ∈ allAccepted s₀ inp n, w.IsReturn) (host : Readback) (n : ℕ) :
  ∃ ws waiting, allAccepted s₀ inp n = ws ++ waiting ∧ waiting.length ≤ 2
    ∧ ws.length = (allEmitted s₀ inp n).length
    ∧ host.hears ((allEmitted s₀ inp n).flatMap groups) = ws.map Codeword.meaning
  := by
  obtain ⟨ws, waiting, hsplit, htaken, hheld⟩ :=
    List.map_eq_append_iff.mp (allTaken_held h₀ hreset n).symm
  obtain ⟨hencodes, -⟩ := run_encodes h₀ hreset n
  rw [← htaken] at hencodes
  use ws, waiting
  refine ⟨hsplit, ?_, ?_, ?_⟩
  · rw [← List.length_map (f := addrword), hheld]
    apply held_length
  · rw [← List.length_map (f := addrword), htaken, allTaken_length]
  · apply Readback.hearAll_encodes (Recent.nil _ _) _ hencodes (Readback.length_le_groups _)
    intro w hw
    apply hlegal n
    rw [hsplit]
    apply List.mem_append_left _ hw

/-- For every sequence of data words, addresses and states taken in, however long each
has to wait: what the host hears, followed by the at most two codewords on their way, is
what was taken in. If the next stage is ready again and again, the host hears all of it. -/
theorem returns_recovered
    {s₀ : Wbucompress} {inp : ℕ → Input} (h₀ : s₀.Initial)
    (hreset : ∀ n, (inp n).iReset = false)
    (hlegal : ∀ n, ∀ w ∈ allAccepted s₀ inp n, w.IsReturn) (host : Readback) :
  (∀ n, ∃ waiting, waiting.length ≤ 2
    ∧ host.hears ((allEmitted s₀ inp n).flatMap groups) ++ waiting
      = (allAccepted s₀ inp n).map Codeword.meaning)
  ∧ ((∀ n, ∃ m, n ≤ m ∧ (inp m).iBusy = false) → ∀ n, ∃ m, n ≤ m
    ∧ (allAccepted s₀ inp n).map Codeword.meaning
      <+: host.hears ((allEmitted s₀ inp m).flatMap groups))
  := by
  constructor
  · intro n
    obtain ⟨ws, waiting, hsplit, hlen, -, hheard⟩ := heard_split h₀ hreset hlegal host n
    use waiting.map Codeword.meaning
    rw [List.length_map, hheard, hsplit, List.map_append]
    apply And.intro hlen rfl
  · intro hfair n
    obtain ⟨m, hm, hle⟩ := eventually_emitted h₀ hreset hfair n
    obtain ⟨ws, waiting, hsplit, -, hlen, hheard⟩ := heard_split h₀ hreset hlegal host m
    use m, hm
    rw [hheard]
    apply List.IsPrefix.map
    apply List.prefix_of_prefix_length_le (log_mono _ hm)
    · unfold allAccepted at hsplit
      rw [hsplit]
      apply List.prefix_append
    · rw [hlen]
      apply hle

/-- The compressor at power up. -/
def powerUp : Wbucompress where
  awordValid := false
  aAddrword := 0
  rWord := 0
  tblAddr := 0
  tblFilled := false
  compressionTbl := fun _ => 0
  rdAddr := 0
  pmatch := false
  dmatch := false
  vaddr := false
  cword := 0
  maddr := 0
  matched := false
  zmatch := false
  hmatch := false
  adrDbld := 0
  adrHlfd := 0
  rCword := 0
  dffaddr := 0
  addrWithinTable := true
  oStb := false

theorem powerUp_initial :
  powerUp.Initial
  := by constructor <;> rfl

/-- The same data word over and over, to a stage that is ready at every eighth clock. -/
def sameWord (n : ℕ) : Input where
  iReset := false
  iStb := true
  iCodword := 0xf40000001#36
  iBusy := n % 8 != 0

theorem sameWord_legal {w : Codeword} {n : ℕ} (hw : w ∈ allAccepted powerUp sameWord n) :
  w.IsReturn
  := by
  obtain ⟨k, -, hk⟩ := mem_log.mp hw
  unfold accepted at hk
  split at hk
  · rw [List.mem_singleton] at hk
    rw [hk]
    change Codeword.IsReturn 0xf40000001#36
    decide
  · simp at hk

theorem sameWord_fair (n : ℕ) :
  ∃ m, n ≤ m ∧ (sameWord m).iBusy = false
  := by
  use 8 * n, by omega
  simp [sameWord]

/-- Forty clocks of the same data word. -/
theorem returns_recovered_sameWord :
  ∃ m, 40 ≤ m ∧ (allAccepted powerUp sameWord 40).map Codeword.meaning
    <+: Readback.hears ⟨fun _ => 0, 0, 0, false, false, false⟩
      ((allEmitted powerUp sameWord m).flatMap groups)
  := by
  apply (returns_recovered powerUp_initial (fun _ => rfl) (fun _ _ hw => sameWord_legal hw) _).2
  apply sameWord_fair

end Wbucompress

end ZBasic
