import Mathlib.Logic.Function.Basic
import ZBasic.Clocked.Run
import ZBasic.Wbubus.Exec

/-!
# Expanding the codewords of the host

`wbudecompress` expands addresses, read lengths and writes: a compressed write names one
of the last 255 words written out in full. It is a pipeline four clocks deep, for
codewords at least four clocks apart.
-/

namespace ZBasic

open Clocked

/-! ### What is done to a codeword -/

/-- `cmd_write_not_compressed` -/
def Codeword.isFullWrite (w : Codeword) : Bool := w.extractLsb' 33 3 == 3#3

/-- `{ i_word[32:31], i_word[29:24] }`, how far back in the table a compressed write
reaches. -/
def Codeword.tableOffset (w : Codeword) : BitVec 8 := w.extractLsb' 31 2 ++ w.extractLsb' 24 6

/-- `r_addr` -/
def expandAddr (w : Codeword) : BitVec 25 :=
  let n : Bool := w.getLsbD 29
  match w.extractLsb' 30 3 with
  | 0#3 => 0#19 ++ w.extractLsb' 24 6
  | 2#3 => 0#13 ++ w.extractLsb' 18 12
  | 4#3 => 0#7 ++ w.extractLsb' 12 18
  | 6#3 => 0#1 ++ w.extractLsb' 6 24
  | 1#3 => BitVec.fill 19 n ++ w.extractLsb' 24 6
  | 3#3 => BitVec.fill 13 n ++ w.extractLsb' 18 12
  | 5#3 => BitVec.fill 7 n ++ w.extractLsb' 12 18
  | _ => BitVec.fill 1 n ++ w.extractLsb' 6 24

/-- `rd_len` -/
def expandLen (w : Codeword) : BitVec 10 :=
  if !w.getLsbD 34 then 1#10 + (0#7 ++ w.extractLsb' 31 3)
  else 9#10 + (0#1 ++ w.extractLsb' 31 3 ++ w.extractLsb' 24 6)

/-- `o_word`, from the codeword, its address, its length and the word in the table. -/
def expand (r_word : Codeword) (r_addr : BitVec 25) (rd_len : BitVec 10) (cword : BitVec 32) :
    Codeword :=
  let w_addr : BitVec 32 := BitVec.fill 7 r_addr.msb ++ r_addr
  if r_word.extractLsb' 30 6 = 0x2e#6 then r_word
  else if r_word.extractLsb' 33 3 = 1#3 then
    if !r_word.getLsbD 30 then 0#4 ++ w_addr
    else 1#3 ++ w_addr.extractLsb' 30 2 ++ 1#1 ++ w_addr.extractLsb' 0 30
  else if r_word.extractLsb' 33 3 = 2#3 then
    3#3 ++ cword.extractLsb' 30 2 ++ r_word.extractLsb' 30 1 ++ cword.extractLsb' 0 30
  else if r_word.getLsbD 35 then 24#5 ++ r_word.extractLsb' 30 1 ++ 0#20 ++ rd_len
  else r_word

/-- The table of the words written in full, and where the next one goes. -/
structure Table where
  wrAddr : BitVec 8
  tbl : BitVec 8 → BitVec 32

namespace Table

/-- The table after a codeword: every codeword leaves its data at `wr_addr`, and a full
write moves on. -/
def next (t : Table) (w : Codeword) : Table where
  wrAddr := if w.isFullWrite then t.wrAddr + 1 else t.wrAddr
  tbl := Function.update t.tbl t.wrAddr w.codData

theorem next_tbl (t : Table) (w : Codeword) :
  (t.next w).tbl = Function.update t.tbl t.wrAddr w.codData
  := rfl

/-- The codeword let out for the codeword `w`. -/
def out (t : Table) (w : Codeword) : Codeword :=
  expand w (expandAddr w) (expandLen w) ((t.next w).tbl (t.wrAddr - w.tableOffset))

/-- The table after some codewords. -/
def nextAll (t : Table) (ws : List Codeword) : Table := ws.foldl next t

/-- The codewords let out for some codewords. -/
def outAll (t : Table) : List Codeword → List Codeword
  | [] => []
  | w :: ws => t.out w :: (t.next w).outAll ws

theorem nextAll_append (t : Table) (ws ws' : List Codeword) :
  t.nextAll (ws ++ ws') = (t.nextAll ws).nextAll ws'
  := List.foldl_append

theorem outAll_append (t : Table) (ws ws' : List Codeword) :
  t.outAll (ws ++ ws') = t.outAll ws ++ (t.nextAll ws).outAll ws'
  := by
  induction ws generalizing t with
  | nil => rfl
  | cons w ws ih =>
      rw [List.cons_append, outAll, outAll, ih, List.cons_append]
      rfl

/-- The table with everything in it moved on by `d` places. -/
def rotate (t : Table) (d : BitVec 8) : Table where
  wrAddr := t.wrAddr + d
  tbl x := t.tbl (x - d)

theorem rotate_next (t : Table) (d : BitVec 8) (w : Codeword) :
  (t.rotate d).next w = (t.next w).rotate d
  := by
  have hplace : ∀ x, x = t.wrAddr + d ↔ x - d = t.wrAddr := fun x => sub_eq_iff_eq_add.symm
  rw [next, next, rotate, rotate]
  congr 1
  · split
    · rw [BitVec.add_assoc, BitVec.add_assoc, BitVec.add_comm d]
    · rfl
  · funext x
    simp only [Function.update_apply, hplace]

/-- Offsets are counted from `wr_addr`, so it does not matter where that is. -/
theorem rotate_out (t : Table) (d : BitVec 8) (w : Codeword) :
  (t.rotate d).out w = t.out w
  := by
  have hplace : t.wrAddr + d - w.tableOffset - d = t.wrAddr - w.tableOffset := by
    rw [sub_right_comm, add_sub_cancel_right]
  rw [out, out, rotate_next, rotate, rotate]
  simp only [hplace]

theorem rotate_outAll (t : Table) (d : BitVec 8) (ws : List Codeword) :
  (t.rotate d).outAll ws = t.outAll ws
  := by
  induction ws generalizing t with
  | nil => rfl
  | cons w ws ih => rw [outAll, outAll, rotate_out, rotate_next, ih]

end Table

/-! ### The pipeline -/

/-- The registers of `wbudecompress`. -/
structure Wbudecompress where
  table : Table
  rWord : Codeword
  cmdAddr : BitVec 8
  rAddr : BitVec 25
  rdLen : BitVec 10
  cword : BitVec 32
  rStb : BitVec 3
  oStb : Bool
  oWord : Codeword

namespace Wbudecompress

/-- The registers that have an initial value. -/
structure Initial (s : Wbudecompress) : Prop where
  wrAddr : s.table.wrAddr = 0
  rStb : s.rStb = 0
  oStb : s.oStb = false

/-- One clock of `wbudecompress`, given the codeword that comes in, if any. -/
def step (s : Wbudecompress) (i : Option Codeword) : Wbudecompress where
  table :=
    match i with
    | some w => s.table.next w
    | none => s.table
  rWord := i.getD s.rWord
  cmdAddr :=
    match i with
    | some w => s.table.wrAddr - w.tableOffset
    | none => s.cmdAddr
  rAddr :=
    match i with
    | some w => expandAddr w
    | none => s.rAddr
  rdLen :=
    match i with
    | some w => expandLen w
    | none => s.rdLen
  cword := s.table.tbl s.cmdAddr
  rStb := s.rStb.extractLsb' 0 2 ++ BitVec.ofBool i.isSome
  oStb := s.rStb.getLsbD 2
  oWord := expand s.rWord s.rAddr s.rdLen s.cword

/-- The codeword that is on its way, if any. -/
def pending (s : Wbudecompress) : List Codeword :=
  if s.oStb then [s.oWord]
  else if s.rStb = 0#3 then []
  else [expand s.rWord s.rAddr s.rdLen (s.table.tbl s.cmdAddr)]

/-- The codeword let out at a clock. -/
def emitted (s : Wbudecompress) : List Codeword := if s.oStb then [s.oWord] else []

/-- At most one codeword is on its way, and it has been looked up in the table from its
second clock on. -/
structure Inv (s : Wbudecompress) : Prop where
  oneHot : s.rStb = 0#3 ∨ s.rStb = 1#3 ∨ s.rStb = 2#3 ∨ s.rStb = 4#3
  alone : s.oStb = true → s.rStb = 0#3
  cword : s.rStb = 2#3 ∨ s.rStb = 4#3 → s.cword = s.table.tbl s.cmdAddr

variable {s : Wbudecompress}

theorem Initial.inv (h : s.Initial) :
  s.Inv
  := by
  constructor
  · left
    apply h.rStb
  · intro _
    apply h.rStb
  · rw [h.rStb]
    simp

theorem Initial.pending (h : s.Initial) :
  s.pending = []
  := by
  have hr := h.rStb
  simp [Wbudecompress.pending, h.oStb, hr]

/-- Past its last lookup a codeword is let out. -/
theorem emitted_of_rStb (hr : s.rStb = 0#3) :
  s.emitted = s.pending
  := by simp [emitted, pending, hr]

/-- A codeword that comes in while none is on its way. -/
theorem step_some (hr : s.rStb = 0#3) (w : Codeword) :
  (s.step (some w)).Inv ∧ (s.step (some w)).table = s.table.next w
    ∧ (s.step (some w)).pending = [s.table.out w]
  := by
  refine ⟨?_, rfl, ?_⟩
  · constructor <;> simp [step, hr]
  · simp [pending, step, hr, Table.out]

/-- A clock without a codeword: the one on its way comes closer, or is let out. -/
theorem step_none (h : s.Inv) :
  (s.step none).Inv ∧ (s.step none).table = s.table
    ∧ s.emitted ++ (s.step none).pending = s.pending
  := by
  have halone := h.alone
  have hcword := h.cword
  refine ⟨?_, rfl, ?_⟩
  · rcases h.oneHot with hr | hr | hr | hr <;> constructor <;> simp [step, hr]
  · rcases h.oneHot with hr | hr | hr | hr
    · cases hstb : s.oStb <;> simp [emitted, pending, step, hr, hstb]
    · have hstb : s.oStb = false := by simpa [hr] using halone
      simp [emitted, pending, step, hr, hstb]
    · have hstb : s.oStb = false := by simpa [hr] using halone
      simp [emitted, pending, step, hr, hstb]
    · have hstb : s.oStb = false := by simpa [hr] using halone
      simp [emitted, pending, step, hr, hstb, hcword]

/-- Without a new codeword the strobe moves on. -/
theorem step_none_rStb (h : s.Inv) :
  (s.step none).rStb ≠ 1#3
    ∧ ((s.step none).rStb = 2#3 → s.rStb = 1#3)
    ∧ ((s.step none).rStb = 4#3 → s.rStb = 2#3)
    ∧ ((s.step none).oStb = true → s.rStb = 4#3)
    ∧ (s.rStb = 0#3 → (s.step none).rStb = 0#3)
    ∧ (s.rStb = 4#3 → (s.step none).rStb = 0#3)
  := by rcases h.oneHot with hr | hr | hr | hr <;> simp [step, hr]

theorem step_some_rStb (hr : s.rStb = 0#3) (w : Codeword) :
  (s.step (some w)).rStb = 1#3 ∧ (s.step (some w)).oStb = false
  := by simp [step, hr]

/-! ### Codewords five clocks apart -/

/-- No codeword is on its way. -/
structure Idle (s : Wbudecompress) : Prop where
  rStb : s.rStb = 0
  oStb : s.oStb = false

/-- Codewords are at least five clocks apart. -/
def Spaced (inp : ℕ → Option Codeword) : Prop :=
  ∀ m n, m < n → (inp m).isSome = true → (inp n).isSome = true → m + 5 ≤ n

/-- The codewords taken in before clock `n`. -/
def taken (inp : ℕ → Option Codeword) (n : ℕ) : List Codeword := log (fun k => (inp k).toList) n

/-- The codewords let out before clock `n`. -/
def letOut (s₀ : Wbudecompress) (inp : ℕ → Option Codeword) (n : ℕ) : List Codeword :=
  log (fun k => (run step s₀ inp k).emitted) n

/-- What holds at clock `n`, when the codewords `ws` have been let out: where the strobe is
tells when the codeword on its way came in. -/
structure Follows (t₀ : Table) (inp : ℕ → Option Codeword) (n : ℕ) (ws : List Codeword)
    (s : Wbudecompress) : Prop where
  inv : s.Inv
  table : s.table = t₀.nextAll (taken inp n)
  out : ws ++ s.pending = t₀.outAll (taken inp n)
  rStb : s.rStb = 1#3 → ∃ m, n = m + 1 ∧ (inp m).isSome = true
  rStb' : s.rStb = 2#3 → ∃ m, n = m + 2 ∧ (inp m).isSome = true
  rStb'' : s.rStb = 4#3 → ∃ m, n = m + 3 ∧ (inp m).isSome = true
  oStb : s.oStb = true → ∃ m, n = m + 4 ∧ (inp m).isSome = true

variable {t₀ : Table} {inp : ℕ → Option Codeword} {n : ℕ} {ws : List Codeword}

theorem Idle.follows (h : s.Idle) :
  s.Follows s.table inp 0 []
  := by
  have hr := h.rStb
  constructor
  · constructor <;> simp [hr]
  · rfl
  · simp [pending, h.oStb, hr, taken, Table.outAll]
  · simp [hr]
  · simp [hr]
  · simp [hr]
  · simp [h.oStb]

/-- Four clocks after a codeword, and later, none is on its way. -/
theorem Follows.rStb_eq_zero (h : s.Follows t₀ inp n ws)
    (hlong : ∀ m < n, (inp m).isSome = true → m + 4 ≤ n) :
  s.rStb = 0#3
  := by
  rcases h.inv.oneHot with hr | hr | hr | hr
  · apply hr
  · obtain ⟨m, rfl, hm⟩ := h.rStb hr
    have := hlong m (by omega) hm
    omega
  · obtain ⟨m, rfl, hm⟩ := h.rStb' hr
    have := hlong m (by omega) hm
    omega
  · obtain ⟨m, rfl, hm⟩ := h.rStb'' hr
    have := hlong m (by omega) hm
    omega

theorem Follows.step (h : s.Follows t₀ inp n ws) (hspaced : Spaced inp) :
  (s.step (inp n)).Follows t₀ inp (n + 1) (ws ++ s.emitted)
  := by
  cases hin : inp n with
  | some w =>
      have hr : s.rStb = 0#3 := by
        apply h.rStb_eq_zero
        intro m hm hsome
        have := hspaced m n hm hsome (by simp [hin])
        omega
      have htaken : taken inp (n + 1) = taken inp n ++ [w] := by simp [taken, log_succ, hin]
      have hemit : s.emitted = s.pending := emitted_of_rStb hr
      obtain ⟨hinv, htable, hout⟩ := step_some hr w
      obtain ⟨hone, hlet⟩ := step_some_rStb hr w
      constructor
      · apply hinv
      · rw [htable, h.table, htaken, Table.nextAll_append]
        rfl
      · rw [hemit, h.out, hout, h.table, htaken, Table.outAll_append]
        rfl
      · intro _
        use n, rfl
        simp [hin]
      · simp [hone]
      · simp [hone]
      · simp [hlet]
  | none =>
      have htaken : taken inp (n + 1) = taken inp n := by simp [taken, log_succ, hin]
      obtain ⟨hinv, htable, hout⟩ := step_none h.inv
      obtain ⟨hone, htwo, hfour, hlet, -, -⟩ := step_none_rStb h.inv
      constructor
      · apply hinv
      · rw [htable, h.table, htaken]
      · rw [List.append_assoc, hout, htaken, h.out]
      · intro hr
        cases hone hr
      · intro hr
        obtain ⟨m, rfl, hm⟩ := h.rStb (htwo hr)
        use m
      · intro hr
        obtain ⟨m, rfl, hm⟩ := h.rStb' (hfour hr)
        use m
      · intro hs
        obtain ⟨m, rfl, hm⟩ := h.rStb'' (hlet hs)
        use m

theorem run_follows {s₀ : Wbudecompress} (h₀ : s₀.Idle) (hspaced : Spaced inp) (n : ℕ) :
  (run Wbudecompress.step s₀ inp n).Follows s₀.table inp n (letOut s₀ inp n)
  := by
  induction n with
  | zero => apply h₀.follows
  | succ n ih => apply ih.step hspaced

/-- Four clocks after the last codeword all of them have been let out, expanded one after
the other. -/
theorem letOut_eq {s₀ : Wbudecompress} (h₀ : s₀.Idle) (hspaced : Spaced inp) {N : ℕ}
    (hend : ∀ n, N ≤ n → inp n = none) (hn : N + 4 ≤ n) :
  letOut s₀ inp n = s₀.table.outAll (taken inp n)
  := by
  have h := run_follows h₀ hspaced n
  have hlast : ∀ m, (inp m).isSome = true → m < N := by
    intro m hm
    by_contra hle
    simp [hend m (by omega)] at hm
  have hr := h.rStb_eq_zero (fun m _ hm => by have := hlast m hm; omega)
  have hs : (run Wbudecompress.step s₀ inp n).oStb = false := by
    by_contra hs
    obtain ⟨m, hm, hsome⟩ := h.oStb (by simpa using hs)
    have := hlast m hsome
    omega
  have hnone : (run Wbudecompress.step s₀ inp n).pending = [] := by simp [pending, hr, hs]
  rw [← h.out, hnone, List.append_nil]

end Wbudecompress

end ZBasic
