import Mathlib.Order.WellFounded
import ZBasic.Wbxbar.Wbxbar

/-!
# What the crossbar grants

A slave is granted to one master at most, and a master has one slave at most. The other registers
of the arbitration agree with what is granted, whatever the masters and the slaves do.
-/

namespace ZBasic

open Clocked Wishbone

/-! ### Numbers of bits -/

/-- The number of the only bit that is set. -/
theorem Wbxbar.orOf_eq {n : ℕ} {f : Fin n → Bool} {k : Fin n} (hk : f k = true)
    (honly : ∀ j, f j = true → j = k) :
  orOf f = k
  := by
  have hall : ∀ (l : List (Fin n)) (index : ℕ), (∀ j ∈ l, j = k) → l ≠ [] →
      l.foldl (fun (index : ℕ) (j : Fin n) => index ||| j) index = index ||| (k : ℕ) := by
    intro l
    induction l with
    | nil =>
        intro index _ hne
        contradiction
    | cons j l ih =>
        intro index hl _
        have hj := hl j List.mem_cons_self
        rw [List.foldl_cons, hj]
        cases l with
        | nil => rfl
        | cons j' l =>
            rw [ih _ (fun m hm => hl m (List.mem_cons_of_mem j hm)) (List.cons_ne_nil j' l),
              Nat.or_assoc, Nat.or_self]
  rw [orOf, hall, Nat.zero_or]
  · intro j hj
    apply honly j (List.mem_filter.mp hj).2
  · apply List.ne_nil_of_mem
    apply List.mem_filter.mpr ⟨List.mem_finRange k, hk⟩

namespace Wbxbar

variable {nm ns aw dw lg : ℕ} [NeZero ns] {A : AddressMap ns aw}

/-- The registers of the arbitration agree. -/
structure Grants (A : AddressMap ns aw) (p : Wbxbar nm ns aw dw lg) : Prop where
  decoded : ∀ n, p.dcdStb n = true → (p.adcd n).oDecode = A.decode (p.m n).addr
  oneHot : ∀ n, (p.grant n).OneHot
  mgrant : ∀ n, p.mgrant n = true ↔ (∃ s, (p.grant n).slave s = true) ∨ (p.grant n).none = true
  sgrant : ∀ s, p.sgrant s = true ↔ ∃ n, (p.grant n).slave s = true
  unique : ∀ n n' s, (p.grant n).slave s = true → (p.grant n').slave s = true → n = n'
  mindex : ∀ n s, (p.grant n).slave s = true → p.mindex n = s
  sindex : ∀ n s, (p.grant n).slave s = true → p.sindex s = n
  /-- A master that waits for as many answers as can be counted has a grant. -/
  mfull : ∀ n, p.mfull n = true → p.mgrant n = true ∧ p.mempty n = false

section Step

variable {p : Wbxbar nm ns aw dw lg} {i : Input nm ns aw dw} {n : Fin nm} {s : Fin ns}

/-! ### Requests -/

omit [NeZero ns] in
theorem iMcyc_of_request (hrequest : (p.request i n).slave s = true) :
  i.iMcyc n = true ∧ p.dcdStb n = true
  := by
  rw [request] at hrequest
  split_ifs at hrequest with hcyc
  · rw [Bool.and_eq_true] at hcyc
    apply hcyc
  · cases hrequest

theorem Grants.request_oneHot (h : p.Grants A) (hdisjoint : A.Disjoint) (n : Fin nm) :
  (p.request i n).OneHot
  := by
  rw [request]
  split_ifs with hcyc
  · rw [Bool.and_eq_true] at hcyc
    rw [h.decoded n hcyc.2]
    apply hdisjoint.oneHot
  · apply Selection.oneHot_zero

/-- The slave that a request is for is the one its address is decoded to. -/
theorem Grants.decode_of_request (h : p.Grants A) (hrequest : (p.request i n).slave s = true) :
  (A.decode (p.m n).addr).slave s = true
  := by
  obtain ⟨hcyc, hstb⟩ := iMcyc_of_request hrequest
  rw [request, hcyc, hstb, Bool.and_self, if_pos rfl, h.decoded n hstb] at hrequest
  apply hrequest

omit [NeZero ns] in
/-- A master asks for a slave, and may have it. -/
theorem requested_eq_true :
  p.requested i n s = true ↔ ∃ k < n, (p.request i k).slave s = true
    ∧ ((p.grant k).slave s = true ∨ p.movable k = true)
  := by
  simp only [requested, List.any_eq_true, List.mem_finRange, true_and, Bool.and_eq_true,
    decide_eq_true_eq, Bool.or_eq_true, and_assoc]

theorem Grants.movable_of_not_full (h : p.Grants A) (hmovable : p.movable n = true) :
  p.mfull n = false
  := by
  cases hfull : p.mfull n with
  | false => rfl
  | true =>
      obtain ⟨hgrant, hempty⟩ := h.mfull n hfull
      rw [movable, hgrant, hempty] at hmovable
      contradiction

/-! ### Grants -/

/-- A slave stays granted to a master while it is waiting for an answer, asks for the slave again or
asks for none. -/
def Keeps (p : Wbxbar nm ns aw dw lg) (i : Input nm ns aw dw) (n : Fin nm) (s : Fin ns) : Prop :=
  (p.grant n).slave s = true
    ∧ ((p.request i n).slave s = true ∨ p.movable n = false ∨ p.mStb i n = false)

/-- A slave that is free is granted to the first master that asks for it. -/
def Gains (p : Wbxbar nm ns aw dw lg) (i : Input nm ns aw dw) (n : Fin nm) (s : Fin ns) : Prop :=
  p.sgrant s = false ∧ (p.request i n).slave s = true ∧ p.requested i n s = false
    ∧ p.movable n = true

omit [NeZero ns] in
theorem not_movable :
  (p.mgrant n && !p.mempty n) = !p.movable n
  := by
  rw [movable]
  cases p.mgrant n <;> cases p.mempty n <;> rfl

omit [NeZero ns] in
/-- Why a grant is kept. -/
theorem stayOnChannel_eq_true :
  p.stayOnChannel i n = true
    ↔ (∃ s, (p.request i n).slave s = true ∧ (p.grant n).slave s = true)
      ∨ ((p.request i n).none = true ∧ (p.grant n).none = true) ∨ p.movable n = false
  := by
  simp only [stayOnChannel, not_movable, Bool.or_eq_true, List.any_eq_true, List.mem_finRange,
    true_and, Bool.and_eq_true, Bool.not_eq_true', or_assoc]

omit [NeZero ns] in
/-- Where a request is granted there is one. -/
theorem mStb_of_available (hfull : p.mfull n = false)
    (havailable : p.requestedChannelIsAvailable i n = true) :
  p.mStb i n = true
  := by
  rw [requestedChannelIsAvailable] at havailable
  split_ifs at havailable
  · apply havailable
  · have hcyc : (i.iMcyc n && p.dcdStb n) = true := by
      by_contra hnot
      rw [request, if_neg hnot] at havailable
      simp [Selection.zero] at havailable
    rw [mStb, hfull, if_neg Bool.false_ne_true, hcyc]

/-- A master whose request is for one slave goes on to that one if it is free. -/
theorem Grants.available_iff (h : p.Grants A) (hdisjoint : A.Disjoint)
    (hrequest : (p.request i n).slave s = true) (hgrant : (p.grant n).slave s = false)
    (hmovable : p.movable n = true) :
  p.requestedChannelIsAvailable i n = true ↔ p.sgrant s = false ∧ p.requested i n s = false
  := by
  have honehot := h.request_oneHot (i := i) hdisjoint n
  rw [requestedChannelIsAvailable]
  split_ifs with hnm
  · -- With one master the slave is free.
    obtain ⟨hcyc, hstb⟩ := iMcyc_of_request hrequest
    constructor
    · intro _
      constructor
      · by_contra hs
        rw [Bool.not_eq_false, h.sgrant] at hs
        obtain ⟨k, hk⟩ := hs
        have : k = n := by omega
        rw [this, hgrant] at hk
        contradiction
      · by_contra hprior
        rw [Bool.not_eq_false, requested_eq_true] at hprior
        obtain ⟨k, hk, -⟩ := hprior
        omega
    · intro _
      rw [mStb, h.movable_of_not_full hmovable, if_neg Bool.false_ne_true, hcyc, hstb,
        Bool.and_self]
  · rw [honehot.none s hrequest, Bool.false_or, List.any_eq_true]
    constructor
    · rintro ⟨k, -, hk⟩
      rw [Bool.and_eq_true, Bool.and_eq_true, Bool.not_eq_true', Bool.not_eq_true'] at hk
      rw [← honehot.eq k s hk.1.1 hrequest]
      exact ⟨hk.1.2, hk.2⟩
    · rintro ⟨hfree, hfirst⟩
      use s, List.mem_finRange s
      rw [hrequest, hfree, hfirst]
      rfl

/-- A master keeps a slave that it asks for or waits for. -/
theorem Grants.stays_iff (h : p.Grants A) (hgrant : (p.grant n).slave s = true) :
  p.stayOnChannel i n = true ↔ (p.request i n).slave s = true ∨ p.movable n = false
  := by
  rw [stayOnChannel_eq_true]
  constructor
  · rintro (⟨s', hrequest, hgrant'⟩ | ⟨-, hnone⟩ | hmovable)
    · left
      rw [(h.oneHot n).eq s s' hgrant hgrant']
      apply hrequest
    · rw [(h.oneHot n).none s hgrant] at hnone
      contradiction
    · right
      apply hmovable
  · rintro (hrequest | hmovable)
    · left
      use s
    · right
      right
      apply hmovable

/-- A master that asks for another slave, and does not wait for an answer, moves on. -/
theorem Grants.moves (h : p.Grants A) (hdisjoint : A.Disjoint)
    (hrequest : (p.request i n).slave s = true) (hgrant : (p.grant n).slave s = false)
    (hmovable : p.movable n = true) :
  p.stayOnChannel i n = false
  := by
  have honehot := h.request_oneHot (i := i) hdisjoint n
  by_contra hstay
  rw [Bool.not_eq_false, stayOnChannel_eq_true] at hstay
  rcases hstay with ⟨s', hrequest', hgrant'⟩ | ⟨hnone, -⟩ | hwaits
  · rw [honehot.eq s' s hrequest' hrequest, hgrant] at hgrant'
    contradiction
  · rw [honehot.none s hrequest] at hnone
    contradiction
  · rw [hmovable] at hwaits
    contradiction

/-- What is granted after a clock. -/
theorem Grants.grant_step (h : p.Grants A) (hdisjoint : A.Disjoint) :
  ((p.step i A).grant n).slave s = true
    ↔ (i.iReset = false ∧ i.iMcyc n = true) ∧ (p.Keeps i n s ∨ p.Gains i n s)
  := by
  simp only [step]
  by_cases hcyc : (i.iReset || !i.iMcyc n) = true
  · rw [if_pos hcyc]
    constructor
    · intro hnot
      cases hnot
    · rintro ⟨⟨hreset, hup⟩, -⟩
      rw [hreset, hup] at hcyc
      contradiction
  · have hup : i.iReset = false ∧ i.iMcyc n = true := by simpa using hcyc
    rw [if_neg hcyc, and_iff_right hup]
    cases hgrant : (p.grant n).slave s with
    | true =>
        have hbusy : ¬ p.Gains i n s := by
          rintro ⟨hfree, -⟩
          rw [(h.sgrant s).mpr ⟨n, hgrant⟩] at hfree
          contradiction
        rw [or_iff_left hbusy, Keeps, and_iff_right hgrant]
        by_cases hstay : p.stayOnChannel i n = true
        · rw [if_pos hstay, iff_true_left hgrant, ← or_assoc]
          left
          apply (h.stays_iff hgrant).mp hstay
        · rw [if_neg hstay]
          rw [h.stays_iff hgrant, not_or, Bool.not_eq_true, Bool.not_eq_false] at hstay
          obtain ⟨hrequest, hmovable⟩ := hstay
          have hmstb := mStb_of_available (i := i) (h.movable_of_not_full hmovable)
          rw [hrequest, hmovable]
          by_cases havailable : p.requestedChannelIsAvailable i n = true
          · rw [if_pos havailable, hrequest, hmstb havailable]
            simp
          · rw [if_neg havailable]
            cases hstb : p.mStb i n <;> simp [hgrant, Selection.zero]
    | false =>
        have hlost : ¬ p.Keeps i n s := by
          rintro ⟨hnot, -⟩
          rw [hgrant] at hnot
          contradiction
        rw [or_iff_right hlost]
        by_cases hgains : p.Gains i n s
        · obtain ⟨hfree, hrequest, hfirst, hmovable⟩ := hgains
          rw [h.moves hdisjoint hrequest hgrant hmovable, if_neg Bool.false_ne_true,
            if_pos ((h.available_iff hdisjoint hrequest hgrant hmovable).mpr ⟨hfree, hfirst⟩),
            iff_true_left hrequest]
          exact ⟨hfree, hrequest, hfirst, hmovable⟩
        · rw [iff_false_right hgains]
          intro hnext
          split_ifs at hnext with hstay havailable hstb
          · rw [hgrant] at hnext
            contradiction
          · have hmovable : p.movable n = true := by
              by_contra hnot
              rw [Bool.not_eq_true] at hnot
              apply hstay
              rw [stayOnChannel_eq_true]
              right
              right
              apply hnot
            obtain ⟨hfree, hfirst⟩ :=
              (h.available_iff hdisjoint hnext hgrant hmovable).mp havailable
            apply hgains ⟨hfree, hnext, hfirst, hmovable⟩
          · cases hnext
          · rw [hgrant] at hnext
            contradiction

/-! ### A clock -/

theorem Grants.oneHot_step (h : p.Grants A) (hdisjoint : A.Disjoint) :
  ((p.step i A).grant n).OneHot
  := by
  simp only [step]
  split_ifs
  · apply Selection.oneHot_zero
  · apply h.oneHot
  · apply h.request_oneHot hdisjoint
  · apply Selection.oneHot_zero
  · apply h.oneHot

/-- A master that gets what it asks for asks for a slave or for none. -/
theorem Grants.request_total (h : p.Grants A)
    (havailable : p.requestedChannelIsAvailable i n = true) :
  (∃ s, (p.request i n).slave s = true) ∨ (p.request i n).none = true
  := by
  rw [requestedChannelIsAvailable] at havailable
  split_ifs at havailable
  · rw [mStb] at havailable
    split_ifs at havailable
    rw [request, if_pos havailable, h.decoded n (Bool.and_eq_true_iff.mp havailable).2]
    apply AddressMap.decode_total
  · rw [Bool.or_eq_true, List.any_eq_true] at havailable
    rcases havailable with hnone | ⟨s, -, hs⟩
    · right
      apply hnone
    · left
      use s
      rw [Bool.and_eq_true, Bool.and_eq_true] at hs
      apply hs.1.1

theorem Grants.mgrant_step (h : p.Grants A) :
  (p.step i A).mgrant n = true ↔ (∃ s, ((p.step i A).grant n).slave s = true)
    ∨ ((p.step i A).grant n).none = true
  := by
  have hzero : ¬ ((∃ s, (Selection.zero : Selection ns).slave s = true)
      ∨ (Selection.zero : Selection ns).none = true) := by
    simp [Selection.zero]
  simp only [step]
  split_ifs with hcyc hstay havailable hstb
  · rw [iff_false_right hzero]
    apply not_false
  · apply h.mgrant
  · rw [iff_true_left rfl]
    apply h.request_total havailable
  · rw [iff_false_right hzero]
    apply not_false
  · apply h.mgrant

/-- A slave has been granted if it is free no more. -/
theorem Grants.exists_gains (h : p.Grants A) (hfree : p.sgrant s = false)
    (hasked : ∃ n, (p.request i n).slave s = true ∧ p.movable n = true) :
  ∃ n, p.Gains i n s
  := by
  obtain ⟨n, ⟨hrequest, hmovable⟩, hmin⟩ :=
    wellFounded_lt.has_min {n | (p.request i n).slave s = true ∧ p.movable n = true} hasked
  use n, hfree, hrequest
  constructor
  · by_contra hprior
    rw [Bool.not_eq_false, requested_eq_true] at hprior
    obtain ⟨k, hlt, hk, hgrant | hk'⟩ := hprior
    · rw [(h.sgrant s).mpr ⟨k, hgrant⟩] at hfree
      contradiction
    · apply hmin k ⟨hk, hk'⟩ hlt
  · apply hmovable

/-- What the master of a slave does about it. -/
theorem Grants.dropSgrant_eq_false (h : p.Grants A) (hgrant : (p.grant n).slave s = true) :
  p.dropSgrant i s = false ↔ (i.iReset = false ∧ i.iMcyc n = true) ∧ p.Keeps i n s
  := by
  have hsgrant := (h.sgrant s).mpr ⟨n, hgrant⟩
  have hmgrant := (h.mgrant n).mpr (Or.inl ⟨s, hgrant⟩)
  rw [dropSgrant, hsgrant, h.sindex n s hgrant, Keeps, and_iff_right hgrant, movable, hmgrant]
  simp only [entry_val]
  cases i.iReset <;> cases i.iMcyc n <;> cases (p.request i n).slave s <;> cases p.mStb i n <;>
    cases p.mempty n <;> simp

theorem Grants.sgrant_step (h : p.Grants A) (hdisjoint : A.Disjoint) :
  (p.step i A).sgrant s = true ↔ ∃ n, ((p.step i A).grant n).slave s = true
  := by
  simp only [h.grant_step hdisjoint]
  simp only [step]
  cases hsgrant : p.sgrant s with
  | true =>
      obtain ⟨n, hgrant⟩ := (h.sgrant s).mp hsgrant
      have hdrop := h.dropSgrant_eq_false (i := i) hgrant
      constructor
      · intro hnext
        use n
        split_ifs at hnext with hdropped
        all_goals
          rw [Bool.not_eq_true, hdrop] at hdropped
          exact ⟨hdropped.1, Or.inl hdropped.2⟩
      · rintro ⟨n', hcyc, hkeeps | hgains⟩
        · obtain rfl := h.unique n' n s hkeeps.1 hgrant
          rw [hdrop.mpr ⟨hcyc, hkeeps⟩, if_neg Bool.false_ne_true]
          split_ifs <;> rfl
        · rw [hgains.1] at hsgrant
          contradiction
  | false =>
      have hdrop : p.dropSgrant i s = i.iReset := by
        rw [dropSgrant, hsgrant]
        cases i.iReset <;> rfl
      rw [hdrop]
      constructor
      · intro hnext
        split_ifs at hnext with hreset hasked
        simp only [List.any_eq_true, List.mem_finRange, true_and, Bool.and_eq_true] at hasked
        obtain ⟨n, hgains⟩ := h.exists_gains hsgrant hasked
        rw [Bool.not_eq_true] at hreset
        exact ⟨n, ⟨hreset, (iMcyc_of_request hgains.2.1).1⟩, Or.inr hgains⟩
      · rintro ⟨n, ⟨hreset, -⟩, hkeeps | hgains⟩
        · have := (h.sgrant s).mpr ⟨n, hkeeps.1⟩
          rw [hsgrant] at this
          contradiction
        · rw [hreset, if_neg Bool.false_ne_true, if_pos]
          rw [List.any_eq_true]
          use n, List.mem_finRange n
          rw [hgains.2.1, hgains.2.2.2, Bool.and_self]

omit [NeZero ns] in
/-- Only the first master that asks for a slave gets it. -/
theorem Gains.eq {n' : Fin nm} (hn : p.Gains i n s) (hn' : p.Gains i n' s) :
  n = n'
  := by
  have hfirst : ∀ k k', p.Gains i k s → p.Gains i k' s → ¬ k < k' := by
    intro k k' hk hk' hlt
    have hprior : p.requested i k' s = true := by
      rw [requested_eq_true]
      exact ⟨k, hlt, hk.2.1, Or.inr hk.2.2.2⟩
    rw [hk'.2.2.1] at hprior
    contradiction
  rcases lt_trichotomy n n' with hlt | heq | hgt
  · cases hfirst n n' hn hn' hlt
  · apply heq
  · cases hfirst n' n hn' hn hgt

theorem Grants.unique_step (h : p.Grants A) (hdisjoint : A.Disjoint) {n' : Fin nm}
    (hn : ((p.step i A).grant n).slave s = true) (hn' : ((p.step i A).grant n').slave s = true) :
  n = n'
  := by
  rw [h.grant_step hdisjoint] at hn hn'
  obtain ⟨-, hkeeps | hgains⟩ := hn
  · obtain ⟨-, hkeeps' | hgains'⟩ := hn'
    · apply h.unique n n' s hkeeps.1 hkeeps'.1
    · have := (h.sgrant s).mpr ⟨n, hkeeps.1⟩
      rw [hgains'.1] at this
      contradiction
  · obtain ⟨-, hkeeps' | hgains'⟩ := hn'
    · have := (h.sgrant s).mpr ⟨n', hkeeps'.1⟩
      rw [hgains.1] at this
      contradiction
    · apply hgains.eq hgains'

omit [NeZero ns] in
theorem regrantSlave_eq_true :
  p.regrantSlave i n s = true
    ↔ ((p.grant n).slave s = true ∨ p.sgrant s = false ∧ p.requested i n s = false)
      ∧ (p.request i n).slave s = true ∧ p.movable n = true
  := by
  rw [regrantSlave, not_movable]
  simp [and_assoc]

omit [NeZero ns] in
theorem Gains.regrantSlave (h : p.Gains i n s) :
  p.regrantSlave i n s = true
  := by
  rw [regrantSlave_eq_true]
  exact ⟨Or.inr ⟨h.1, h.2.2.1⟩, h.2.1, h.2.2.2⟩

/-- A slave that a master keeps without asking for it again is not granted once more. -/
theorem Grants.regrant_or (h : p.Grants A) (hkeeps : p.Keeps i n s) :
  p.regrantSlave i n s = true
    ∨ ∀ s', (p.request i n).slave s' = true → p.movable n = false
  := by
  obtain ⟨hgrant, hrequest | hmovable | hstb⟩ := hkeeps
  · cases hmovable : p.movable n with
    | true =>
        left
        rw [regrantSlave_eq_true]
        exact ⟨Or.inl hgrant, hrequest, hmovable⟩
    | false =>
        right
        intro _ _
        rfl
  · right
    intro _ _
    apply hmovable
  · right
    intro s' hrequest
    by_contra hmovable
    rw [Bool.not_eq_false] at hmovable
    obtain ⟨hcyc, hvalid⟩ := iMcyc_of_request hrequest
    rw [mStb, h.movable_of_not_full hmovable, if_neg Bool.false_ne_true, hcyc, hvalid] at hstb
    contradiction

/-- The number of the slave that a master is granted. -/
theorem Grants.mindex_step (h : p.Grants A) (hdisjoint : A.Disjoint)
    (hnext : ((p.step i A).grant n).slave s = true) :
  (p.step i A).mindex n = s
  := by
  have honehot := h.request_oneHot (i := i) hdisjoint n
  have hregrant : p.regrantSlave i n s = true → p.reindexSlave i n = s := by
    intro hs
    have hrequest := (regrantSlave_eq_true.mp hs).2.1
    have hany : (List.finRange ns).any (p.regrantSlave i n) = true :=
      List.any_eq_true.mpr ⟨s, List.mem_finRange s, hs⟩
    have hnone : p.regrantNone i n = false := by
      rw [regrantNone, honehot.none s hrequest, Bool.and_false, Bool.false_and]
    rw [reindexSlave, hany, hnone, Bool.true_or, if_pos rfl, if_neg Bool.false_ne_true,
      Nat.or_zero, orOf_eq hs]
    intro s' hs'
    apply honehot.eq s' s (regrantSlave_eq_true.mp hs').2.1 hrequest
  simp only [step]
  split_ifs with hns
  · have := s.isLt
    omega
  · rw [h.grant_step hdisjoint] at hnext
    obtain ⟨-, hkeeps | hgains⟩ := hnext
    · rcases h.regrant_or hkeeps with hs | hno
      · apply hregrant hs
      · have hany : (List.finRange ns).any (p.regrantSlave i n) = false := by
          rw [← Bool.not_eq_true, List.any_eq_true]
          rintro ⟨s', -, hs'⟩
          rw [regrantSlave_eq_true] at hs'
          rw [hno s' hs'.2.1] at hs'
          cases hs'.2.2
        have hnone : p.regrantNone i n = false := by
          rw [regrantNone, (h.oneHot n).none s hkeeps.1, Bool.false_and, Bool.false_and]
        rw [reindexSlave, hany, hnone, Bool.or_self, if_neg Bool.false_ne_true]
        apply h.mindex n s hkeeps.1
    · apply hregrant hgains.regrantSlave

/-- The number of the master that a slave is granted to. -/
theorem Grants.sindex_step (h : p.Grants A) (hdisjoint : A.Disjoint)
    (hnext : ((p.step i A).grant n).slave s = true) :
  (p.step i A).sindex s = n
  := by
  rw [h.grant_step hdisjoint] at hnext
  -- A master that is granted the slave now is the one that has it after the clock.
  have honly : ∀ n', p.regrantMaster i s n' = true → n' = n := by
    intro n' hn'
    obtain ⟨hor, hrequest, hmovable⟩ := regrantSlave_eq_true.mp hn'
    obtain ⟨-, hkeeps | hgains⟩ := hnext
    · rcases hor with hgrant | ⟨hfree, -⟩
      · apply h.unique n' n s hgrant hkeeps.1
      · have := (h.sgrant s).mpr ⟨n, hkeeps.1⟩
        rw [hfree] at this
        contradiction
    · rcases hor with hgrant | ⟨hfree, hfirst⟩
      · have := (h.sgrant s).mpr ⟨n', hgrant⟩
        rw [hgains.1] at this
        contradiction
      · apply Gains.eq ⟨hfree, hrequest, hfirst, hmovable⟩ hgains
  have hregrant : p.regrantMaster i s n = true → p.reindexMaster i s = n := by
    intro hn
    have hany : (List.finRange nm).any (p.regrantMaster i s) = true :=
      List.any_eq_true.mpr ⟨n, List.mem_finRange n, hn⟩
    rw [reindexMaster, hany, if_pos rfl, orOf_eq hn honly]
  simp only [step]
  split_ifs with hnm
  · have := n.isLt
    omega
  · obtain ⟨-, hkeeps | hgains⟩ := hnext
    · rcases h.regrant_or hkeeps with hn | hno
      · apply hregrant hn
      · have hany : (List.finRange nm).any (p.regrantMaster i s) = false := by
          rw [← Bool.not_eq_true, List.any_eq_true]
          rintro ⟨n', -, hn'⟩
          obtain rfl := honly n' hn'
          obtain ⟨-, hrequest, hmovable⟩ := regrantSlave_eq_true.mp hn'
          rw [hno s hrequest] at hmovable
          contradiction
        rw [reindexMaster, hany, if_neg Bool.false_ne_true]
        apply h.sindex n s hkeeps.1
    · apply hregrant hgains.regrantSlave

/-- A request is let through to the slave that is granted only. -/
theorem Grants.exists_of_accepted (h : p.Grants A) (hmerr : p.oMerr n = false)
    (haccepted : (p.mStb i n && !p.mStall i n) = true) :
  ∃ s, (p.grant n).slave s = true ∧ (p.request i n).slave s = true ∧ p.mfull n = false
    ∧ p.sStall i s = false
  := by
  rw [Bool.and_eq_true, Bool.not_eq_true'] at haccepted
  obtain ⟨hstb, hstall⟩ := haccepted
  rw [mStall, hmerr, if_neg Bool.false_ne_true] at hstall
  split_ifs at hstall with hnone hown
  · rw [Bool.and_eq_true] at hown
    rcases (h.mgrant n).mp hown.1 with ⟨s, hgrant⟩ | hnone'
    · use s, hgrant
      have hrequest := hown.2
      rw [requestsOwn, h.mindex n s hgrant, entry_val] at hrequest
      rw [h.mindex n s hgrant, entry_val, Bool.or_eq_false_iff] at hstall
      exact ⟨hrequest, hstall⟩
    · cases hnone hnone'
  · rw [hstb] at hstall
    contradiction

/-- A master that waits for an answer keeps its grant. -/
theorem mgrant_of_waits (hup : (i.iReset || !i.iMcyc n) = false) (hmovable : p.movable n = false) :
  (p.step i A).mgrant n = true
  := by
  have hstay : p.stayOnChannel i n = true := by
    rw [stayOnChannel_eq_true]
    right
    right
    apply hmovable
  have hmgrant : p.mgrant n = true := by
    rw [movable, Bool.or_eq_false_iff, Bool.not_eq_false'] at hmovable
    apply hmovable.1
  simp only [step, hup, hstay, hmgrant, Bool.false_eq_true, if_false, if_true]

theorem Grants.mfull_step (h : p.Grants A) (hfull : (p.step i A).mfull n = true) :
  (p.step i A).mgrant n = true ∧ (p.step i A).mempty n = false
  := by
  have hup : (i.iReset || !i.iMcyc n || p.oMerr n) = false := by
    by_contra hnot
    rw [Bool.not_eq_false] at hnot
    simp only [step] at hfull
    rw [if_pos hnot] at hfull
    contradiction
  have hcyc := (Bool.or_eq_false_iff.mp hup).1
  have hmerr := (Bool.or_eq_false_iff.mp hup).2
  cases haccepted : p.mStb i n && !p.mStall i n with
  | true =>
      obtain ⟨s, hgrant, hrequest, -⟩ := h.exists_of_accepted hmerr haccepted
      have hstay := (h.stays_iff hgrant).mpr (Or.inl hrequest)
      have hmgrant := (h.mgrant n).mpr (Or.inl ⟨s, hgrant⟩)
      constructor
      · simp only [step, hcyc, hstay, hmgrant, Bool.false_eq_true, if_false, if_true]
      · cases hack : p.oMack n with
        | true =>
            simp only [step, hup, haccepted, hack, Bool.false_eq_true, if_false] at hfull ⊢
            apply (h.mfull n hfull).2
        | false => simp only [step, hup, haccepted, hack, Bool.false_eq_true, if_false]
  | false =>
      cases hack : p.oMack n with
      | true => simp [step, haccepted, hack] at hfull
      | false =>
          simp only [step, hup, haccepted, hack, Bool.false_eq_true, if_false] at hfull
          obtain ⟨hmgrant, hempty⟩ := h.mfull n hfull
          constructor
          · apply mgrant_of_waits hcyc
            rw [movable, hmgrant, hempty]
            rfl
          · simp only [step, hup, haccepted, hack, Bool.false_eq_true, if_false]
            apply hempty

/-- The registers of the arbitration go on agreeing. -/
theorem Grants.step (h : p.Grants A) (hdisjoint : A.Disjoint) (i : Input nm ns aw dw) :
  (p.step i A).Grants A
  := by
  constructor
  case decoded =>
      intro n
      apply Addrdecode.oDecode_step (h.decoded n)
  case oneHot =>
      intro n
      apply h.oneHot_step hdisjoint
  case mgrant =>
      intro n
      apply h.mgrant_step
  case sgrant =>
      intro s
      apply h.sgrant_step hdisjoint
  case unique =>
      intro n n' s
      apply h.unique_step hdisjoint
  case mindex =>
      intro n s
      apply h.mindex_step hdisjoint
  case sindex =>
      intro n s
      apply h.sindex_step hdisjoint
  case mfull =>
      intro n
      apply h.mfull_step

end Step

/-! ### Runs -/

/-- The registers with an initial value. -/
structure Initial (p : Wbxbar nm ns aw dw lg) : Prop where
  iskid : ∀ n, (p.iskid n).Initial
  oValid : ∀ n, (p.adcd n).oValid = false
  oDecode : ∀ n, (p.adcd n).oDecode = .zero
  oAddr : ∀ n, (p.adcd n).oAddr = 0
  oData : ∀ n, (p.adcd n).oData = (false, 0, 0)
  grant : ∀ n, p.grant n = .zero
  mgrant : ∀ n, p.mgrant n = false
  sgrant : ∀ s, p.sgrant s = false
  oScyc : ∀ s, p.oScyc s = false
  oSstb : ∀ s, p.oSstb s = false
  rMack : ∀ n, p.rMack n = false
  rMerr : ∀ n, p.rMerr n = false
  lclpending : ∀ n, p.lclpending n = 0
  mfull : ∀ n, p.mfull n = false
  mnearfull : ∀ n, p.mnearfull n = false
  mempty : ∀ n, p.mempty n = true

theorem Initial.grants {p : Wbxbar nm ns aw dw lg} (h : p.Initial) :
  p.Grants A
  := by
  have hnone : ∀ n s, (p.grant n).slave s = false := by
    intro n s
    rw [h.grant]
    rfl
  constructor
  case decoded =>
      intro n hvalid
      rw [dcdStb, h.oValid] at hvalid
      contradiction
  case oneHot =>
      intro n
      rw [h.grant]
      apply Selection.oneHot_zero
  case mgrant =>
      intro n
      rw [h.mgrant, h.grant]
      simp [Selection.zero]
  case sgrant =>
      intro s
      simp [h.sgrant, hnone]
  case unique =>
      intro n n' s hgrant
      rw [hnone] at hgrant
      contradiction
  case mindex =>
      intro n s hgrant
      rw [hnone] at hgrant
      contradiction
  case sindex =>
      intro n s hgrant
      rw [hnone] at hgrant
      contradiction
  case mfull =>
      intro n hfull
      rw [h.mfull] at hfull
      contradiction

section Runs

variable (A) (p₀ : Wbxbar nm ns aw dw lg) (inp : ℕ → Input nm ns aw dw)

/-- The registers before the clock `t`. -/
def state (t : ℕ) : Wbxbar nm ns aw dw lg := run (fun p i => p.step i A) p₀ inp t

variable {A p₀ inp}

theorem state_succ (t : ℕ) :
  state A p₀ inp (t + 1) = (state A p₀ inp t).step (inp t) A
  := rfl

theorem run_grants (hdisjoint : A.Disjoint) (h₀ : p₀.Initial) (t : ℕ) :
  (state A p₀ inp t).Grants A
  := run_induction h₀.grants (fun k _ h => h.step hdisjoint (inp k)) t

end Runs

end Wbxbar

end ZBasic
