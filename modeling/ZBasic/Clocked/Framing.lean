import Mathlib.Data.List.Basic
import Mathlib.Data.List.Flatten

/-!
# Framing

A sequence of words, each encoded as a list of characters, with separators between them.
-/

namespace Clocked

variable {α β : Type*}

/-- `Framed enc sep ws cs` says that `cs` is made of the encodings of the words `ws`, in
order, with separators after some of them and none inside. -/
inductive Framed (enc : α → List β) (sep : β) : List α → List β → Prop
  | nil : Framed enc sep [] []
  | word {ws : List α} {cs : List β} (h : Framed enc sep ws cs) (w : α) :
      Framed enc sep (ws ++ [w]) (cs ++ enc w)
  | sep {ws : List α} {cs : List β} (h : Framed enc sep ws cs) (hws : ws ≠ []) :
      Framed enc sep ws (cs ++ [sep])

variable {enc : α → List β} {sep : β}

/-- Appending words with no separator between them. -/
theorem Framed.words {ws : List α} {cs : List β} (h : Framed enc sep ws cs) (l : List α) :
  Framed enc sep (ws ++ l) (cs ++ l.flatMap enc)
  := by
  induction l generalizing ws cs with
  | nil => simpa using h
  | cons w l ih =>
      have := ih (h.word w)
      simpa using this

/-- Without its separators a framed text is the concatenation of its words. -/
theorem Framed.filter [DecidableEq β] {ws : List α} {cs : List β} (h : Framed enc sep ws cs)
    (henc : ∀ w, sep ∉ enc w) :
  cs.filter (· ≠ sep) = ws.flatMap enc
  := by
  induction h with
  | nil => rfl
  | word _ w ih =>
      have hw : (enc w).filter (· ≠ sep) = enc w := by
        apply List.filter_eq_self.mpr
        intro c hc
        have : c ≠ sep := by
          rintro rfl
          apply henc w hc
        simpa
      rw [List.filter_append, ih, hw, List.flatMap_append, List.flatMap_singleton]
  | sep _ _ ih =>
      rw [List.filter_append, ih]
      simp

end Clocked
