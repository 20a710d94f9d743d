import Mathlib.Data.List.Basic

/-!
# Texts that are cut at a separator

`string.find` with a plain separator cuts a text at its first occurrence, `:([^:]+)$` at its last.
-/

namespace Text

variable {α : Type} [DecidableEq α]

/-- The parts before and after the first `a`. -/
def splitFirst (a : α) : List α → Option (List α × List α)
  | [] => none
  | c :: rest => if c = a then some ([], rest) else (splitFirst a rest).map fun p => (c :: p.1, p.2)

/-- The parts before and after the last `a`. -/
def splitLast (a : α) (l : List α) : Option (List α × List α) :=
  (splitFirst a l.reverse).map fun p => (p.2.reverse, p.1.reverse)

theorem splitFirst_eq_none {a : α} {l : List α} (h : a ∉ l) : splitFirst a l = none := by
  induction l with
  | nil => rfl
  | cons c l ih =>
    rw [List.mem_cons, not_or] at h
    rw [splitFirst, if_neg (Ne.symm h.1), ih h.2]
    rfl

theorem splitFirst_append {a : α} {l r : List α} (h : a ∉ l) : splitFirst a (l ++ a :: r) = some (l, r) := by
  induction l with
  | nil => simp [splitFirst]
  | cons c l ih =>
    rw [List.mem_cons, not_or] at h
    have hc : c ≠ a := fun heq => h.1 heq.symm
    rw [List.cons_append, splitFirst, if_neg hc, ih h.2]
    rfl

theorem eq_of_splitFirst {a : α} {l l₁ l₂ : List α} (h : splitFirst a l = some (l₁, l₂)) : l = l₁ ++ a :: l₂ := by
  induction l generalizing l₁ with
  | nil => cases h
  | cons c l ih =>
    rw [splitFirst] at h
    split at h
    · rename_i hc
      cases h
      rw [hc, List.nil_append]
    · obtain ⟨p, hp, heq⟩ := Option.map_eq_some_iff.mp h
      cases heq
      rw [ih hp, List.cons_append]

theorem splitLast_eq_none {a : α} {l : List α} (h : a ∉ l) : splitLast a l = none := by
  unfold splitLast
  rw [splitFirst_eq_none (by simpa using h), Option.map_none]

theorem splitLast_append {a : α} {l r : List α} (h : a ∉ r) : splitLast a (l ++ a :: r) = some (l, r) := by
  have hreverse : (l ++ a :: r).reverse = r.reverse ++ a :: l.reverse := by simp
  unfold splitLast
  rw [hreverse, splitFirst_append (by simpa using h)]
  simp

theorem eq_of_splitLast {a : α} {l l₁ l₂ : List α} (h : splitLast a l = some (l₁, l₂)) : l = l₁ ++ a :: l₂ := by
  obtain ⟨p, hp, heq⟩ := Option.map_eq_some_iff.mp h
  cases heq
  have := congrArg List.reverse (eq_of_splitFirst hp)
  simpa using this

end Text
