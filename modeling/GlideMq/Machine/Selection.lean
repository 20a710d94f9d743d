import Mathlib.Data.List.Sort
import Mathlib.Order.Defs.LinearOrder

/-!
# A stable sort as repeated selection

The head of a stable sort is the first least element, and its tail is the sort of the others.
-/

namespace Machine

variable {α β : Type*} [LinearOrder β]

/-- The first least element comes first. -/
theorem insertionSort_select (key : α → β) (front : List α) (m : α) (back : List α)
    (hfront : ∀ x ∈ front, key m < key x) (hback : ∀ x ∈ back, key m ≤ key x) :
    (front ++ m :: back).insertionSort (key · ≤ key ·) =
      m :: (front ++ back).insertionSort (key · ≤ key ·) := by
  induction front with
  | nil => exact List.insertionSort_cons_of_forall_rel _ hback
  | cons x front ih =>
    rw [List.forall_mem_cons] at hfront
    simp only [List.cons_append, List.insertionSort_cons]
    rw [ih hfront.2, List.orderedInsert_cons, if_neg (not_le.mpr hfront.1)]

end Machine
