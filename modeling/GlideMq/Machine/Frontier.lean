import Mathlib.Order.Bounds.Basic
import Mathlib.Data.Set.Insert

/-!
# The frontier of a set of numbers

A set of finished numbers is kept as the last number of its unbroken run from 1 and the numbers
after it.
-/

namespace Machine

/-- `n` is the largest number with `1..n` all in the set. -/
def Frontier (M : Set ℕ) (n : ℕ) : Prop := IsGreatest {n | ∀ k, 0 < k → k ≤ n → k ∈ M} n

variable {M : Set ℕ} {m n : ℕ} {P Q : List ℕ}

theorem frontier_iff : Frontier M n ↔ (∀ k, 0 < k → k ≤ n → k ∈ M) ∧ n + 1 ∉ M := by
  constructor
  · rintro ⟨hrun, hmax⟩
    refine ⟨hrun, fun hnext => ?_⟩
    have : n + 1 ≤ n := hmax fun k hk hle => by
      rcases Nat.lt_or_ge n k with h | h
      · rwa [show k = n + 1 by omega]
      · exact hrun k hk h
    omega
  · rintro ⟨hrun, hnext⟩
    refine ⟨hrun, fun b hb => ?_⟩
    by_contra hlt
    exact hnext (hb (n + 1) (by omega) (by omega))

theorem Frontier.unique (h : Frontier M m) (h' : Frontier M n) : m = n := IsGreatest.unique h h'

/-- The numbers `1..n` are in the set, and the list holds those after `n`. -/
structure Splits (M : Set ℕ) (n : ℕ) (P : List ℕ) : Prop where
  run : ∀ k, 0 < k → k ≤ n → k ∈ M
  above : ∀ k, k ∈ P ↔ k ∈ M ∧ n < k

/-- The kept form of a set. -/
structure Kept (M : Set ℕ) (n : ℕ) (P : List ℕ) : Prop extends Splits M n P where
  next : n + 1 ∉ M

theorem Kept.frontier (h : Kept M n P) : Frontier M n := frontier_iff.mpr ⟨h.run, h.next⟩

theorem kept_empty : Kept ∅ 0 [] where
  run k _ _ := by omega
  above k := by simp
  next := by simp

/-- The kept form is told by the set. -/
theorem Kept.unique (h : Kept M m P) (h' : Kept M n Q) : m = n ∧ ∀ k, k ∈ P ↔ k ∈ Q := by
  obtain rfl := h.frontier.unique h'.frontier
  refine ⟨rfl, fun k => ?_⟩
  rw [h.above, h'.above]

theorem Kept.mono {M' : Set ℕ} (h : Kept M m P) (h' : Kept M' n Q) (hsub : M ⊆ M') : m ≤ n :=
  h'.frontier.2 fun k hk hle => hsub (h.run k hk hle)

theorem Kept.lt {b : ℕ} (h : Kept M n P) (hb : 0 < b) (hM : ∀ m ∈ M, m < b) :
    n < b ∧ ∀ m ∈ P, m < b := by
  refine ⟨?_, fun m hm => hM m ((h.above m).mp hm).1⟩
  rcases Nat.eq_zero_or_pos n with rfl | hpos
  · exact hb
  · exact hM n (h.run n hpos le_rfl)

theorem Kept.insert_le (h : Kept M n P) (hm : 0 < m) (hle : m ≤ n) :
    Kept (insert m M) n (P.filter (· ≠ m)) := by
  rw [Set.insert_eq_of_mem (h.run m hm hle)]
  refine ⟨⟨h.run, fun k => ?_⟩, h.next⟩
  simp only [List.mem_filter, decide_eq_true_eq, h.above, and_assoc]
  refine and_congr_right fun _ => ?_
  omega

theorem Splits.insert_lt (h : Splits M n P) (hlt : n < m) : Splits (insert m M) n (P.insert m) where
  run k hk hle := Set.mem_insert_of_mem _ (h.run k hk hle)
  above k := by
    rw [List.mem_insert_iff, Set.mem_insert_iff, h.above]
    constructor
    · rintro (rfl | ⟨hk, hlt'⟩)
      · exact ⟨Or.inl rfl, hlt⟩
      · exact ⟨Or.inr hk, hlt'⟩
    · rintro ⟨rfl | hk, hlt'⟩
      · exact Or.inl rfl
      · exact Or.inr ⟨hk, hlt'⟩

theorem Splits.advance (h : Splits M n P) (hnext : n + 1 ∈ P) :
    Splits M (n + 1) (P.filter (· ≠ n + 1)) where
  run k hk hle := by
    rcases Nat.lt_or_ge n k with hlt | hge
    · rw [show k = n + 1 by omega]
      exact ((h.above _).mp hnext).1
    · exact h.run k hk hge
  above k := by
    simp only [List.mem_filter, decide_eq_true_eq, h.above, and_assoc]
    refine and_congr_right fun _ => ?_
    omega

theorem Splits.kept (h : Splits M n P) (hnext : n + 1 ∉ P) : Kept M n P where
  toSplits := h
  next hmem := hnext ((h.above _).mpr ⟨hmem, by omega⟩)

end Machine
