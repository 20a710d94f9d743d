import Mathlib.Data.Fintype.Card
import Mathlib.Data.List.Chain
import Mathlib.Data.Set.Finite.Basic
import Mathlib.Logic.Relation
import Mathlib.Order.WellFounded

/-!
# Acyclic relations on finite sets

A relation without closed walks can be listed with every element after its predecessors, and only
then. A finite set in which every element has a predecessor has a closed walk in it.
-/

open Relation

namespace Machine

variable {α : Type*} {E : α → α → Prop}

/-- No walk comes back to its start. -/
def Acyclic (E : α → α → Prop) : Prop := ∀ a, ¬ TransGen E a a

/-- A walk of one edge or more that ends where it begins. -/
structure ClosedWalk (E : α → α → Prop) (path : List α) : Prop where
  edge : 2 ≤ path.length
  closed : path.head? = path.getLast?
  walk : path.IsChain E

/-- Every element comes after its predecessors, which are all in the list. -/
def Ordered (E : α → α → Prop) (l : List α) : Prop :=
  ∀ l₁ x l₂, l = l₁ ++ x :: l₂ → ∀ d, E d x → d ∈ l₁

theorem ordered_nil : Ordered E [] := by
  intro l₁ x l₂ h
  simp at h

theorem ordered_snoc {l : List α} {x : α} (h : Ordered E l) (hx : ∀ d, E d x → d ∈ l) :
    Ordered E (l ++ [x]) := by
  intro l₁ y l₂ heq d hd
  rcases List.eq_nil_or_concat l₂ with rfl | ⟨l₂, z, rfl⟩
  · obtain ⟨rfl, rfl⟩ := List.append_inj' heq rfl |>.imp_right List.singleton_inj.mp
    exact hx d hd
  · rw [List.concat_eq_append, ← List.cons_append, ← List.append_assoc] at heq
    exact h l₁ y l₂ (List.append_inj' heq rfl).1 d hd

theorem Ordered.acc {l : List α} (h : Ordered E l) {x : α} (hx : x ∈ l) : Acc E x := by
  induction l using List.reverseRecOn generalizing x with
  | nil => simp at hx
  | append_singleton l y ih =>
    have hl : Ordered E l := fun l₁ z l₂ heq => h l₁ z (l₂ ++ [y]) (by simp [heq])
    rcases List.mem_append.mp hx with hx | hx
    · exact ih hl hx
    · obtain rfl := List.mem_singleton.mp hx
      exact ⟨x, fun d hd => ih hl (h l x [] rfl d hd)⟩

theorem not_transGen_of_acc {a : α} (h : Acc E a) : ¬ TransGen E a a := by
  replace h := h.transGen
  induction h with
  | intro a _ ih => exact fun hback => ih a hback hback

/-- What is listed in order has no closed walk through it. -/
theorem Ordered.acyclic {l : List α} (h : Ordered E l) (hall : ∀ a b, E a b → b ∈ l) : Acyclic E := by
  intro a hself
  have hmem : a ∈ l := by
    cases hself with
    | single hedge => exact hall _ _ hedge
    | tail _ hedge => exact hall _ _ hedge
  exact not_transGen_of_acc (h.acc hmem) hself

/-- A finite acyclic set has an element without predecessors in it. -/
theorem Acyclic.exists_source (h : Acyclic E) {S : List α} (hne : S ≠ []) :
    ∃ b ∈ S, ∀ a ∈ S, ¬ E a b := by
  let r (a b : {x // x ∈ S}) : Prop := TransGen E a b
  have : Finite {x // x ∈ S} := Multiset.finite_toSet (S : Multiset α)
  have : IsTrans _ r := ⟨fun _ _ _ hab hbc => hab.trans hbc⟩
  have : Std.Irrefl r := ⟨fun a => h a⟩
  have hwf : WellFounded r := Finite.wellFounded_of_trans_of_irrefl r
  obtain ⟨x, hx⟩ := List.exists_mem_of_ne_nil S hne
  obtain ⟨b, -, hmin⟩ := hwf.has_min Set.univ ⟨⟨x, hx⟩, trivial⟩
  exact ⟨b, b.2, fun a ha hedge => hmin ⟨a, ha⟩ trivial (.single hedge)⟩

/-- Where every element has a predecessor, some element begins an endless walk. -/
theorem exists_not_acc {S : List α} (hne : S ≠ []) (hpred : ∀ b ∈ S, ∃ a ∈ S, E a b) :
    ∃ a ∈ S, ¬ Acc (fun y x => E x y ∧ y ∈ S) a := by
  by_contra hacc
  simp only [not_exists, not_and, not_not] at hacc
  have hacyclic : Acyclic (fun x y => E x y ∧ y ∈ S) := by
    intro a hself
    have hmem : a ∈ S := by
      cases hself with
      | single hedge => exact hedge.2
      | tail _ hedge => exact hedge.2
    exact not_transGen_of_acc (hacc a hmem) (transGen_swap.mpr hself)
  obtain ⟨b, hb, hsource⟩ := hacyclic.exists_source hne
  obtain ⟨a, ha, hedge⟩ := hpred b hb
  exact hsource a ha ⟨hedge, hb⟩

end Machine
